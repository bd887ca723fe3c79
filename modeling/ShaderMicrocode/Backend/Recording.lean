import ShaderMicrocode.Session
/-!
# Recording backends

A recording backend keeps every call made to the backend inside it, with the view of that moment. A scripted
backend answers by a script that is fixed beforehand.
-/
namespace ShaderMicrocode

/-- A call made to a backend in the course of a translation. -/
inductive Call where
  | event (e : Event) (view : View)
  | error (d : Diagnostic) (view : View)
  | complete (view : View)
deriving DecidableEq, Inhabited

/-- The calls since the last reset, latest first, and the number of resets. -/
structure Recording (σ : Type) where
  resets : Nat
  reversedCalls : List Call
  inner : σ

namespace Recording

variable {σ : Type}

def new (s : σ) : Recording σ := ⟨0, [], s⟩

def calls (r : Recording σ) : List Call := r.reversedCalls.reverse

def push (r : Recording σ) (c : Call) (s : σ) : Recording σ := ⟨r.resets, c :: r.reversedCalls, s⟩

end Recording

/-- Records what is shown to `b`, which itself is unaware of it. -/
def Backend.recorded {σ : Type} (b : Backend σ) : Backend (Recording σ) where
  reset r := ⟨r.resets + 1, [], b.reset r.inner⟩
  handle e view r :=
    let (s, objections) := b.handle e view r.inner
    (r.push (.event e view) s, objections)
  onError d view r :=
    let (s, verdict) := b.onError d view r.inner
    (r.push (.error d view) s, verdict)
  complete view r :=
    let (s, objections, artifact) := b.complete view r.inner
    (r.push (.complete view) s, objections, artifact)

/-- The kinds of call to which a script may react. -/
inductive Hook where
  | start
  | label
  | nop
  | execBegin
  | execEnd
  | loopStart
  | loopEnd
  | call
  | ret
  | jump
  | alloc
  | vertexFetch
  | textureFetch
  | alu
  | complete
deriving DecidableEq, Inhabited

def Event.hook : Event → Hook
  | start => .start
  | label _ => .label
  | nop _ => .nop
  | execBegin _ => .execBegin
  | execEnd _ => .execEnd
  | loopStart _ => .loopStart
  | loopEnd _ => .loopEnd
  | call _ => .call
  | ret _ => .ret
  | jump _ => .jump
  | alloc _ => .alloc
  | vertexFetch _ => .vertexFetch
  | textureFetch _ => .textureFetch
  | alu _ => .alu

/-- An objection raised at the `nth` call of a hook, counted from zero, or at every call of it. -/
structure ScriptedObjection where
  hook : Hook
  nth : Option Nat
  objection : Objection
deriving DecidableEq, Inhabited

structure Script where
  /-- The kinds of error after which the backend asks to stop. -/
  abortOn : List ErrorKind := []
  objections : List ScriptedObjection := []
  /-- The artifact; without one the disassembly is produced. -/
  artifact? : Option String := none
deriving DecidableEq, Inhabited

/-- The objections that a script holds for a call of `hook` after `earlier` calls of it. -/
def Script.objectionsAt (script : Script) (hook : Hook) (earlier : Nat) : List Objection :=
  (script.objections.filter fun o => o.hook = hook ∧ o.nth.getD earlier = earlier).map ScriptedObjection.objection

/-- A backend that follows a script; its state is the list of hooks called so far. -/
def Backend.scripted (script : Script) : Backend (List Hook) where
  reset _ := []
  handle e _ seen := (e.hook :: seen, script.objectionsAt e.hook (seen.count e.hook))
  onError d _ seen := (seen, if d.kind ∈ script.abortOn then .abort else .proceed)
  complete view seen :=
    (.complete :: seen, script.objectionsAt .complete (seen.count .complete),
      (script.artifact?.getD view.listing.text).toUTF8)

end ShaderMicrocode
