import ShaderMicrocode.Backend.Recording
import ShaderMicrocode.Proofs.Simulation
/-!
# Traces

Everything that a translation asks of its backend, in order. A traced backend keeps each request and hands it on;
the translation cannot tell it from the backend inside.
-/
namespace ShaderMicrocode

inductive Request where
  | reset
  | call (c : Call)
deriving DecidableEq, Inhabited

/-- A request without the view that comes with it. -/
inductive Notice where
  | reset
  | event (e : Event)
  | error (d : Diagnostic)
  | complete
deriving DecidableEq, Inhabited

def Call.view : Call → View
  | event _ view => view
  | error _ view => view
  | complete view => view

def Call.notice : Call → Notice
  | event e _ => .event e
  | error d _ => .error d
  | complete _ => .complete

def Request.notice : Request → Notice
  | reset => .reset
  | call c => c.notice

/-- A backend's state together with the requests made so far, the latest first, and whether it answered any of them
by asking to stop or with an objection. -/
structure Traced (σ : Type) where
  reversed : List Request
  inner : σ
  hasAskedToStop : Bool
  hasObjected : Bool

namespace Traced

variable {σ : Type}

def new (s : σ) : Traced σ := ⟨[], s, false, false⟩

def requests (t : Traced σ) : List Request := t.reversed.reverse

def push (t : Traced σ) (q : Request) (s : σ) : Traced σ :=
  ⟨q :: t.reversed, s, t.hasAskedToStop, t.hasObjected⟩

def heed (t : Traced σ) (v : Verdict) : Traced σ :=
  ⟨t.reversed, t.inner, t.hasAskedToStop || v == .abort, t.hasObjected⟩

def hear (t : Traced σ) (os : List Objection) : Traced σ :=
  ⟨t.reversed, t.inner, t.hasAskedToStop, t.hasObjected || !os.isEmpty⟩

@[simp] theorem requests_new (s : σ) : (new s).requests = [] := rfl

@[simp] theorem requests_push (t : Traced σ) (q : Request) (s : σ) :
    (t.push q s).requests = t.requests ++ [q] := by
  simp [requests, push]

@[simp] theorem hasAskedToStop_push (t : Traced σ) (q : Request) (s : σ) :
    (t.push q s).hasAskedToStop = t.hasAskedToStop := rfl

@[simp] theorem hasObjected_push (t : Traced σ) (q : Request) (s : σ) :
    (t.push q s).hasObjected = t.hasObjected := rfl

@[simp] theorem requests_heed (t : Traced σ) (v : Verdict) : (t.heed v).requests = t.requests := rfl

@[simp] theorem hasAskedToStop_heed (t : Traced σ) (v : Verdict) :
    (t.heed v).hasAskedToStop = (t.hasAskedToStop || v == .abort) := rfl

@[simp] theorem requests_hear (t : Traced σ) (os : List Objection) : (t.hear os).requests = t.requests := rfl

@[simp] theorem hasAskedToStop_hear (t : Traced σ) (os : List Objection) :
    (t.hear os).hasAskedToStop = t.hasAskedToStop := rfl

@[simp] theorem hasObjected_hear (t : Traced σ) (os : List Objection) :
    (t.hear os).hasObjected = (t.hasObjected || !os.isEmpty) := rfl

end Traced

/-- Keeps what is asked of `b`, which itself is unaware of it. Unlike a recording it also keeps the resets. -/
def Backend.traced {σ : Type} (b : Backend σ) : Backend (Traced σ) where
  reset t := t.push .reset (b.reset t.inner)
  handle e view t :=
    ((t.push (.call (.event e view)) (b.handle e view t.inner).1).hear (b.handle e view t.inner).2,
      (b.handle e view t.inner).2)
  onError d view t :=
    ((t.push (.call (.error d view)) (b.onError d view t.inner).1).heed (b.onError d view t.inner).2,
      (b.onError d view t.inner).2)
  complete view t :=
    ((t.push (.call (.complete view)) (b.complete view t.inner).1).hear (b.complete view t.inner).2.1,
      (b.complete view t.inner).2)

theorem Backend.simulates_traced {σ : Type} (b : Backend σ) : b.traced.Simulates b Traced.inner :=
  ⟨fun _ => rfl, fun _ _ _ => rfl, fun _ _ _ => rfl, fun _ _ => rfl⟩

namespace Shader

variable {σ : Type}

def requests (shader : Shader) (b : Backend σ) (settings : TranslatorSettings) (s : σ) : List Request :=
  (shader.translate b.traced settings (.new s)).state.requests

def notices (shader : Shader) (b : Backend σ) (settings : TranslatorSettings) (s : σ) : List Notice :=
  (shader.requests b settings s).map Request.notice

/-- No call finds the translation aborted. -/
def NeverAborts (shader : Shader) (b : Backend σ) (settings : TranslatorSettings) (s : σ) : Prop :=
  ∀ c, .call c ∈ shader.requests b settings s → c.view.isAborted = false

/-- The backend asks to stop after some error that it is told of. -/
def AsksToStop (shader : Shader) (b : Backend σ) (settings : TranslatorSettings) (s : σ) : Prop :=
  (shader.translate b.traced settings (.new s)).state.hasAskedToStop = true

/-- The backend raises some error of its own. -/
def Objects (shader : Shader) (b : Backend σ) (settings : TranslatorSettings) (s : σ) : Prop :=
  (shader.translate b.traced settings (.new s)).state.hasObjected = true

end Shader

namespace Run

variable {σ : Type}

def untraced (r : Run (Traced σ)) : Run σ := ⟨r.session, r.state.inner⟩

@[simp] theorem untraced_session (r : Run (Traced σ)) : r.untraced.session = r.session := rfl

@[simp] theorem untraced_isAborted (r : Run (Traced σ)) : r.untraced.isAborted = r.isAborted := rfl

theorem untraced_acts (b : Backend σ) (r : Run (Traced σ)) (as : List Act) :
    (r.acts b.traced as).untraced = r.untraced.acts b as :=
  map_acts b.simulates_traced r as

end Run

namespace Shader

variable {σ : Type} (shader : Shader) (b : Backend σ) (settings : TranslatorSettings)

theorem untraced_walked (t : Traced σ) :
    (shader.walked b.traced settings t).untraced = shader.walked b settings t.inner :=
  map_walked b.simulates_traced shader settings t

theorem session_walked_traced (t : Traced σ) :
    (shader.walked b.traced settings t).session = (shader.walked b settings t.inner).session :=
  congrArg Run.session (shader.untraced_walked b settings t)

/-- A trace changes nothing of the translation. -/
theorem translate_traced (t : Traced σ) :
    (shader.translate b.traced settings t).shader = (shader.translate b settings t.inner).shader ∧
      (shader.translate b.traced settings t).log = (shader.translate b settings t.inner).log ∧
      (shader.translate b.traced settings t).state.inner = (shader.translate b settings t.inner).state :=
  translate_of_simulates b.simulates_traced shader settings t

end Shader

end ShaderMicrocode
