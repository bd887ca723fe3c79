import ShaderMicrocode.Listing
import ShaderMicrocode.Shader
import ShaderMicrocode.Alu.Instruction
import ShaderMicrocode.ControlFlow.Instruction
import ShaderMicrocode.Settings.Basic
/-!
# Backends

A translation shows a shader to a backend event by event. On each event the backend sees how far the translation
has come, changes its own state and may object; at the end it produces an artifact.
-/
namespace ShaderMicrocode

/-- What a backend is shown. -/
inductive Event where
  | start
  | label (index : UInt32)
  | nop (index : UInt32)
  | execBegin (e : ControlFlow.Exec)
  | execEnd (e : ControlFlow.Exec)
  | loopStart (l : ControlFlow.LoopStart)
  | loopEnd (l : ControlFlow.LoopEnd)
  | call (c : ControlFlow.Call)
  | ret (index : UInt32)
  | jump (j : ControlFlow.Jump)
  | alloc (a : ControlFlow.Alloc)
  | vertexFetch (f : Fetch.VertexFetch)
  | textureFetch (f : Fetch.TextureFetch)
  | alu (i : Alu.Instruction)
deriving DecidableEq, Inhabited

/-- The render target that the shown instruction writes. -/
def Event.colorTarget? : Event → Option Nat
  | alu i => if i.result.target = .colorTarget then some i.result.index.toNat else none
  | _ => none

/-- How far a translation has come, as a backend may read it. -/
structure View where
  stage : Stage
  words : Array UInt32
  settings : TranslatorSettings
  vertexBindings : List VertexBinding
  textureBindings : List TextureBinding
  attributeCount : UInt32
  colorTargets : ColorTargets
  listing : Listing
  errors : List Diagnostic
  isAborted : Bool
deriving DecidableEq, Inhabited

/-- What a backend wants after an error that it was told of. -/
inductive Verdict where
  | proceed
  | abort
deriving DecidableEq, Inhabited

/-- A backend with states in `σ`. Its objections are recorded in the order given. -/
structure Backend (σ : Type) where
  /-- Forgets the shader shown before. -/
  reset : σ → σ := id
  handle : Event → View → σ → σ × List Objection := fun _ _ s => (s, [])
  /-- Told of every error that the translation itself records. -/
  onError : Diagnostic → View → σ → σ × Verdict := fun _ _ s => (s, .proceed)
  complete : View → σ → σ × List Objection × ByteArray := fun _ s => (s, [], .empty)

/-- The two ways in which a backend can be told of an error. -/
inductive ErrorHook where
  | translationError
  | unimplemented
deriving DecidableEq, Inhabited

/-- Errors of instructions that are not implemented have a hook of their own. -/
def Diagnostic.hook (d : Diagnostic) : ErrorHook :=
  match d.kind with
  | .unimplementedInstruction => .unimplemented
  | .invalidEncoding | .generalTranslationError => .translationError

namespace Backend

/-- What a backend does in each of its error hooks. -/
abbrev ErrorHooks (σ : Type) := ErrorHook → Diagnostic → View → σ → σ × Verdict

/-- The backend `b`, told of errors through `hooks`. -/
def withErrorHooks {σ : Type} (b : Backend σ) (hooks : ErrorHooks σ) : Backend σ :=
  { b with onError := fun d => hooks d.hook d }

/-- Does nothing and produces nothing. -/
def silent : Backend Unit := {}

/-- Produces the disassembly. -/
def listing : Backend Unit where
  complete view _ := ((), [], view.listing.text.toUTF8)

end Backend

/-- How many events of some kinds a translation showed. -/
structure EventCounts where
  labels : UInt32
  execBlocks : UInt32
  aluInstructions : UInt32
  vertexFetches : UInt32
  textureFetches : UInt32
deriving DecidableEq, Inhabited

namespace EventCounts

def zero : EventCounts := ⟨0, 0, 0, 0, 0⟩

def add (c : EventCounts) : Event → EventCounts
  | .label _ => { c with labels := c.labels + 1 }
  | .execBegin _ => { c with execBlocks := c.execBlocks + 1 }
  | .alu _ => { c with aluInstructions := c.aluInstructions + 1 }
  | .vertexFetch _ => { c with vertexFetches := c.vertexFetches + 1 }
  | .textureFetch _ => { c with textureFetches := c.textureFetches + 1 }
  | _ => c

end EventCounts

/-- Counts what it is shown and produces nothing. -/
def Backend.counting : Backend EventCounts where
  reset _ := .zero
  handle event _ counts := (counts.add event, [])

end ShaderMicrocode
