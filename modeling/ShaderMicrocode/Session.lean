import ShaderMicrocode.Schedule
/-!
# Sessions

A session runs a schedule against a backend: it keeps the view that the backend is given, records errors and
stops where the schedule can be stopped once the translation is aborted.
-/
namespace ShaderMicrocode

/-- One entry of the log. -/
inductive LogEntry where
  | strideMismatch (m : StrideMismatch)
  | gathered (vertexBindings : Nat) (attributes : UInt32) (textureBindings : Nat)
  | recorded (d : Diagnostic)
  | controlFlow (index : UInt32) (opcode : ControlFlow.Opcode)
  | line (text : String)
  | stopped (index : Nat)
  | translated (stage : Stage) (dwords lines errors : Nat)
deriving DecidableEq, Inhabited

namespace LogEntry

def level : LogEntry → LogLevel
  | strideMismatch _ | recorded _ => .warn
  | gathered .. | stopped _ | translated .. => .debug
  | controlFlow .. | line _ => .trace

def message : LogEntry → String
  | strideMismatch m =>
    "Vertex fetch constant " ++ decimal m.slot ++ " read with stride " ++ decimal m.first ++ " and " ++ decimal m.other
  | gathered v a t =>
    "Gathered " ++ v.repr ++ " vertex bindings (" ++ decimal a ++ " attributes), " ++ t.repr ++ " texture bindings"
  | recorded d => "Shader translation error: " ++ d.text
  | controlFlow k op => "cf " ++ decimal k ++ ": " ++ op.name
  | line l => l
  | stopped k => "Stopping control flow at index " ++ k.repr ++ " after an error"
  | translated stage d l e =>
    "Translated " ++ stage.name ++ " shader: " ++ d.repr ++ " dwords, " ++ l.repr ++ " disassembly lines, " ++ e.repr
      ++ " errors"

/-- The message behind its level; the lines of the disassembly have a label of their own. -/
def text (entry : LogEntry) : String :=
  match entry with
  | line l => "DISASM " ++ l
  | _ => entry.level.label ++ " " ++ entry.message

end LogEntry

/-- A translation under way: what the backend may see, and the log, latest entry first. -/
structure Session where
  view : View
  reversedLog : List LogEntry
deriving DecidableEq, Inhabited

namespace Session

def log (s : Session) : List LogEntry := s.reversedLog.reverse

def note (s : Session) (entry : LogEntry) : Session := { s with reversedLog := entry :: s.reversedLog }

@[simp] theorem log_note (s : Session) (entry : LogEntry) : (s.note entry).log = s.log ++ [entry] := by
  simp [log, note]

@[simp] theorem view_note (s : Session) (entry : LogEntry) : (s.note entry).view = s.view := rfl

/-- A session on a shader whose bindings are known; errors are added to those that the shader holds. -/
def start (shader : Shader) (settings : TranslatorSettings) (b : Bindings) : Session where
  view :=
    { stage := shader.stage
      words := shader.words
      settings := settings
      vertexBindings := b.vertex
      textureBindings := b.texture
      attributeCount := b.attributeCount
      colorTargets := .none
      listing := .empty
      errors := shader.errors
      isAborted := false }
  reversedLog :=
    .gathered b.vertex.length b.attributeCount b.texture.length :: (b.mismatches.map .strideMismatch).reverse

/-- Adds a line to the disassembly, and to the log when lines are traced. -/
def print (s : Session) (line : String) : Session :=
  let printed := { s with view.listing := s.view.listing.push line }
  if s.view.settings.traceDisassembly then printed.note (.line line) else printed

/-- Records an error, which aborts the translation if the settings say so. -/
def record (s : Session) (d : Diagnostic) : Session :=
  { s.note (.recorded d) with
    view.errors := s.view.errors ++ [d]
    view.isAborted := s.view.isAborted || s.view.settings.errorPolicy == .abortOnError }

/-- Records the objections of a backend. -/
def recordObjections (s : Session) (os : List Objection) : Session :=
  os.foldl (fun s o => s.record (.raised o)) s

/-- Notes the render target that an event writes. -/
def markColorTarget (s : Session) (e : Event) : Session :=
  match e.colorTarget? with
  | some i => { s with view.colorTargets := s.view.colorTargets.mark i }
  | none => s

end Session

/-- A session together with the state of its backend. -/
structure Run (σ : Type) where
  session : Session
  state : σ

namespace Run

variable {σ : Type}

def isAborted (r : Run σ) : Bool := r.session.view.isAborted

/-- Records an error of the translation and tells the backend, which may ask to stop. -/
def report (b : Backend σ) (r : Run σ) (d : Diagnostic) : Run σ :=
  let recorded := r.session.record d
  let (state, verdict) := b.onError d recorded.view r.state
  ⟨if verdict = .abort then { recorded with view.isAborted := true } else recorded, state⟩

def present (b : Backend σ) (r : Run σ) (e : Event) : Run σ :=
  let marked := r.session.markColorTarget e
  let (state, objections) := b.handle e marked.view r.state
  ⟨marked.recordObjections objections, state⟩

def act (b : Backend σ) (r : Run σ) : Act → Run σ
  | .announce k op => { r with session := r.session.note (.controlFlow k op) }
  | .print line => { r with session := r.session.print line }
  | .report d => r.report b d
  | .present e => r.present b e

def acts (b : Backend σ) (r : Run σ) (as : List Act) : Run σ := as.foldl (act b) r

@[simp] theorem acts_nil (b : Backend σ) (r : Run σ) : r.acts b [] = r := rfl

@[simp] theorem acts_cons (b : Backend σ) (r : Run σ) (a : Act) (as : List Act) :
    r.acts b (a :: as) = (r.act b a).acts b as := rfl

@[simp] theorem acts_append (b : Backend σ) (r : Run σ) (as as' : List Act) :
    r.acts b (as ++ as') = (r.acts b as).acts b as' :=
  List.foldl_append

/-- The words of a block, as long as the translation is not aborted. -/
def block (b : Backend σ) (r : Run σ) : List (List Act) → Run σ
  | [] => r
  | word :: rest => if r.isAborted then r else block b (r.acts b word) rest

theorem block_cons_of_isAborted (b : Backend σ) {r : Run σ} (h : r.isAborted = true) (w : List Act)
    (ws : List (List Act)) : r.block b (w :: ws) = r :=
  if_pos h

theorem block_cons_of_not_isAborted (b : Backend σ) {r : Run σ} (h : ¬r.isAborted = true) (w : List Act)
    (ws : List (List Act)) : r.block b (w :: ws) = (r.acts b w).block b ws :=
  if_neg h

def step (b : Backend σ) (r : Run σ) (s : Step) : Run σ :=
  ((r.acts b s.opening).block b s.block).acts b s.closing

/-- The steps of the walk from the one numbered `k` on, as long as the translation is not aborted. -/
def steps (b : Backend σ) (r : Run σ) (k : Nat) : List Step → Run σ
  | [] => r
  | s :: rest =>
    if r.isAborted then { r with session := r.session.note (.stopped k) }
    else steps b (r.step b s) (k + 1) rest

theorem steps_cons_of_isAborted (b : Backend σ) {r : Run σ} (h : r.isAborted = true) (k : Nat) (s : Step)
    (ss : List Step) : r.steps b k (s :: ss) = { r with session := r.session.note (.stopped k) } :=
  if_pos h

theorem steps_cons_of_not_isAborted (b : Backend σ) {r : Run σ} (h : ¬r.isAborted = true) (k : Nat) (s : Step)
    (ss : List Step) : r.steps b k (s :: ss) = (r.step b s).steps b (k + 1) ss :=
  if_neg h

/-- Everything up to the artifact. -/
def schedule (b : Backend σ) (r : Run σ) (s : Schedule) : Run σ :=
  (s.faults.foldl (report b) (r.present b .start)).steps b 0 s.steps

end Run

/-- The translation of `shader` with a backend in state `s`, up to the artifact. Bindings and errors are added to what
the shader holds, so the results of an earlier translation are dropped first. -/
def Shader.walked {σ : Type} (shader : Shader) (b : Backend σ) (settings : TranslatorSettings) (s : σ) : Run σ :=
  let cleared := shader.cleared
  let plan := Schedule.planOnto cleared.held cleared.stage cleared.words
  Run.schedule b ⟨Session.start cleared settings plan.bindings, b.reset s⟩ plan

/-- What a translation leaves behind. -/
structure Translation (σ : Type) where
  shader : Shader
  state : σ
  log : List LogEntry

/-- Whether no error was recorded. -/
def Translation.isOk {σ : Type} (t : Translation σ) : Bool := t.shader.isValid

/-- Translates `shader` with a backend in state `s`. -/
def Shader.translate {σ : Type} (shader : Shader) (b : Backend σ) (settings : TranslatorSettings) (s : σ) :
    Translation σ :=
  let r := shader.walked b settings s
  let (state, objections, artifact) := b.complete r.session.view r.state
  let closed := r.session.recordObjections objections
  let view := closed.view
  let final :=
    closed.note (.translated shader.stage shader.words.size view.listing.lineCount view.errors.length)
  { shader :=
      { shader with
        vertexBindings := view.vertexBindings
        textureBindings := view.textureBindings
        errors := view.errors
        artifact := artifact
        disassembly := view.listing.text
        colorTargets := view.colorTargets
        isValid := view.errors.isEmpty
        isTranslated := true }
    state := state
    log := final.log }

end ShaderMicrocode
