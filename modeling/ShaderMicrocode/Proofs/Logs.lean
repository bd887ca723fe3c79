import ShaderMicrocode.Proofs.Steps
/-!
# Logs

Every act adds its own entries to the log. Whatever the backend does, the log has the texts of the errors, the lines of
the disassembly when they are traced, and the control flow instructions that are begun, each in order.
-/
namespace ShaderMicrocode

/-! Entries by their text. -/

namespace LogEntry

/-- What follows `mark` in the text of an entry that begins with it. -/
def after? (mark : String) (entry : LogEntry) : Option String :=
  if mark.toList <+: entry.text.toList then some (String.ofList (entry.text.toList.drop mark.toList.length)) else none

def line? : LogEntry → Option String
  | line l => some l
  | _ => none

def recorded? : LogEntry → Option Diagnostic
  | recorded d => some d
  | _ => none

def controlFlow? : LogEntry → Option (UInt32 × ControlFlow.Opcode)
  | controlFlow k op => some (k, op)
  | _ => none

/-- How the text of an entry begins. -/
private def head : LogEntry → String
  | strideMismatch _ => "WARN V"
  | recorded _ => "WARN S"
  | gathered .. | stopped _ | translated .. => "DEBUG "
  | controlFlow .. => "TRACE "
  | line _ => "DISASM"

private theorem exists_text_eq (entry : LogEntry) : ∃ rest, entry.text = entry.head ++ rest := by
  cases entry with
  | strideMismatch m =>
    have htext : (strideMismatch m).text = "WARN" ++ " " ++ ("Vertex fetch constant " ++ decimal m.slot ++
        " read with stride " ++ decimal m.first ++ " and " ++ decimal m.other) := rfl
    have hsplit : "WARN" ++ " " ++ "Vertex fetch constant " = "WARN V" ++ "ertex fetch constant " := by decide
    rw [htext]
    simp only [← String.append_assoc, hsplit]
    simp only [String.append_assoc]
    exact ⟨_, rfl⟩
  | gathered v a t => exact ⟨_, rfl⟩
  | recorded d =>
    have htext : (recorded d).text = "WARN" ++ " " ++ ("Shader translation error: " ++ d.text) := rfl
    have hsplit : "WARN" ++ " " ++ "Shader translation error: " = "WARN S" ++ "hader translation error: " := by decide
    rw [htext, ← String.append_assoc, hsplit, String.append_assoc]
    exact ⟨_, rfl⟩
  | controlFlow k op => exact ⟨_, rfl⟩
  | line l =>
    have htext : (line l).text = "DISASM" ++ " " ++ l := rfl
    exact ⟨_, htext.trans String.append_assoc⟩
  | stopped k => exact ⟨_, rfl⟩
  | translated stage d l e => exact ⟨_, rfl⟩

private theorem length_head (entry : LogEntry) : entry.head.toList.length = 6 := by
  cases entry <;> simp only [head] <;> decide

private theorem after?_of_text_eq {mark rest : String} {entry : LogEntry} (h : entry.text = mark ++ rest) :
    entry.after? mark = some rest := by
  rw [after?, h, String.toList_append, if_pos (List.prefix_append _ _), List.drop_left, String.ofList_toList]

private theorem after?_of_head_ne {mark head rest : String} {entry : LogEntry} (hmark : mark = head ++ rest)
    (hlength : head.toList.length = 6) (hne : entry.head ≠ head) : entry.after? mark = none := by
  obtain ⟨tail, htext⟩ := entry.exists_text_eq
  rw [after?, hmark, htext, String.toList_append, String.toList_append, if_neg]
  rintro ⟨behind, h⟩
  rw [List.append_assoc] at h
  have hhead := List.append_inj_left h (hlength.trans entry.length_head.symm)
  exact hne (String.toList_inj.mp hhead.symm)

theorem after?_line (entry : LogEntry) : entry.after? "DISASM " = entry.line? := by
  have hmark : "DISASM " = "DISASM" ++ " " := by decide
  have hother (h : entry.head ≠ "DISASM") : entry.after? "DISASM " = none := after?_of_head_ne hmark (by decide) h
  cases entry with
  | line l => exact after?_of_text_eq rfl
  | _ => exact hother (by simp [head])

theorem after?_recorded (entry : LogEntry) :
    entry.after? "WARN Shader translation error: " = entry.recorded?.map Diagnostic.text := by
  have hhead : "WARN Shader translation error: " = "WARN S" ++ "hader translation error: " := by decide
  have hother (h : entry.head ≠ "WARN S") : entry.after? "WARN Shader translation error: " = none :=
    after?_of_head_ne hhead (by decide) h
  cases entry with
  | recorded d =>
    have htext : (recorded d).text = "WARN" ++ " " ++ ("Shader translation error: " ++ d.text) := rfl
    have hmark : "WARN" ++ " " ++ "Shader translation error: " = "WARN Shader translation error: " := by decide
    refine after?_of_text_eq ?_
    rw [htext, ← String.append_assoc, hmark]
  | _ => exact hother (by simp [head])

/-- What the log tells of control flow instruction `k`. -/
def controlFlowText (k : UInt32) (op : ControlFlow.Opcode) : String := decimal k ++ ": " ++ op.name

theorem after?_controlFlow (entry : LogEntry) :
    entry.after? "TRACE cf " = entry.controlFlow?.map fun (k, op) => controlFlowText k op := by
  have hhead : "TRACE cf " = "TRACE " ++ "cf " := by decide
  have hother (h : entry.head ≠ "TRACE ") : entry.after? "TRACE cf " = none :=
    after?_of_head_ne hhead (by decide) h
  cases entry with
  | controlFlow k op =>
    have htext : (controlFlow k op).text = "TRACE" ++ " " ++ ("cf " ++ decimal k ++ ": " ++ op.name) := rfl
    have hmark : "TRACE" ++ " " ++ "cf " = "TRACE cf " := by decide
    refine (after?_of_text_eq ?_ : _ = some (controlFlowText k op))
    rw [htext, controlFlowText]
    simp only [← String.append_assoc, hmark]
  | _ => exact hother (by simp [head])

end LogEntry

/-! What is added to the log. -/

namespace Session

theorem log_print (s : Session) (line : String) :
    (s.print line).log = s.log ++ if s.view.settings.traceDisassembly then [.line line] else [] := by
  rw [print]
  split
  · exact log_note _ _
  · exact (List.append_nil _).symm

theorem log_record (s : Session) (d : Diagnostic) : (s.record d).log = s.log ++ [.recorded d] := s.log_note _

/-- The session after an answer of the backend to an error. -/
def heed (s : Session) (v : Verdict) : Session :=
  if v = .abort then { s with view.isAborted := true } else s

private theorem log_heed (s : Session) (v : Verdict) : (s.heed v).log = s.log := by
  cases v <;> rfl

private theorem log_markColorTarget (s : Session) (e : Event) : (s.markColorTarget e).log = s.log := by
  rw [markColorTarget]
  cases e.colorTarget? <;> rfl

theorem log_recordObjections (s : Session) (os : List Objection) :
    (s.recordObjections os).log = s.log ++ os.map fun o => .recorded (.raised o) := by
  induction os generalizing s with
  | nil => exact (List.append_nil _).symm
  | cons o os ih =>
    show ((s.record (.raised o)).recordObjections os).log = _
    rw [ih, log_record, List.append_assoc, List.map_cons, List.singleton_append]

/-- The log has the errors and, when lines are traced, the lines, in order. -/
structure IsLogged (s : Session) : Prop where
  lines : s.view.settings.traceDisassembly = true → s.log.filterMap LogEntry.line? = s.view.listing.lines
  errors : s.log.filterMap LogEntry.recorded? = s.view.errors

private theorem IsLogged.note {s : Session} (h : s.IsLogged) {entry : LogEntry} (hline : entry.line? = none)
    (hrecorded : entry.recorded? = none) : (s.note entry).IsLogged where
  lines htrace := by
    rw [log_note, List.filterMap_append, h.lines htrace]
    simp [hline]
  errors := by
    rw [log_note, List.filterMap_append, h.errors]
    simp [hrecorded]

theorem IsLogged.recordObjections {s : Session} (h : s.IsLogged) (os : List Objection) :
    (s.recordObjections os).IsLogged where
  lines htrace := by
    rw [view_recordObjections] at htrace ⊢
    rw [log_recordObjections, List.filterMap_append, h.lines htrace]
    simp [List.filterMap_map, Function.comp_def, LogEntry.line?]
  errors := by
    rw [view_recordObjections, log_recordObjections, List.filterMap_append, h.errors]
    simp [List.filterMap_map, Function.comp_def, LogEntry.recorded?]

end Session

def Act.announced? : Act → Option (UInt32 × ControlFlow.Opcode)
  | announce k op => some (k, op)
  | _ => none

namespace Run

variable {σ : Type} (b : Backend σ)

/-- What an act adds to the log. -/
def entries (r : Run σ) : Act → List LogEntry
  | .announce k op => [.controlFlow k op]
  | .print line => if r.session.view.settings.traceDisassembly then [.line line] else []
  | .report d => [.recorded d]
  | .present e => (r.answer b e).2.map fun o => .recorded (.raised o)

theorem log_act (r : Run σ) (a : Act) : (r.act b a).session.log = r.session.log ++ r.entries b a := by
  cases a with
  | announce k op => exact r.session.log_note _
  | print line => exact r.session.log_print line
  | report d => exact ((r.session.record d).log_heed _).trans (r.session.log_record d)
  | present e =>
    exact (Session.log_recordObjections _ _).trans (congrArg (· ++ _) (r.session.log_markColorTarget e))

theorem isLogged_act {r : Run σ} (h : r.session.IsLogged) (a : Act) : (r.act b a).session.IsLogged where
  lines htrace := by
    have hsettings : r.session.view.settings.traceDisassembly = true :=
      (congrArg (fun v => v.settings.traceDisassembly) (initial_act b r a)).symm.trans htrace
    rw [log_act, List.filterMap_append, h.lines hsettings, lines_act]
    cases a <;> simp [entries, hsettings, LogEntry.line?, Act.line?, List.filterMap_map, Function.comp_def]
  errors := by
    rw [log_act, List.filterMap_append, h.errors]
    cases a with
    | announce k op => simp [entries, act, LogEntry.recorded?]
    | print line =>
      simp only [act, entries, Session.view_print]
      split <;> simp [LogEntry.recorded?]
    | report d => simp [entries, act, LogEntry.recorded?, view_report]
    | present e => simp [entries, act, LogEntry.recorded?, view_present, List.filterMap_map, Function.comp_def]

theorem keeps_isLogged : Keeps b b fun r' r => r' = r ∧ r.session.IsLogged where
  isAborted h := congrArg isAborted h.1
  act := by
    rintro _ r ⟨rfl, h⟩ a
    exact ⟨rfl, isLogged_act b h a⟩
  stop := by
    rintro _ r ⟨rfl, h⟩ k
    exact ⟨rfl, h.note rfl rfl⟩

/-! Control flow instructions. -/

private theorem announced_act (r : Run σ) (a : Act) :
    (r.act b a).session.log.filterMap LogEntry.controlFlow? =
      r.session.log.filterMap LogEntry.controlFlow? ++ a.announced?.toList := by
  rw [log_act, List.filterMap_append]
  cases a with
  | announce k op => rfl
  | print line =>
    simp only [entries]
    split <;> rfl
  | report d => rfl
  | present e => simp [entries, Act.announced?, LogEntry.controlFlow?, List.filterMap_map, Function.comp_def]

theorem announced_acts (r : Run σ) (as : List Act) :
    (r.acts b as).session.log.filterMap LogEntry.controlFlow? =
      r.session.log.filterMap LogEntry.controlFlow? ++ as.filterMap Act.announced? := by
  induction as generalizing r with
  | nil => exact (List.append_nil _).symm
  | cons a as ih =>
    rw [acts_cons, ih, announced_act]
    cases h : a.announced? <;> simp [h]

/-- How many of the steps are begun before the run is aborted. -/
def begun (b : Backend σ) (r : Run σ) : List Step → Nat
  | [] => 0
  | s :: rest => if r.isAborted then 0 else begun b (r.step b s) rest + 1

theorem begun_le (r : Run σ) (ss : List Step) : r.begun b ss ≤ ss.length := by
  induction ss generalizing r with
  | nil => exact Nat.le_refl 0
  | cons s ss ih =>
    rw [begun]
    split
    · exact Nat.zero_le _
    · exact Nat.succ_le_succ (ih _)

theorem begun_of_not_isAborted (r : Run σ) (k : Nat) (ss : List Step) (h : (r.steps b k ss).isAborted = false) :
    r.begun b ss = ss.length := by
  induction ss generalizing r k with
  | nil => rfl
  | cons s ss ih =>
    by_cases ha : r.isAborted
    · rw [steps_cons_of_isAborted b ha] at h
      exact absurd (ha.symm.trans h) nofun
    · rw [steps_cons_of_not_isAborted b ha] at h
      rw [begun, if_neg ha, ih _ (k + 1) h, List.length_cons]

end Run

namespace Schedule

open ControlFlow

private theorem announced_of_isOfWord {a : Act} (h : a.IsOfWord) : a.announced? = none := by
  cases a with
  | announce k op => exact h.elim
  | _ => rfl

/-- Of the acts of a step, however far its block is walked, one announces the instruction. -/
theorem announced_step (stage : Stage) (words : Array UInt32) (labels : List UInt32) (last : Option Fetch.VertexWord)
    (index : UInt32) (w : Word) (n : Nat) :
    ((step stage words labels last index w).actsUpTo n).filterMap Act.announced? = [(index, w.opcode)] := by
  have hlabels : (labelActs labels index).filterMap Act.announced? = [] := by
    rw [labelActs]
    split <;> rfl
  have hown : [.announce index w.opcode, .print (ownLine stage index w), ownAct stage index w].filterMap
      Act.announced? = [(index, w.opcode)] := by
    rw [ownAct]
    cases w.resolve index stage <;> rfl
  have hwords : ((wordActs stage words last w).take n).flatten.filterMap Act.announced? = [] := by
    rw [List.filterMap_eq_nil_iff]
    intro a ha
    obtain ⟨word, hword, ha⟩ := List.mem_flatten.mp ha
    exact announced_of_isOfWord (isOfWord_wordActs stage words last w word (List.mem_of_mem_take hword) a ha)
  have hend : (endActs stage index w).filterMap Act.announced? = [] := by
    rw [endActs]
    split <;> rfl
  rw [step_eq, Step.actsUpTo]
  simp only [List.filterMap_append, hlabels, hown, hwords, hend, List.nil_append, List.append_nil]

private theorem length_walk (stage : Stage) (words : Array UInt32) (labels : List UInt32)
    (last : Option Fetch.VertexWord)
    (k : Nat) (ws : List Word) : (walk stage words labels last k ws).length = ws.length := by
  induction ws generalizing last k with
  | nil => rfl
  | cons w ws ih => exact congrArg (· + 1) (ih _ _)

end Schedule

namespace Run

open ControlFlow

variable {σ : Type} (b : Backend σ)

/-- The walk logs the instructions that it begins, with their indices in order. -/
theorem announced_steps (stage : Stage) (words : Array UInt32) (labels : List UInt32)
    (last : Option Fetch.VertexWord) (k : Nat) (ws : List Word) (r : Run σ) :
    let ss := Schedule.walk stage words labels last k ws
    (r.steps b k ss).session.log.filterMap LogEntry.controlFlow? =
      r.session.log.filterMap LogEntry.controlFlow? ++
        (ws.take (r.begun b ss)).mapIdx fun j w => (UInt32.ofNat (k + j), w.opcode) := by
  induction ws generalizing last k r with
  | nil => simp [Schedule.walk, steps, begun]
  | cons w ws ih =>
    simp only [Schedule.walk]
    by_cases ha : r.isAborted
    · rw [steps_cons_of_isAborted b ha, begun, if_pos ha, Session.log_note, List.filterMap_append]
      rfl
    · obtain ⟨n, hn, -⟩ := step_walks b (Schedule.step stage words labels last (UInt32.ofNat k) w)
        (Bool.not_eq_true _ ▸ ha)
      rw [steps_cons_of_not_isAborted b ha, begun, if_neg ha, ih, hn, announced_acts, Schedule.announced_step,
        List.take_succ_cons, List.mapIdx_cons, List.append_assoc]
      simp [Nat.add_assoc, Nat.add_comm 1]

end Run

namespace Shader

variable {σ : Type} (shader : Shader) (b : Backend σ) (settings : TranslatorSettings) (s : σ)

/-- How many control flow instructions a translation begins before it is aborted. -/
def processed : Nat := ((shader.opened b settings s).acts b shader.plan.opening).begun b shader.plan.steps

private theorem log_translate :
    (shader.translate b settings s).log = ((shader.closed b settings s).note
      (.translated shader.stage shader.words.size (shader.closed b settings s).view.listing.lineCount
        (shader.closed b settings s).view.errors.length)).log := rfl

private theorem isLogged_opened : (shader.opened b settings s).session.IsLogged where
  lines _ := by simp [opened, Session.start, Session.log, LogEntry.line?, List.filterMap_map, Function.comp_def]
  errors := by
    simp [opened, Session.start, Session.log, LogEntry.recorded?, List.filterMap_map, Function.comp_def, cleared]

private theorem isLogged_closed : (shader.closed b settings s).IsLogged := by
  have hwalked := (Run.keeps_isLogged b).schedule ⟨rfl, shader.isLogged_opened b settings s⟩ shader.plan
  rw [← walked_eq] at hwalked
  exact hwalked.2.recordObjections _

private theorem isLogged_translate :
    ((shader.closed b settings s).note (.translated shader.stage shader.words.size
      (shader.closed b settings s).view.listing.lineCount (shader.closed b settings s).view.errors.length)).IsLogged :=
  (shader.isLogged_closed b settings s).note rfl rfl

theorem lines_log_translate (htrace : settings.traceDisassembly = true) :
    (shader.translate b settings s).log.filterMap LogEntry.line? =
      (shader.closed b settings s).view.listing.lines := by
  have hsettings : (shader.closed b settings s).view.settings = settings := by
    rw [closed, Session.view_recordObjections]
    exact congrArg View.settings (shader.initial_walked b settings s)
  refine (shader.isLogged_translate b settings s).lines ?_
  rw [Session.view_note, hsettings, htrace]

theorem errors_log_translate :
    (shader.translate b settings s).log.filterMap LogEntry.recorded? = (shader.translate b settings s).shader.errors :=
  (shader.isLogged_translate b settings s).errors

theorem controlFlow_log_translate :
    (shader.translate b settings s).log.filterMap LogEntry.controlFlow? =
      ((Program.read shader.words).instructions.take (shader.processed b settings s)).mapIdx fun k w =>
        (UInt32.ofNat k, w.opcode) := by
  have hopened : (shader.opened b settings s).session.log.filterMap LogEntry.controlFlow? = [] := by
    simp [opened, Session.start, Session.log, LogEntry.controlFlow?, List.filterMap_map, Function.comp_def]
  have hopening : shader.plan.opening.filterMap Act.announced? = [] := by
    simp [Schedule.opening, Act.announced?]
  have hobjections (os : List Objection) :
      (os.map fun o => LogEntry.recorded (.raised o)).filterMap LogEntry.controlFlow? = [] := by
    simp [List.filterMap_map, Function.comp_def, LogEntry.controlFlow?]
  have hsteps := Run.announced_steps b shader.stage shader.words (Program.read shader.words).labels none 0
    (Program.read shader.words).instructions ((shader.opened b settings s).acts b shader.plan.opening)
  have hlast (dwords lines errors : Nat) :
      [LogEntry.translated shader.stage dwords lines errors].filterMap LogEntry.controlFlow? = [] := rfl
  rw [Run.announced_acts, hopened, hopening] at hsteps
  simp only [Nat.zero_add] at hsteps
  rw [log_translate, Session.log_note, closed, Session.log_recordObjections, walked_eq, Run.schedule_eq,
    List.filterMap_append, List.filterMap_append, hobjections, hlast, List.append_nil, List.append_nil]
  exact hsteps

private theorem length_steps_plan : shader.plan.steps.length = (Program.read shader.words).length :=
  Schedule.length_walk _ _ _ _ _ _

theorem processed_le : shader.processed b settings s ≤ (Program.read shader.words).length := by
  rw [← length_steps_plan]
  exact Run.begun_le b _ _

theorem processed_of_neverAborts (h : shader.NeverAborts b settings s) :
    shader.processed b settings s = (Program.read shader.words).length := by
  rw [neverAborts_iff, walked_eq, Run.schedule_eq] at h
  rw [← length_steps_plan]
  exact Run.begun_of_not_isAborted b _ 0 _ h

end Shader

end ShaderMicrocode
