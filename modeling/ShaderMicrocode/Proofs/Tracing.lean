import ShaderMicrocode.Proofs.Logs
/-!
# Tracing the disassembly

The lines of the disassembly go to the log when they are traced, and nothing else depends on it: a backend that does not
look at the setting is asked the same whether lines are traced or not.
-/
namespace ShaderMicrocode

/-! Views, calls and backends when lines are traced or not. -/

/-- The view with lines traced or not. -/
def View.tracing (on : Bool) (view : View) : View := { view with settings.traceDisassembly := on }

def Call.tracing (on : Bool) : Call → Call
  | event e view => event e (view.tracing on)
  | error d view => error d (view.tracing on)
  | complete view => complete (view.tracing on)

def Request.tracing (on : Bool) : Request → Request
  | reset => reset
  | call c => call (c.tracing on)

/-- The backend does the same whether lines are traced or not. -/
structure Backend.IgnoresTracing {σ : Type} (b : Backend σ) : Prop where
  handle : ∀ e on view s, b.handle e (view.tracing on) s = b.handle e view s
  onError : ∀ d on view s, b.onError d (view.tracing on) s = b.onError d view s
  complete : ∀ on view s, b.complete (view.tracing on) s = b.complete view s

namespace Session

/-- The session as it is when no lines are traced. -/
def quiet (s : Session) : Session where
  view := s.view.tracing false
  reversedLog := s.reversedLog.filter fun entry => entry.line?.isNone

private theorem log_quiet (s : Session) : s.quiet.log = s.log.filter fun entry => entry.line?.isNone :=
  (List.filter_reverse ..).symm

private theorem quiet_note (s : Session) {entry : LogEntry} (h : entry.line? = none) :
    (s.note entry).quiet = s.quiet.note entry := by
  simp [quiet, note, h]

private theorem quiet_print (s : Session) (line : String) : (s.print line).quiet = s.quiet.print line := by
  by_cases htrace : s.view.settings.traceDisassembly
  · simp [print, htrace, quiet, note, View.tracing, LogEntry.line?]
  · simp [print, htrace, quiet, View.tracing]

private theorem quiet_record (s : Session) (d : Diagnostic) : (s.record d).quiet = s.quiet.record d := by
  simp [record, note, quiet, View.tracing, LogEntry.line?]

private theorem quiet_recordObjections (s : Session) (os : List Objection) :
    (s.recordObjections os).quiet = s.quiet.recordObjections os := by
  induction os generalizing s with
  | nil => rfl
  | cons o os ih =>
    show ((s.record (.raised o)).recordObjections os).quiet = (s.quiet.record (.raised o)).recordObjections os
    rw [ih, quiet_record]

private theorem quiet_markColorTarget (s : Session) (e : Event) :
    (s.markColorTarget e).quiet = s.quiet.markColorTarget e := by
  rw [markColorTarget, markColorTarget]
  cases e.colorTarget? <;> rfl

private theorem quiet_heed (s : Session) (v : Verdict) : (s.heed v).quiet = s.quiet.heed v := by
  cases v <;> rfl

end Session

namespace Traced

variable {σ : Type}

/-- The trace as it is when no lines are traced. -/
def quiet (t : Traced σ) : Traced σ := { t with reversed := t.reversed.map (Request.tracing false) }

private theorem requests_quiet (t : Traced σ) : t.quiet.requests = t.requests.map (Request.tracing false) :=
  (List.map_reverse ..).symm

end Traced

namespace Run

variable {σ : Type} {b : Backend σ}

def quiet (r : Run (Traced σ)) : Run (Traced σ) := ⟨r.session.quiet, r.state.quiet⟩

private theorem quiet_report (hb : b.IgnoresTracing) (r : Run (Traced σ)) (d : Diagnostic) :
    (r.report b.traced d).quiet = r.quiet.report b.traced d := by
  have hreport (r : Run (Traced σ)) : r.report b.traced d =
      let answer := b.onError d (r.session.record d).view r.state.inner
      ⟨(r.session.record d).heed answer.2,
        (r.state.push (.call (.error d (r.session.record d).view)) answer.1).heed answer.2⟩ := rfl
  have hanswer : b.onError d (r.session.record d).quiet.view r.state.inner =
      b.onError d (r.session.record d).view r.state.inner := hb.onError d false _ _
  have hsession : r.quiet.session.record d = (r.session.record d).quiet := (r.session.quiet_record d).symm
  have hinner : r.quiet.state.inner = r.state.inner := rfl
  rw [hreport, hreport r.quiet, hsession, hinner, hanswer, quiet, Session.quiet_heed]
  rfl

private theorem quiet_present (hb : b.IgnoresTracing) (r : Run (Traced σ)) (e : Event) :
    (r.present b.traced e).quiet = r.quiet.present b.traced e := by
  have hpresent (r : Run (Traced σ)) : r.present b.traced e =
      let answer := b.handle e (r.session.markColorTarget e).view r.state.inner
      ⟨(r.session.markColorTarget e).recordObjections answer.2,
        (r.state.push (.call (.event e (r.session.markColorTarget e).view)) answer.1).hear answer.2⟩ := rfl
  have hanswer : b.handle e (r.session.markColorTarget e).quiet.view r.state.inner =
      b.handle e (r.session.markColorTarget e).view r.state.inner := hb.handle e false _ _
  have hsession : r.quiet.session.markColorTarget e = (r.session.markColorTarget e).quiet :=
    (r.session.quiet_markColorTarget e).symm
  have hinner : r.quiet.state.inner = r.state.inner := rfl
  rw [hpresent, hpresent r.quiet, hsession, hinner, hanswer, quiet, Session.quiet_recordObjections]
  rfl

theorem keeps_quiet (hb : b.IgnoresTracing) : Keeps b.traced b.traced fun r' r => r'.quiet = r where
  isAborted := by
    rintro r' r rfl
    rfl
  act := by
    rintro r' r rfl a
    cases a with
    | announce k op => exact congrArg (Run.mk · _) (r'.session.quiet_note rfl)
    | print line => exact congrArg (Run.mk · _) (r'.session.quiet_print line)
    | report d => exact quiet_report hb r' d
    | present e => exact quiet_present hb r' e
  stop := by
    rintro r' r rfl k
    exact congrArg (Run.mk · _) (r'.session.quiet_note rfl)

end Run

namespace Shader

variable {σ : Type} {b : Backend σ}

private theorem quiet_opened (shader : Shader) (b : Backend σ) (policy : ErrorPolicy) (trace : Bool) (s : σ) :
    (shader.opened b.traced ⟨policy, trace⟩ (.new s)).quiet = shader.opened b.traced ⟨policy, false⟩ (.new s) := by
  have hlog : ∀ entry ∈ (Session.start shader.cleared ⟨policy, trace⟩ shader.plan.bindings).reversedLog,
      entry.line?.isNone := by
    intro entry hentry
    simp only [Session.start, List.mem_cons, List.mem_reverse, List.mem_map] at hentry
    rcases hentry with rfl | ⟨m, -, rfl⟩ <;> rfl
  simp only [opened, Run.quiet, Session.quiet, List.filter_eq_self.mpr hlog]
  rfl

theorem quiet_walked (hb : b.IgnoresTracing) (shader : Shader) (policy : ErrorPolicy) (trace : Bool) (s : σ) :
    (shader.walked b.traced ⟨policy, trace⟩ (.new s)).quiet = shader.walked b.traced ⟨policy, false⟩ (.new s) := by
  rw [walked_eq, walked_eq]
  exact (Run.keeps_quiet hb).schedule (shader.quiet_opened b policy trace s) shader.plan

/-- With lines traced, a translation is the one without, but for the lines in the log and the setting in the views. -/
theorem quiet_translate (hb : b.IgnoresTracing) (shader : Shader) (policy : ErrorPolicy) (trace : Bool) (s : σ) :
    let t := shader.translate b.traced ⟨policy, trace⟩ (.new s)
    let silent := shader.translate b.traced ⟨policy, false⟩ (.new s)
    silent.shader = t.shader ∧ silent.state = t.state.quiet ∧
      silent.log = t.log.filter fun entry => entry.line?.isNone := by
  intro t silent
  let r := shader.walked b.traced ⟨policy, trace⟩ (.new s)
  have hwalked : r.quiet = shader.walked b.traced ⟨policy, false⟩ (.new s) := quiet_walked hb shader policy trace s
  have hcomplete (r : Run (Traced σ)) : b.traced.complete r.session.view r.state =
      let answer := b.complete r.session.view r.state.inner
      ((r.state.push (.call (.complete r.session.view)) answer.1).hear answer.2.1, answer.2) := rfl
  have hanswer : b.complete r.quiet.session.view r.quiet.state.inner = b.complete r.session.view r.state.inner :=
    hb.complete false _ _
  have hclosed (os : List Objection) :
      r.quiet.session.recordObjections os = (r.session.recordObjections os).quiet :=
    (r.session.quiet_recordObjections os).symm
  simp only [silent, t, translate, ← hwalked, hcomplete r.quiet, hanswer, hclosed]
  refine ⟨rfl, rfl, ?_⟩
  exact (congrArg Session.log (Session.quiet_note _ rfl).symm).trans (Session.log_quiet _)

theorem tracing_translate (hb : b.IgnoresTracing) (shader : Shader) (policy : ErrorPolicy) (s : σ) :
    let on := shader.translate b ⟨policy, true⟩ s
    let off := shader.translate b ⟨policy, false⟩ s
    off.shader = on.shader ∧ off.state = on.state ∧
      shader.requests b ⟨policy, false⟩ s = (shader.requests b ⟨policy, true⟩ s).map (Request.tracing false) ∧
      off.log = on.log.filter fun entry => entry.line?.isNone := by
  intro on off
  obtain ⟨hshader, hstate, hlog⟩ := quiet_translate hb shader policy true s
  obtain ⟨honShader, honLog, honState⟩ := shader.translate_traced b ⟨policy, true⟩ (.new s)
  obtain ⟨hoffShader, hoffLog, hoffState⟩ := shader.translate_traced b ⟨policy, false⟩ (.new s)
  refine ⟨?_, ?_, ?_, ?_⟩
  · exact hoffShader.symm.trans (hshader.trans honShader)
  · exact hoffState.symm.trans ((congrArg Traced.inner hstate).trans honState)
  · exact (congrArg Traced.requests hstate).trans (Traced.requests_quiet _)
  · exact hoffLog.symm.trans (hlog.trans (congrArg (List.filter _) honLog))

/-- Tracing shows in the log and nowhere else, and the log is faithful. With lines traced or not, a backend that does
not look at the setting gets the same verdict, shader and calls; the logs differ in the lines alone, which make up the
disassembly. Either log has the texts of all errors in order, and the indices and names of the control flow
instructions that are processed. -/
theorem log_faithful {b : Backend σ} (hb : b.IgnoresTracing) (shader : Shader) (policy : ErrorPolicy) (s : σ) :
    let on := shader.translate b ⟨policy, true⟩ s
    let off := shader.translate b ⟨policy, false⟩ s
    off.isOk = on.isOk ∧ off.shader = on.shader ∧ off.state = on.state ∧
      shader.requests b ⟨policy, false⟩ s = (shader.requests b ⟨policy, true⟩ s).map (Request.tracing false) ∧
      off.log = on.log.filter (fun entry => (entry.after? "DISASM ").isNone) ∧
      String.join ((on.log.filterMap (LogEntry.after? "DISASM ")).map (· ++ "\n")) = on.shader.disassembly ∧
      ∀ trace,
        let t := shader.translate b ⟨policy, trace⟩ s
        let p := Program.read shader.words
        let n := shader.processed b ⟨policy, trace⟩ s
        t.log.filterMap (LogEntry.after? "WARN Shader translation error: ") = t.shader.errors.map Diagnostic.text ∧
          t.log.filterMap (LogEntry.after? "TRACE cf ") =
            (p.instructions.take n).mapIdx (fun k w => decimal (UInt32.ofNat k) ++ ": " ++ w.opcode.name) ∧
          (n ≤ UInt32.size → t.log.filterMap (LogEntry.after? "TRACE cf ") =
            (p.instructions.take n).mapIdx (fun k w => k.repr ++ ": " ++ w.opcode.name)) ∧
          (t.log.filterMap (LogEntry.after? "TRACE cf ")).length = n ∧ n ≤ p.length ∧
          (shader.NeverAborts b ⟨policy, trace⟩ s → n = p.length) := by
  intro on off
  obtain ⟨hshader, hstate, hrequests, hlog⟩ := tracing_translate hb shader policy s
  have hline : LogEntry.after? "DISASM " = LogEntry.line? := funext LogEntry.after?_line
  refine ⟨congrArg Shader.isValid hshader, hshader, hstate, hrequests, ?_, ?_, ?_⟩
  · rw [hline]
    exact hlog
  · rw [hline, shader.lines_log_translate b _ s rfl]
    rfl
  · intro trace t p n
    have hle : n ≤ p.length := shader.processed_le b _ s
    have hrecorded : LogEntry.after? "WARN Shader translation error: " =
        fun entry => entry.recorded?.map Diagnostic.text := funext LogEntry.after?_recorded
    have hcontrolFlow : t.log.filterMap (LogEntry.after? "TRACE cf ") =
        (p.instructions.take n).mapIdx fun k w => LogEntry.controlFlowText (UInt32.ofNat k) w.opcode := by
      rw [funext LogEntry.after?_controlFlow, ← List.map_filterMap, controlFlow_log_translate]
      refine List.ext_getElem? fun k => ?_
      rw [List.getElem?_map, List.getElem?_mapIdx, List.getElem?_mapIdx, Option.map_map]
      rfl
    refine ⟨?_, hcontrolFlow, fun hsize => ?_, ?_, hle, shader.processed_of_neverAborts b _ s⟩
    · rw [hrecorded, ← List.map_filterMap, errors_log_translate]
    · rw [hcontrolFlow]
      refine List.ext_getElem (by simp) fun k hk _ => ?_
      have hindex : (UInt32.ofNat k).toNat = k := by
        rw [List.length_mapIdx, List.length_take] at hk
        exact UInt32.toNat_ofNat_of_lt' (by omega)
      rw [List.getElem_mapIdx, List.getElem_mapIdx, LogEntry.controlFlowText, decimal, hindex]
    · rw [hcontrolFlow, List.length_mapIdx, List.length_take]
      exact Nat.min_eq_left hle

theorem log_faithful_of_objection :
    let shader := new .pixel #[0x2001, 0xA0002000, 0]
    let b := Backend.scripted { objections := [⟨.execBegin, none, .general "unsupported"⟩] }
    let on := shader.translate b ⟨.proceed, true⟩ []
    let off := shader.translate b ⟨.proceed, false⟩ []
    let n := shader.processed b ⟨.proceed, true⟩ []
    on.shader.errors ≠ [] ∧ shader.NeverAborts b ⟨.proceed, true⟩ [] ∧ off.shader = on.shader ∧
      off.log = on.log.filter (fun entry => (entry.after? "DISASM ").isNone) ∧
      n = (Program.read shader.words).length ∧
      on.log.filterMap (LogEntry.after? "TRACE cf ") =
        ((Program.read shader.words).instructions.take n).mapIdx (fun k w => k.repr ++ ": " ++ w.opcode.name) := by
  intro shader b on off n
  have hb : b.IgnoresTracing := ⟨fun _ _ _ _ => rfl, fun _ _ _ _ => rfl, fun _ _ _ => rfl⟩
  have hnever : shader.NeverAborts b ⟨.proceed, true⟩ [] :=
    (shader.neverAborts_iff b ⟨.proceed, true⟩ []).mpr (by decide +kernel)
  obtain ⟨-, hshader, -, -, hlog, -, htrace⟩ := log_faithful hb shader .proceed []
  obtain ⟨-, -, hentries, -, -, hall⟩ := htrace true
  exact ⟨by decide +kernel, hnever, hshader, hlog, hall hnever, hentries (by decide +kernel)⟩

end Shader

end ShaderMicrocode
