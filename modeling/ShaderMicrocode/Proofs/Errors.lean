import ShaderMicrocode.Proofs.Cut
/-!
# Recorded errors

Errors and aborts. An aborted translation has recorded an error. A backend that raises none of its own leaves
exactly the errors that the performed acts report, and settings that go on after errors leave the decision to stop
to the backend.
-/
namespace ShaderMicrocode

namespace Backend

variable {σ : Type} (b : Backend σ)

/-- The backend raises no errors of its own. -/
def IsQuiet : Prop := (∀ e view s, (b.handle e view s).2 = []) ∧ ∀ view s, (b.complete view s).2.1 = []

def NeverStops : Prop := ∀ d view s, (b.onError d view s).2 = .proceed

theorem isQuiet_silent : silent.IsQuiet := ⟨fun _ _ _ => rfl, fun _ _ => rfl⟩

theorem isQuiet_scripted {script : Script} (h : script.objections = []) : (scripted script).IsQuiet := by
  have hnone (hook : Hook) (earlier : Nat) : script.objectionsAt hook earlier = [] := by
    rw [Script.objectionsAt, h]
    rfl
  exact ⟨fun e _ _ => hnone e.hook _, fun _ _ => hnone .complete _⟩

theorem neverStops_silent : silent.NeverStops := fun _ _ _ => rfl

end Backend

namespace Run

variable {σ : Type} {b : Backend σ}

def AbortedByError (r : Run σ) : Prop := r.isAborted = true → r.session.view.errors ≠ []

private theorem abortedByError_act {r : Run σ} (a : Act) (h : r.AbortedByError) : (r.act b a).AbortedByError := by
  unfold AbortedByError isAborted at h ⊢
  cases a with
  | announce k op => exact h
  | print line => simpa [act, Session.view_print] using h
  | report d => simp [act, view_report]
  | present e =>
    simp only [act, view_present, Bool.or_eq_true, Bool.and_eq_true, Bool.not_eq_true']
    rintro (ha | ⟨ho, -⟩) hnil
    · exact h ha (List.append_eq_nil_iff.mp hnil).1
    · simp [List.map_eq_nil_iff.mp (List.append_eq_nil_iff.mp hnil).2] at ho

private theorem errors_act_of_not_objected (r : Run (Traced σ)) (a : Act)
    (h : (r.act b.traced a).state.hasObjected = false) :
    r.state.hasObjected = false ∧
      (r.act b.traced a).session.view.errors = r.session.view.errors ++ a.diagnostic?.toList := by
  cases a with
  | announce k op => exact ⟨h, by simp [act, Act.diagnostic?]⟩
  | print line => exact ⟨h, by simp [act, Act.diagnostic?, Session.view_print]⟩
  | report d => exact ⟨h, by simp [act, Act.diagnostic?, view_report]⟩
  | present e =>
    simp only [act, state_present, answer, Backend.traced, Traced.hasObjected_hear, Traced.hasObjected_push,
      Bool.or_eq_false_iff, Bool.not_eq_false', List.isEmpty_iff] at h
    exact ⟨h.1, by simp [act, Act.diagnostic?, view_present, answer, Backend.traced, h.2]⟩

theorem errors_acts_of_not_objected (r : Run (Traced σ)) (as : List Act)
    (h : (r.acts b.traced as).state.hasObjected = false) :
    r.state.hasObjected = false ∧
      (r.acts b.traced as).session.view.errors = r.session.view.errors ++ as.filterMap Act.diagnostic? := by
  induction as generalizing r with
  | nil => exact ⟨h, by simp⟩
  | cons a as ih =>
    obtain ⟨hact, hrest⟩ := ih _ h
    obtain ⟨hr, hfirst⟩ := errors_act_of_not_objected r a hact
    refine ⟨hr, ?_⟩
    rw [acts_cons, hrest, hfirst]
    cases hd : a.diagnostic? <;> simp [hd]

private theorem hasObjected_act (hb : b.IsQuiet) (r : Run (Traced σ)) (a : Act) :
    (r.act b.traced a).state.hasObjected = r.state.hasObjected := by
  cases a with
  | announce k op => rfl
  | print line => rfl
  | report d => rfl
  | present e => simp [act, state_present, answer, Backend.traced, hb.1]

theorem hasObjected_acts (hb : b.IsQuiet) (r : Run (Traced σ)) (as : List Act) :
    (r.acts b.traced as).state.hasObjected = r.state.hasObjected := by
  refine acts_preserve (P := fun r' => r'.state.hasObjected = r.state.hasObjected) b.traced (fun r' a h => ?_) as rfl
  rw [hasObjected_act hb, h]

/-! Errors that no backend can raise. -/

private theorem filter_errors_act {p : Diagnostic → Bool} (hp : ∀ o, p (.raised o) = false) (r : Run σ) (a : Act) :
    (r.act b a).session.view.errors.filter p = r.session.view.errors.filter p ++ a.diagnostic?.toList.filter p := by
  cases a with
  | announce k op => simp [act, Act.diagnostic?]
  | print line => simp [act, Act.diagnostic?, Session.view_print]
  | report d => simp [act, Act.diagnostic?, view_report]
  | present e => simp [act, Act.diagnostic?, view_present, hp]

theorem filter_errors_acts {p : Diagnostic → Bool} (hp : ∀ o, p (.raised o) = false) (r : Run σ) (as : List Act) :
    (r.acts b as).session.view.errors.filter p =
      r.session.view.errors.filter p ++ (as.filterMap Act.diagnostic?).filter p := by
  induction as generalizing r with
  | nil => simp
  | cons a as ih =>
    rw [acts_cons, ih, filter_errors_act hp, List.append_assoc, ← List.filter_append]
    cases hd : a.diagnostic? <;> simp [hd]

/-- Nothing but its settings or the backend itself aborts a run. -/
def AbortedOnDemand (r : Run (Traced σ)) : Prop :=
  r.isAborted = true → r.session.view.settings.errorPolicy = .abortOnError ∨ r.state.hasAskedToStop = true

private theorem abortedOnDemand_act {r : Run (Traced σ)} (a : Act) (h : r.AbortedOnDemand) :
    (r.act b.traced a).AbortedOnDemand := by
  unfold AbortedOnDemand isAborted at h ⊢
  cases a with
  | announce k op => exact h
  | print line => simpa [act, Session.view_print] using h
  | report d =>
    simp only [act, view_report, state_report, Backend.traced, Traced.hasAskedToStop_heed,
      Traced.hasAskedToStop_push, Bool.or_eq_true, beq_iff_eq]
    rintro ((ha | hp) | hv)
    · exact (h ha).imp id .inl
    · exact .inl hp
    · exact .inr (.inr hv)
  | present e =>
    simp only [act, view_present, state_present, answer, Backend.traced, Traced.hasAskedToStop_hear,
      Traced.hasAskedToStop_push, Bool.or_eq_true, Bool.and_eq_true, beq_iff_eq]
    rintro (ha | ⟨-, hp⟩)
    · exact h ha
    · exact .inl hp

private theorem hasAskedToStop_act (hb : b.NeverStops) (r : Run (Traced σ)) (a : Act) :
    (r.act b.traced a).state.hasAskedToStop = r.state.hasAskedToStop := by
  cases a with
  | announce k op => rfl
  | print line => rfl
  | report d => simp [act, state_report, Backend.traced, hb d]
  | present e => rfl

theorem hasAskedToStop_acts (hb : b.NeverStops) (r : Run (Traced σ)) (as : List Act) :
    (r.acts b.traced as).state.hasAskedToStop = r.state.hasAskedToStop := by
  refine acts_preserve (P := fun r' => r'.state.hasAskedToStop = r.state.hasAskedToStop) b.traced
    (fun r' a h => ?_) as rfl
  rw [hasAskedToStop_act hb, h]

end Run

namespace Shader

variable {σ : Type} {shader : Shader} {b : Backend σ} {settings : TranslatorSettings} {s : σ}

theorem errors_ne_nil_of_isAborted (h : (shader.walked b settings s).isAborted = true) :
    (shader.walked b settings s).session.view.errors ≠ [] := by
  obtain ⟨as, hp⟩ := shader.performs b settings s
  have hacts : ((shader.opened b settings s).acts b (shader.plan.opening ++ as)).AbortedByError :=
    Run.acts_preserve (P := Run.AbortedByError) b (fun _ a => Run.abortedByError_act a) _ fun ha => by
      simp [opened, Session.start, Run.isAborted] at ha
  unfold Run.AbortedByError at hacts
  rw [Run.isAborted, ← hp.view] at hacts
  exact hacts h

private theorem not_objects_iff :
    ¬shader.Objects b settings s ↔
      (shader.walked b.traced settings (.new s)).state.hasObjected = false ∧
        (b.complete (shader.walked b settings s).session.view (shader.walked b settings s).state).2.1 = [] := by
  have hwalked : (shader.walked b.traced settings (.new s)).untraced = shader.walked b settings s :=
    shader.untraced_walked b settings (.new s)
  rw [← hwalked, ← List.isEmpty_iff]
  unfold Objects translate
  simp [Backend.traced, Run.untraced]

theorem errors_translate_of_not_objects (h : ¬shader.Objects b settings s) :
    (shader.translate b settings s).shader.errors = (shader.walked b settings s).session.view.errors := by
  show (shader.closed b settings s).view.errors = _
  rw [closed, (not_objects_iff.mp h).2]
  rfl

theorem Performs.errors (hb : ¬shader.Objects b settings s) {as : List Act} (h : shader.Performs b settings s as) :
    (shader.translate b settings s).shader.errors = shader.plan.faults ++ as.filterMap Act.diagnostic? := by
  have hobjected := (not_objects_iff.mp hb).1
  rw [h.trace] at hobjected
  rw [errors_translate_of_not_objects hb, ← h.view_traced, (Run.errors_acts_of_not_objected _ _ hobjected).2,
    List.filterMap_append, Schedule.diagnostics_opening]
  rfl

theorem Performs.filter_errors {p : Diagnostic → Bool} (hp : ∀ o, p (.raised o) = false) {as : List Act}
    (h : shader.Performs b settings s as) :
    (shader.translate b settings s).shader.errors.filter p =
      (shader.plan.faults ++ as.filterMap Act.diagnostic?).filter p := by
  show (shader.closed b settings s).view.errors.filter p = _
  rw [closed, Session.view_recordObjections, h.view]
  simp only [List.filter_append, Run.filter_errors_acts hp, List.filterMap_append, Schedule.diagnostics_opening]
  simp [opened, Session.start, cleared, hp]

theorem not_objects_of_isQuiet (hb : b.IsQuiet) : ¬shader.Objects b settings s := by
  obtain ⟨as, h⟩ := shader.performs b settings s
  rw [not_objects_iff, h.trace, Run.hasObjected_acts hb]
  exact ⟨rfl, hb.2 _ _⟩

theorem neverAborts_of_not_asksToStop (hp : settings.errorPolicy = .proceed) (hs : ¬shader.AsksToStop b settings s) :
    shader.NeverAborts b settings s := by
  obtain ⟨as, h⟩ := shader.performs b settings s
  have hasked : shader.AsksToStop b settings s ↔
      (shader.walked b.traced settings (.new s)).state.hasAskedToStop = true :=
    Iff.rfl
  have hsettings : (shader.walked b settings s).session.view.settings = settings :=
    congrArg View.settings (shader.initial_walked b settings s)
  have hdemand : ((shader.opened b.traced settings (.new s)).acts b.traced
      (shader.plan.opening ++ as)).AbortedOnDemand :=
    Run.acts_preserve (P := Run.AbortedOnDemand) b.traced (fun _ a => Run.abortedOnDemand_act a) _ nofun
  rw [Run.AbortedOnDemand, Run.isAborted, h.view_traced, ← h.trace, hsettings, hp, ← hasked] at hdemand
  rw [neverAborts_iff, ← Bool.not_eq_true]
  intro ha
  rcases hdemand ha with hpolicy | hasked
  · cases hpolicy
  · exact hs hasked

theorem not_asksToStop_of_neverStops (hb : b.NeverStops) : ¬shader.AsksToStop b settings s := by
  obtain ⟨as, h⟩ := shader.performs b settings s
  show ¬(shader.walked b.traced settings (.new s)).state.hasAskedToStop = true
  rw [h.trace, Run.hasAskedToStop_acts hb]
  exact Bool.false_ne_true

/-- Nothing stops the translation by a silent backend that goes on after errors. -/
theorem neverAborts_silent (shader : Shader) (trace : Bool) : shader.NeverAborts .silent ⟨.proceed, trace⟩ () :=
  neverAborts_of_not_asksToStop rfl (not_asksToStop_of_neverStops Backend.neverStops_silent)

end Shader

end ShaderMicrocode
