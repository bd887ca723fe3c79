import ShaderMicrocode.Proofs.Acts
/-!
# Cuts of a schedule

A run performs the steps of its schedule whole and in order until it is aborted. Then it leaves the words that
remain of the open block, closes that block and stops. So all that a translation leaves behind is the effect of one
list of acts, and that list is a cut of the schedule.
-/
namespace ShaderMicrocode

def Listing.ofLines (ls : List String) : Listing := ⟨ls.reverse⟩

theorem Listing.lines_ofLines (ls : List String) : (ofLines ls).lines = ls := List.reverse_reverse ls

theorem Listing.ofLines_lines (l : Listing) : ofLines l.lines = l := congrArg mk (List.reverse_reverse l.reversed)

theorem Listing.ofLines_concat (ls : List String) (line : String) :
    ofLines (ls ++ [line]) = (ofLines ls).push line := by
  rw [ofLines, List.reverse_concat]
  rfl

namespace Step

def acts (s : Step) : List Act := s.opening ++ s.block.flatten ++ s.closing

/-- The acts of a step when only the first `n` words of its block are reached. -/
def actsUpTo (s : Step) (n : Nat) : List Act := s.opening ++ (s.block.take n).flatten ++ s.closing

theorem actsUpTo_of_length_le {s : Step} {n : Nat} (h : s.block.length ≤ n) : s.actsUpTo n = s.acts := by
  rw [actsUpTo, List.take_of_length_le h, acts]

end Step

namespace Schedule

/-- What may be performed of a list of steps; only an aborted run leaves some of it out. -/
inductive Cut (isAborted : Bool) : List Step → List Act → Prop
  | finished : Cut isAborted [] []
  | stopped (ss : List Step) (h : isAborted = true) : Cut isAborted ss []
  | within (s : Step) (ss : List Step) (n : Nat) (h : isAborted = true) : Cut isAborted (s :: ss) (s.actsUpTo n)
  | whole (s : Step) {ss : List Step} {as : List Act} : Cut isAborted ss as → Cut isAborted (s :: ss) (s.acts ++ as)

def opening (p : Schedule) : List Act := .present .start :: p.faults.map .report

theorem lines_opening (p : Schedule) : p.opening.filterMap Act.line? = [] := by
  simp [opening, Act.line?]

theorem events_opening (p : Schedule) : p.opening.filterMap Act.event? = [.start] := by
  simp [opening, Act.event?, List.filterMap_map, Function.comp_def]

theorem diagnostics_opening (p : Schedule) : p.opening.filterMap Act.diagnostic? = p.faults := by
  simp [opening, Act.diagnostic?, List.filterMap_cons, List.filterMap_map, Function.comp_def]

private theorem notices_opening (p : Schedule) :
    p.opening.filterMap Act.notice? = .event .start :: p.faults.map .error := by
  simp [opening, Act.notice?, List.filterMap_map, Function.comp_def]

theorem Cut.eq_of_not_aborted {ss : List Step} {as : List Act} (h : Cut false ss as) : as = ss.flatMap Step.acts := by
  induction ss generalizing as with
  | nil => cases h with
    | finished => rfl
    | stopped _ h => cases h
  | cons s ss ih => cases h with
    | stopped _ h => cases h
    | within _ _ _ h => cases h
    | whole _ h => rw [ih h, List.flatMap_cons]

/-- Nothing is added to the steps, and their order is kept. -/
theorem Cut.sublist {isAborted : Bool} {ss : List Step} {as : List Act} (h : Cut isAborted ss as) :
    as.Sublist (ss.flatMap Step.acts) := by
  induction h with
  | finished => exact .slnil
  | stopped ss _ => exact List.nil_sublist _
  | within s ss n _ =>
    have hblock : (s.block.take n).flatten.Sublist s.block.flatten := by
      conv => rhs; rw [← List.take_append_drop n s.block, List.flatten_append]
      exact List.sublist_append_left _ _
    rw [List.flatMap_cons]
    exact (((List.Sublist.refl s.opening).append hblock).append (List.Sublist.refl s.closing)).trans
      (List.sublist_append_left _ _)
  | whole s _ ih =>
    rw [List.flatMap_cons]
    exact (List.Sublist.refl s.acts).append ih

end Schedule

namespace Run

open Schedule

variable {σ : Type}

private theorem block_eq_acts (b : Backend σ) (r : Run σ) (ws : List (List Act)) :
    ∃ n, r.block b ws = r.acts b (ws.take n).flatten ∧ ((r.block b ws).isAborted = true ∨ n = ws.length) ∧
      ∀ m < n, (r.acts b (ws.take m).flatten).isAborted = false := by
  induction ws generalizing r with
  | nil => exact ⟨0, rfl, .inr rfl, nofun⟩
  | cons w ws ih =>
    by_cases h : r.isAborted
    · rw [block_cons_of_isAborted b h]
      exact ⟨0, rfl, .inl h, nofun⟩
    · rw [block_cons_of_not_isAborted b h]
      obtain ⟨n, hn, hend, hbegun⟩ := ih (r.acts b w)
      refine ⟨n + 1, ?_, hend.imp id (congrArg (· + 1)), fun m hm => ?_⟩
      · rw [hn, List.take_succ_cons, List.flatten_cons, acts_append]
      · cases m with
        | zero => exact Bool.not_eq_true _ ▸ h
        | succ m =>
          rw [List.take_succ_cons, List.flatten_cons, acts_append]
          exact hbegun m (Nat.lt_of_succ_lt_succ hm)

/-- A run that is not aborted walks the step `s` and the first `n` words of its block. It is not aborted when it begins
a word, and only an abort makes it leave the rest. -/
structure Walks (b : Backend σ) (r : Run σ) (s : Step) (n : Nat) : Prop where
  start : r.isAborted = false
  word : ∀ m < n, (r.acts b (s.opening ++ (s.block.take m).flatten)).isAborted = false
  rest : (r.acts b (s.actsUpTo n)).isAborted = true ∨ n = s.block.length

theorem step_walks (b : Backend σ) {r : Run σ} (s : Step) (h : r.isAborted = false) :
    ∃ n, r.step b s = r.acts b (s.actsUpTo n) ∧ r.Walks b s n := by
  obtain ⟨n, hn, hend, hbegun⟩ := block_eq_acts b (r.acts b s.opening) s.block
  have hstep : r.step b s = r.acts b (s.actsUpTo n) := by
    rw [step, hn, Step.actsUpTo, acts_append, acts_append]
  refine ⟨n, hstep, h, fun m hm => ?_, ?_⟩
  · rw [acts_append]
    exact hbegun m hm
  · rw [← hstep]
    exact hend.imp (isAborted_acts b s.closing) id

/-- Nothing but a line of the log comes of steps once the run is aborted. -/
private theorem steps_of_isAborted (b : Backend σ) {r : Run σ} (h : r.isAborted = true) (k : Nat) (ss : List Step) :
    (r.steps b k ss).session.view = r.session.view ∧ (r.steps b k ss).state = r.state := by
  cases ss with
  | nil => exact ⟨rfl, rfl⟩
  | cons s ss =>
    rw [steps_cons_of_isAborted b h]
    exact ⟨rfl, rfl⟩

/-- From `r` on, the acts `as` are performed of the steps `ss`. -/
inductive Takes (b : Backend σ) : Run σ → List Step → List Act → Prop
  | finished (r : Run σ) : Takes b r [] []
  | stopped {r : Run σ} (ss : List Step) (h : r.isAborted = true) : Takes b r ss []
  | step {r : Run σ} (s : Step) {ss : List Step} {as : List Act} (n : Nat) (h : r.Walks b s n)
      (hrest : Takes b (r.acts b (s.actsUpTo n)) ss as) : Takes b r (s :: ss) (s.actsUpTo n ++ as)

theorem steps_takes (b : Backend σ) (r : Run σ) (k : Nat) (ss : List Step) :
    ∃ as, Takes b r ss as ∧ (r.steps b k ss).session.view = (r.acts b as).session.view ∧
      (r.steps b k ss).state = (r.acts b as).state := by
  induction ss generalizing r k with
  | nil => exact ⟨[], .finished r, rfl, rfl⟩
  | cons s ss ih =>
    by_cases h : r.isAborted
    · exact ⟨[], .stopped _ h, steps_of_isAborted b h k (s :: ss)⟩
    · rw [steps_cons_of_not_isAborted b h]
      obtain ⟨n, hn, hwalks⟩ := step_walks b s (Bool.not_eq_true _ ▸ h)
      obtain ⟨as, htakes, hview, hstate⟩ := ih (r.step b s) (k + 1)
      rw [hn] at htakes
      refine ⟨s.actsUpTo n ++ as, .step s n hwalks htakes, ?_, ?_⟩
      · rw [hview, hn, acts_append]
      · rw [hstate, hn, acts_append]

/-- The opening acts come before the steps. -/
theorem schedule_eq (b : Backend σ) (r : Run σ) (p : Schedule) :
    r.schedule b p = (r.acts b p.opening).steps b 0 p.steps := by
  have hfaults (r : Run σ) (ds : List Diagnostic) : ds.foldl (report b) r = r.acts b (ds.map .report) := by
    rw [acts, List.foldl_map]
    rfl
  rw [schedule, hfaults, opening, acts_cons]
  rfl

theorem schedule_takes (b : Backend σ) (r : Run σ) (p : Schedule) :
    ∃ as, Takes b (r.acts b p.opening) p.steps as ∧
      (r.schedule b p).session.view = (r.acts b (p.opening ++ as)).session.view ∧
      (r.schedule b p).state = (r.acts b (p.opening ++ as)).state := by
  obtain ⟨as, htakes⟩ := steps_takes b (r.acts b p.opening) 0 p.steps
  refine ⟨as, ?_⟩
  rw [schedule_eq, acts_append]
  exact htakes

namespace Takes

variable {b : Backend σ} {r : Run σ} {ss : List Step} {as : List Act}

theorem eq_nil_of_isAborted (h : Takes b r ss as) (ha : r.isAborted = true) : as = [] := by
  cases h with
  | finished => rfl
  | stopped => rfl
  | step s n h => exact absurd (ha.symm.trans h.start) nofun

theorem cut (h : Takes b r ss as) : Cut (r.acts b as).isAborted ss as := by
  induction h with
  | finished => exact .finished
  | stopped ss h => exact .stopped ss h
  | step s n h hrest ih =>
    rw [acts_append]
    rcases h.rest with ha | rfl
    · rw [hrest.eq_nil_of_isAborted ha, List.append_nil]
      exact .within s _ n ha
    · have hwhole : s.actsUpTo s.block.length = s.acts := Step.actsUpTo_of_length_le (Nat.le_refl _)
      rw [hwhole] at ih ⊢
      exact .whole s ih

end Takes

end Run

namespace Shader

variable {σ : Type} (shader : Shader) (b : Backend σ) (settings : TranslatorSettings) (s : σ)

def plan : Schedule := Schedule.plan shader.stage shader.words

/-- The run before anything is printed, reported or shown. -/
def opened : Run σ := ⟨Session.start shader.cleared settings shader.plan.bindings, b.reset s⟩

theorem walked_eq : shader.walked b settings s = (shader.opened b settings s).schedule b shader.plan := rfl

/-- `as` is what the translation performs of the steps of its plan. -/
structure Performs (as : List Act) : Prop where
  cut : Schedule.Cut (shader.walked b settings s).isAborted shader.plan.steps as
  view : (shader.walked b settings s).session.view =
    ((shader.opened b settings s).acts b (shader.plan.opening ++ as)).session.view
  trace : (shader.walked b.traced settings (.new s)).state =
    ((shader.opened b.traced settings (.new s)).acts b.traced (shader.plan.opening ++ as)).state

private theorem session_walked_new :
    (shader.walked b.traced settings (.new s)).session = (shader.walked b settings s).session :=
  shader.session_walked_traced b settings (.new s)

theorem requests_eq :
    shader.requests b settings s =
      (shader.walked b.traced settings (.new s)).state.requests ++
        [.call (.complete (shader.walked b settings s).session.view)] := by
  rw [← session_walked_new]
  exact (Traced.requests_hear _ _).trans (Traced.requests_push _ _ _)

theorem performs_takes :
    ∃ as, shader.Performs b settings s as ∧
      Run.Takes b.traced ((shader.opened b.traced settings (.new s)).acts b.traced shader.plan.opening)
        shader.plan.steps as := by
  obtain ⟨as, htakes, hview, hstate⟩ :=
    (shader.opened b.traced settings (.new s)).schedule_takes b.traced shader.plan
  rw [← walked_eq] at hview hstate
  have hcut := htakes.cut
  rw [← Run.acts_append, Run.isAborted, ← hview, session_walked_new] at hcut
  refine ⟨as, ⟨hcut, ?_, hstate⟩, htakes⟩
  rw [← session_walked_new, hview, ← Run.untraced_session, Run.untraced_acts]
  rfl

theorem performs : ∃ as, shader.Performs b settings s as :=
  (shader.performs_takes b settings s).imp fun _ h => h.1

theorem seen_opened :
    (shader.opened b.traced settings (.new s)).Seen (shader.opened b settings s).session.view := by
  refine ⟨rfl, fun c hc => ?_⟩
  simp [opened, Backend.traced] at hc

theorem seen_walked :
    (shader.walked b.traced settings (.new s)).Seen (shader.opened b settings s).session.view := by
  obtain ⟨as, -, hview, hstate⟩ :=
    (shader.opened b.traced settings (.new s)).schedule_takes b.traced shader.plan
  rw [← walked_eq] at hview hstate
  have hacts := Run.seen_acts b (shader.plan.opening ++ as) (shader.seen_opened b settings s)
  unfold Run.Seen Run.isAborted at hacts ⊢
  rwa [hview, hstate]

theorem seen_of_mem_requests {c : Call} (hc : .call c ∈ shader.requests b settings s) :
    c.view.initial = (shader.opened b settings s).session.view ∧
      (c.view.isAborted = true → (shader.walked b settings s).isAborted = true) := by
  have hseen := shader.seen_walked b settings s
  rw [Run.Seen, ← Run.untraced_isAborted, untraced_walked, session_walked_new] at hseen
  rw [requests_eq, List.mem_append, List.mem_singleton, Request.call.injEq] at hc
  rcases hc with hc | rfl
  · exact hseen.2 c hc
  · exact ⟨hseen.1, id⟩

theorem initial_walked :
    (shader.walked b settings s).session.view.initial = (shader.opened b settings s).session.view := by
  rw [← session_walked_new]
  exact (shader.seen_walked b settings s).1

theorem neverAborts_iff : shader.NeverAborts b settings s ↔ (shader.walked b settings s).isAborted = false := by
  constructor
  · intro h
    refine h (.complete (shader.walked b settings s).session.view) ?_
    rw [requests_eq]
    exact List.mem_append_right _ List.mem_cons_self
  · intro h c hc
    rw [← Bool.not_eq_true] at h ⊢
    exact fun ha => h ((shader.seen_of_mem_requests b settings s hc).2 ha)

def closed : Session :=
  (shader.walked b settings s).session.recordObjections
    (b.complete (shader.walked b settings s).session.view (shader.walked b settings s).state).2.1

theorem vertexBindings_translate :
    (shader.translate b settings s).shader.vertexBindings = shader.plan.bindings.vertex := by
  show (shader.closed b settings s).view.vertexBindings = _
  rw [closed, Session.view_recordObjections]
  exact congrArg View.vertexBindings (shader.initial_walked b settings s)

theorem textureBindings_translate :
    (shader.translate b settings s).shader.textureBindings = shader.plan.bindings.texture := by
  show (shader.closed b settings s).view.textureBindings = _
  rw [closed, Session.view_recordObjections]
  exact congrArg View.textureBindings (shader.initial_walked b settings s)

variable {shader b settings s} {as : List Act}

theorem Performs.view_traced (h : shader.Performs b settings s as) :
    ((shader.opened b.traced settings (.new s)).acts b.traced (shader.plan.opening ++ as)).session.view =
      (shader.walked b settings s).session.view := by
  rw [h.view, ← Run.untraced_session, Run.untraced_acts]
  rfl

theorem Performs.eq_of_neverAborts (h : shader.Performs b settings s as) (hn : shader.NeverAborts b settings s) :
    as = shader.plan.steps.flatMap Step.acts := by
  have hcut := h.cut
  rw [(shader.neverAborts_iff b settings s).mp hn] at hcut
  exact hcut.eq_of_not_aborted

theorem Performs.notices (h : shader.Performs b settings s as) :
    shader.notices b settings s =
      .reset :: .event .start :: shader.plan.faults.map .error ++ as.filterMap Act.notice? ++ [.complete] := by
  rw [Shader.notices, requests_eq, List.map_append, h.trace, Run.notices_acts, List.filterMap_append,
    Schedule.notices_opening]
  simp [opened, Backend.traced, Request.notice, Call.notice]

theorem Performs.disassembly (h : shader.Performs b settings s as) :
    (shader.translate b settings s).shader.disassembly = (Listing.ofLines (as.filterMap Act.line?)).text := by
  have hlines : (shader.walked b settings s).session.view.listing.lines = as.filterMap Act.line? := by
    rw [h.view, Run.lines_acts, List.filterMap_append, Schedule.lines_opening]
    rfl
  show (shader.closed b settings s).view.listing.text = _
  rw [closed, Session.view_recordObjections, Listing.text, Listing.text, Listing.lines_ofLines, ← hlines]

theorem Performs.colorTargets (h : shader.Performs b settings s as) :
    (shader.translate b settings s).shader.colorTargets =
      (as.filterMap Act.event?).foldl ColorTargets.afterEvent .none := by
  show (shader.closed b settings s).view.colorTargets = _
  rw [closed, Session.view_recordObjections]
  show (shader.walked b settings s).session.view.colorTargets = _
  rw [h.view, Run.colorTargets_acts, List.filterMap_append, Schedule.events_opening]
  rfl

end Shader

end ShaderMicrocode
