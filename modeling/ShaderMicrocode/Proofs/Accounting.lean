import ShaderMicrocode.Proofs.Defects
import ShaderMicrocode.Proofs.Errors
import ShaderMicrocode.Proofs.Targets
import ShaderMicrocode.Proofs.TextureBindings
/-!
# The account of errors

An error on a shader was either raised by the backend in one of its hooks or found by the translation itself. What was
found is what the error hooks were told, each error once and as soon as it was recorded.
-/
namespace ShaderMicrocode

open ControlFlow

/-- `zs` runs through `xs` and through `ys`, each of them in its own order. -/
inductive Interleaves {α : Type} : List α → List α → List α → Prop
  | nil : Interleaves [] [] []
  | left {xs ys zs : List α} (x : α) (h : Interleaves xs ys zs) : Interleaves (x :: xs) ys (x :: zs)
  | right {xs ys zs : List α} (y : α) (h : Interleaves xs ys zs) : Interleaves xs (y :: ys) (y :: zs)

namespace Interleaves

variable {α : Type} {xs ys zs : List α}

private theorem append_left (h : Interleaves xs ys zs) (before : List α) :
    Interleaves (before ++ xs) ys (before ++ zs) := by
  induction before with
  | nil => exact h
  | cons x before ih => exact .left x ih

private theorem append_right (h : Interleaves xs ys zs) (before : List α) :
    Interleaves xs (before ++ ys) (before ++ zs) := by
  induction before with
  | nil => exact h
  | cons y before ih => exact .right y ih

end Interleaves

/-! Exchanges. -/

/-- A call of a hook, with the view on entry and what the backend answered. -/
inductive Exchange where
  | event (e : Event) (view : View) (raised : List Objection)
  | error (hook : ErrorHook) (d : Diagnostic) (view : View) (verdict : Verdict)
  | complete (view : View) (raised : List Objection)
deriving DecidableEq, Inhabited

namespace Exchange

def view : Exchange → View
  | event _ view _ => view
  | error _ _ view _ => view
  | complete view _ => view

/-- The error that the backend is told of. -/
def told? : Exchange → Option Diagnostic
  | error _ d _ _ => some d
  | _ => none

/-- The errors that the backend raises. -/
def raised : Exchange → List Objection
  | event _ _ raised => raised
  | error .. => []
  | complete _ raised => raised

/-- The errors that are recorded for the call and in the course of it. -/
def recorded (x : Exchange) : List Diagnostic := x.told?.toList ++ x.raised.map .raised

end Exchange

private theorem interleaves_recorded (xs : List Exchange) :
    Interleaves ((xs.flatMap Exchange.raised).map .raised) (xs.filterMap Exchange.told?)
      (xs.flatMap Exchange.recorded) := by
  induction xs with
  | nil => exact .nil
  | cons x xs ih =>
    have htold : (x :: xs).filterMap Exchange.told? = x.told?.toList ++ xs.filterMap Exchange.told? := by
      cases h : x.told? <;> simp [h]
    rw [List.flatMap_cons, List.flatMap_cons, List.map_append, htold, Exchange.recorded, List.append_assoc]
    exact (ih.append_left _).append_right _

/-- `errors` is what was recorded in the exchanges, and each of them saw what was recorded before it. -/
inductive Accounted : List Exchange → List Diagnostic → Prop
  | nil : Accounted [] []
  | concat {xs : List Exchange} {errors : List Diagnostic} (x : Exchange) (h : Accounted xs errors)
      (hview : x.view.errors = errors ++ x.told?.toList) : Accounted (xs ++ [x]) (errors ++ x.recorded)

private theorem Accounted.eq_flatMap {xs : List Exchange} {errors : List Diagnostic} (h : Accounted xs errors) :
    errors = xs.flatMap Exchange.recorded := by
  induction h with
  | nil => rfl
  | concat x h hview ih => rw [List.flatMap_append, ← ih, List.flatMap_singleton]

private theorem Accounted.errors_view {xs : List Exchange} {errors : List Diagnostic} (h : Accounted xs errors)
    {before after : List Exchange} {x : Exchange} (hx : xs = before ++ x :: after) :
    x.view.errors = before.flatMap Exchange.recorded ++ x.told?.toList := by
  induction h generalizing after with
  | nil => simp at hx
  | concat y h hview ih =>
    rcases List.eq_nil_or_concat after with rfl | ⟨after, z, rfl⟩
    · obtain ⟨rfl, hlast⟩ := List.append_inj' hx rfl
      cases hlast
      rw [hview, ← h.eq_flatMap]
    · rw [List.concat_eq_append, ← List.cons_append, ← List.append_assoc] at hx
      exact ih (List.append_inj' hx rfl).1

/-- The state of a backend and its exchanges since the last reset, the latest first. -/
structure Conversation (σ : Type) where
  reversed : List Exchange
  inner : σ

namespace Conversation

variable {σ : Type}

def new (s : σ) : Conversation σ := ⟨[], s⟩

def exchanges (c : Conversation σ) : List Exchange := c.reversed.reverse

def push (c : Conversation σ) (x : Exchange) (s : σ) : Conversation σ := ⟨x :: c.reversed, s⟩

@[simp] theorem exchanges_push (c : Conversation σ) (x : Exchange) (s : σ) :
    (c.push x s).exchanges = c.exchanges ++ [x] := by
  simp [exchanges, push]

end Conversation

/-- Keeps every exchange with `b`, which is told of errors through `hooks`. -/
def Backend.conversing {σ : Type} (b : Backend σ) (hooks : ErrorHooks σ) : Backend (Conversation σ) :=
  withErrorHooks
    { reset := fun c => ⟨[], b.reset c.inner⟩
      handle := fun e view c =>
        (c.push (.event e view (b.handle e view c.inner).2) (b.handle e view c.inner).1, (b.handle e view c.inner).2)
      complete := fun view c =>
        (c.push (.complete view (b.complete view c.inner).2.1) (b.complete view c.inner).1,
          (b.complete view c.inner).2) }
    fun hook d view c =>
      (c.push (.error hook d view (hooks hook d view c.inner).2) (hooks hook d view c.inner).1,
        (hooks hook d view c.inner).2)

theorem Backend.simulates_conversing {σ : Type} (b : Backend σ) (hooks : ErrorHooks σ) :
    (b.conversing hooks).Simulates (b.withErrorHooks hooks) Conversation.inner :=
  ⟨fun _ => rfl, fun _ _ _ => rfl, fun _ _ _ => rfl, fun _ _ => rfl⟩

namespace Run

variable {σ : Type} (b : Backend σ) (hooks : Backend.ErrorHooks σ)

def IsAccounted (r : Run (Conversation σ)) : Prop := Accounted r.state.exchanges r.session.view.errors

theorem isAccounted_act {r : Run (Conversation σ)} (a : Act) (h : r.IsAccounted) :
    (r.act (b.conversing hooks) a).IsAccounted := by
  unfold IsAccounted at h ⊢
  cases a with
  | announce k op => exact h
  | print line => simpa [act, Session.view_print] using h
  | report d =>
    have hnext := h.concat (.error d.hook d (r.session.record d).view
      (hooks d.hook d (r.session.record d).view r.state.inner).2) rfl
    simpa [act, view_report, state_report, Backend.conversing, Backend.withErrorHooks, Exchange.recorded,
      Exchange.told?, Exchange.raised] using hnext
  | present e =>
    have hview : (r.session.markColorTarget e).view.errors = r.session.view.errors ++ [] := by
      simp [Session.view_markColorTarget]
    have hnext := h.concat (.event e (r.session.markColorTarget e).view
      (b.handle e (r.session.markColorTarget e).view r.state.inner).2) hview
    simpa [act, view_present, state_present, answer, Backend.conversing, Backend.withErrorHooks, Exchange.recorded,
      Exchange.told?, Exchange.raised] using hnext

/-- Each error went to the hook for its kind. -/
def IsRouted (r : Run (Conversation σ)) : Prop :=
  ∀ hook d view verdict, .error hook d view verdict ∈ r.state.exchanges → hook = d.hook

theorem isRouted_act {r : Run (Conversation σ)} (a : Act) (h : r.IsRouted) :
    (r.act (b.conversing hooks) a).IsRouted := by
  unfold IsRouted at h ⊢
  intro hook d view verdict hx
  cases a with
  | announce k op => exact h hook d view verdict hx
  | print line => exact h hook d view verdict hx
  | report d' =>
    simp only [act, state_report, Backend.conversing, Backend.withErrorHooks, Conversation.exchanges_push,
      List.mem_append, List.mem_singleton, Exchange.error.injEq] at hx
    rcases hx with hx | ⟨rfl, rfl, -, -⟩
    · exact h hook d view verdict hx
    · rfl
  | present e =>
    simp only [act, state_present, answer, Backend.conversing, Backend.withErrorHooks, Conversation.exchanges_push,
      List.mem_append, List.mem_singleton, reduceCtorEq, or_false] at hx
    exact h hook d view verdict hx

private theorem told_act (r : Run (Conversation σ)) (a : Act) :
    (r.act (b.conversing hooks) a).state.exchanges.filterMap Exchange.told? =
      r.state.exchanges.filterMap Exchange.told? ++ a.diagnostic?.toList := by
  cases a with
  | announce k op => simp [act, Act.diagnostic?]
  | print line => simp [act, Act.diagnostic?]
  | report d =>
    simp [act, Act.diagnostic?, state_report, Backend.conversing, Backend.withErrorHooks, Exchange.told?]
  | present e =>
    simp [act, Act.diagnostic?, state_present, answer, Backend.conversing, Backend.withErrorHooks, Exchange.told?]

theorem told_acts (r : Run (Conversation σ)) (as : List Act) :
    (r.acts (b.conversing hooks) as).state.exchanges.filterMap Exchange.told? =
      r.state.exchanges.filterMap Exchange.told? ++ as.filterMap Act.diagnostic? := by
  induction as generalizing r with
  | nil => simp
  | cons a as ih =>
    rw [acts_cons, ih, told_act]
    cases h : a.diagnostic? <;> simp [h]

end Run

/-! What is found. -/

/-- Found by the translation, and not raised by a backend. -/
def Diagnostic.isFound : Diagnostic → Bool
  | raised _ => false
  | _ => true

/-- What is wrong with a program as a whole: a partial pair, fetches that conflict, and `targets` beyond its end. -/
def Program.faults (words : Array UInt32) (targets : List UInt32) (p : Program) : List Diagnostic :=
  (p.truncatedAt.map fun offset => .undecodable (.truncatedControlFlow offset)).toList
    ++ conflictsAmong ((p.visits words).filterMap Visit.sample?)
    ++ targets.map fun target => .targetPastEnd target p.length

namespace Shader

variable (shader : Shader)

theorem faults_plan :
    let p := Program.read shader.words
    shader.plan.faults = p.faults shader.words p.labelsPastEnd := by
  intro p
  have hsample : ∀ v : Visit, ¬v.isFetch = true → v.sample? = none := fun v hv => if_neg fun h => hv h.1
  show Schedule.programFaults p (.gather (p.fetches shader.words)) = _
  rw [Schedule.programFaults, Bindings.conflicts_gather fun _ => Program.isFetch_of_mem_fetches,
    Program.filterMap_fetches hsample]
  rfl

/-- What is found on the walk: the defects of the program. -/
private theorem diagnostics_plan :
    (shader.plan.steps.flatMap Step.acts).filterMap Act.diagnostic? =
      ((Program.read shader.words).defects shader.stage shader.words).map .undecodable :=
  Schedule.diagnostics_walk _ _ _ none 0 _

/-- What can be known before the walk. -/
theorem cases_of_mem_faults {d : Diagnostic} (hd : d ∈ shader.plan.faults) :
    (∃ offset, d = .undecodable (.truncatedControlFlow offset)) ∨
      (∃ slot first other, d = .textureConflict slot first other) ∨
      ∃ target length, d = .targetPastEnd target length := by
  rw [faults_plan] at hd
  rcases List.mem_append.mp hd with hd | hd
  · rcases List.mem_append.mp hd with hd | hd
    · obtain ⟨offset, -, rfl⟩ := Option.map_eq_some_iff.mp (Option.mem_toList.mp hd)
      exact .inl ⟨offset, rfl⟩
    · obtain ⟨first, x, rfl⟩ := eq_of_mem_conflictsAmong hd
      exact .inr (.inl ⟨x.1, first.2, x.2, rfl⟩)
  · obtain ⟨target, -, rfl⟩ := List.mem_map.mp hd
    exact .inr (.inr ⟨target, _, rfl⟩)

private theorem isFound_of_mem_faults {d : Diagnostic} (hd : d ∈ shader.plan.faults) : d.isFound = true := by
  rcases shader.cases_of_mem_faults hd with ⟨offset, rfl⟩ | ⟨slot, first, other, rfl⟩ | ⟨target, length, rfl⟩ <;> rfl

theorem undecodable_of_cut {isAborted : Bool} {as : List Act} (h : Schedule.Cut isAborted shader.plan.steps as)
    {d : Diagnostic} (hd : d ∈ as.filterMap Act.diagnostic?) : ∃ e, d = .undecodable e := by
  obtain ⟨a, ha, had⟩ := List.mem_filterMap.mp hd
  have hplan := List.mem_filterMap.mpr ⟨a, h.sublist.subset ha, had⟩
  rw [diagnostics_plan] at hplan
  obtain ⟨e, -, rfl⟩ := List.mem_map.mp hplan
  exact ⟨e, rfl⟩

/-- Errors of a sort that neither the walk nor the backend records are those known before the walk. -/
theorem Performs.filter_faults {σ : Type} {shader : Shader} {b : Backend σ} {settings : TranslatorSettings} {s : σ}
    {p : Diagnostic → Bool} (hraised : ∀ o, p (.raised o) = false) (hwalked : ∀ e, p (.undecodable e) = false)
    {as : List Act} (h : shader.Performs b settings s as) :
    (shader.translate b settings s).shader.errors.filter p = shader.plan.faults.filter p := by
  have hwalk : (as.filterMap Act.diagnostic?).filter p = [] := by
    rw [List.filter_eq_nil_iff]
    intro d hd
    obtain ⟨e, rfl⟩ := shader.undecodable_of_cut h.cut hd
    rw [hwalked]
    exact Bool.false_ne_true
  rw [h.filter_errors hraised, List.filter_append, hwalk, List.append_nil]

theorem isFound_of_cut {isAborted : Bool} {as : List Act} (h : Schedule.Cut isAborted shader.plan.steps as)
    {d : Diagnostic} (hd : d ∈ shader.plan.faults ++ as.filterMap Act.diagnostic?) : d.isFound = true := by
  rcases List.mem_append.mp hd with hd | hd
  · exact shader.isFound_of_mem_faults hd
  · obtain ⟨e, rfl⟩ := shader.undecodable_of_cut h hd
    rfl

end Shader

/-! The translation. -/

namespace Shader

variable {σ : Type} (shader : Shader) (b : Backend σ) (hooks : Backend.ErrorHooks σ) (settings : TranslatorSettings)
  (s : σ)

/-- Every exchange with `b` after its reset. -/
def exchanges : List Exchange := (shader.translate (b.conversing hooks) settings (.new s)).state.exchanges

private theorem walked_conversing :
    let r := shader.walked (b.conversing hooks) settings (.new s)
    r.IsAccounted ∧ r.IsRouted ∧ ∃ as, Schedule.Cut r.isAborted shader.plan.steps as ∧
      r.state.exchanges.filterMap Exchange.told? = shader.plan.faults ++ as.filterMap Act.diagnostic? := by
  intro r
  let opened := shader.opened (b.conversing hooks) settings (.new s)
  obtain ⟨as, htakes, hview, hstate⟩ := opened.schedule_takes (b.conversing hooks) shader.plan
  rw [← walked_eq] at hview hstate
  have hcut := htakes.cut
  rw [← Run.acts_append, Run.isAborted, ← hview] at hcut
  have haccounted : (opened.acts (b.conversing hooks) (shader.plan.opening ++ as)).IsAccounted :=
    Run.acts_preserve (P := Run.IsAccounted) _ (fun _ a => Run.isAccounted_act b hooks a) _ .nil
  have hopened : opened.IsRouted := fun _ _ _ _ h => absurd h List.not_mem_nil
  have hrouted : (opened.acts (b.conversing hooks) (shader.plan.opening ++ as)).IsRouted :=
    Run.acts_preserve (P := Run.IsRouted) _ (fun _ a => Run.isRouted_act b hooks a) _ hopened
  unfold Run.IsAccounted at haccounted ⊢
  unfold Run.IsRouted at hrouted ⊢
  rw [← hview, ← hstate] at haccounted
  rw [← hstate] at hrouted
  refine ⟨haccounted, hrouted, as, hcut, ?_⟩
  rw [hstate, Run.told_acts, List.filterMap_append, Schedule.diagnostics_opening]
  rfl

/-- What the backend is asked last. -/
def completion : Exchange :=
  let r := shader.walked (b.conversing hooks) settings (.new s)
  .complete r.session.view (b.complete r.session.view r.state.inner).2.1

private theorem exchanges_eq :
    shader.exchanges b hooks settings s =
      (shader.walked (b.conversing hooks) settings (.new s)).state.exchanges ++
        [shader.completion b hooks settings s] :=
  Conversation.exchanges_push ..

theorem accounted_exchanges :
    Accounted (shader.exchanges b hooks settings s)
      (shader.translate (b.withErrorHooks hooks) settings s).shader.errors := by
  have hsame : (shader.translate (b.conversing hooks) settings (.new s)).shader =
      (shader.translate (b.withErrorHooks hooks) settings s).shader :=
    (translate_of_simulates (b.simulates_conversing hooks) shader settings (.new s)).1
  have herrors : (shader.translate (b.conversing hooks) settings (.new s)).shader.errors =
      (shader.walked (b.conversing hooks) settings (.new s)).session.view.errors ++
        (shader.completion b hooks settings s).recorded :=
    congrArg View.errors (Session.view_recordObjections _ _)
  rw [exchanges_eq, ← hsame, herrors]
  exact (shader.walked_conversing b hooks settings s).1.concat _ (List.append_nil _).symm

theorem isRouted_exchanges {hook : ErrorHook} {d : Diagnostic} {view : View} {verdict : Verdict}
    (h : .error hook d view verdict ∈ shader.exchanges b hooks settings s) : hook = d.hook := by
  rw [exchanges_eq, List.mem_append, List.mem_singleton] at h
  rcases h with h | h
  · exact (shader.walked_conversing b hooks settings s).2.1 hook d view verdict h
  · cases h

theorem told_exchanges :
    ∃ as, Schedule.Cut (shader.walked (b.withErrorHooks hooks) settings s).isAborted shader.plan.steps as ∧
      (shader.exchanges b hooks settings s).filterMap Exchange.told? =
        shader.plan.faults ++ as.filterMap Act.diagnostic? := by
  obtain ⟨as, hcut, htold⟩ := (shader.walked_conversing b hooks settings s).2.2
  have hsame := map_walked (b.simulates_conversing hooks) shader settings (.new s)
  refine ⟨as, ?_, ?_⟩
  · rwa [← Run.isAborted_map (f := Conversation.inner), hsame] at hcut
  · rw [exchanges_eq, List.filterMap_append, htold]
    exact List.append_nil _

theorem hook_eq_unimplemented_iff (d : Diagnostic) : d.hook = .unimplemented ↔ d.kind = .unimplementedInstruction := by
  unfold Diagnostic.hook
  cases d.kind <;> simp

/-- The errors of a translation are those that the backend raised and those that it was told of. It saw each error that
it was told of at the end of the list and through the hook for its kind, and it was told of none that it raised. What a
translation that is never aborted tells are the faults of the program and then the defects on its walk. -/
theorem errors_accounted (shader : Shader) (b : Backend σ) (hooks : Backend.ErrorHooks σ)
    (settings : TranslatorSettings) (s : σ) :
    let p := Program.read shader.words
    let full := b.withErrorHooks hooks
    let xs := shader.exchanges b hooks settings s
    let errors := (shader.translate full settings s).shader.errors
    Interleaves ((xs.flatMap Exchange.raised).map .raised) (xs.filterMap Exchange.told?) errors ∧
      errors = xs.flatMap Exchange.recorded ∧
      (∀ before x after, xs = before ++ x :: after →
        x.view.errors = before.flatMap Exchange.recorded ++ x.told?.toList) ∧
      (∀ hook d view verdict, .error hook d view verdict ∈ xs →
        (hook = .unimplemented ↔ d.kind = .unimplementedInstruction) ∧ ∀ o, d ≠ .raised o) ∧
      (shader.NeverAborts full settings s → ∃ targets, p.ListsPastEnd shader.stage targets ∧
        xs.filterMap Exchange.told? =
          p.faults shader.words targets ++ (p.defects shader.stage shader.words).map .undecodable) := by
  intro p full xs errors
  have haccounted : Accounted xs errors := shader.accounted_exchanges b hooks settings s
  obtain ⟨as, hcut, htold⟩ := shader.told_exchanges b hooks settings s
  refine ⟨?_, haccounted.eq_flatMap, fun before x after hx => haccounted.errors_view hx, ?_, fun hn => ?_⟩
  · rw [haccounted.eq_flatMap]
    exact interleaves_recorded xs
  · intro hook d view verdict hx
    have hfound : d.isFound = true := by
      refine shader.isFound_of_cut hcut ?_
      rw [← htold]
      exact List.mem_filterMap.mpr ⟨_, hx, rfl⟩
    refine ⟨?_, ?_⟩
    · rw [shader.isRouted_exchanges b hooks settings s hx, hook_eq_unimplemented_iff]
    · rintro o rfl
      cases hfound
  · refine ⟨p.labelsPastEnd, p.listsPastEnd_labelsPastEnd shader.stage, ?_⟩
    rw [(shader.neverAborts_iff full settings s).mp hn] at hcut
    have hall := hcut.eq_of_not_aborted
    subst hall
    rw [← shader.faults_plan, ← diagnostics_plan]
    exact htold

end Shader

end ShaderMicrocode
