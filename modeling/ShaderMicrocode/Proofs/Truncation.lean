import ShaderMicrocode.Proofs.Errors
import ShaderMicrocode.Proofs.Steps
/-!
# Truncation

Whatever a backend does and whatever the settings are, a translation is what a silent backend gets to see when
nothing stops the walk, or a beginning of it. An abort leaves out the rest; it changes nothing that came before.
-/
namespace ShaderMicrocode

open ControlFlow

/-! Render targets. -/

namespace ColorTargets

private theorem contains_mark (c : ColorTargets) (i j : Nat) :
    (c.mark i).contains j = true ↔ c.contains j = true ∨ j < 4 ∧ i = j := by
  unfold contains mark
  rw [Vector.getElem?_setIfInBounds]
  by_cases h : i = j
  · subst h
    by_cases hi : i < 4
    · simp [hi]
    · simp [hi]
  · simp [h]

theorem contains_afterEvents (es : List Event) (c : ColorTargets) (i : Nat) :
    (es.foldl afterEvent c).contains i = true ↔
      c.contains i = true ∨ i < 4 ∧ ∃ e ∈ es, e.colorTarget? = some i := by
  induction es generalizing c with
  | nil => simp
  | cons e es ih =>
    rw [List.foldl_cons, ih, afterEvent]
    cases h : e.colorTarget? with
    | none => simp [h]
    | some j => simp [h, contains_mark, or_assoc, and_or_left]

end ColorTargets

/-! Open blocks. -/

namespace Notice

def IsOfWord : Notice → Prop
  | error _ => True
  | event (.vertexFetch _) | event (.textureFetch _) | event (.alu _) => True
  | _ => False

def error? : Notice → Option Diagnostic
  | error d => some d
  | _ => none

end Notice

/-- The block of the exec `e` was begun in `ns`, and all that follows there belongs to its words. -/
def BlockIsOpen (e : Exec) (ns : List Notice) : Prop :=
  ∃ before body, ns = before ++ .event (.execBegin e) :: body ∧ ∀ n ∈ body, n.IsOfWord

private theorem Act.isOfWord_notice? {a : Act} {n : Notice} (ha : a.IsOfWord) (h : a.notice? = some n) :
    n.IsOfWord := by
  cases a with
  | announce k op => simp [notice?] at h
  | print line => simp [notice?] at h
  | report d =>
    simp only [notice?, Option.some.injEq] at h
    subst h
    trivial
  | present e =>
    simp only [notice?, Option.some.injEq] at h
    subst h
    cases e <;> trivial

namespace Schedule

/-- A cut is a beginning of the whole, and at most the end of the block that was open there. -/
theorem Cut.told {isAborted : Bool} {ss : List Step} {as : List Act} (h : Cut isAborted ss as)
    (hss : ∀ s ∈ ss, s.closing = [] ∨ ∃ e, Opens s e) :
    ∃ told closing, as = told ++ closing ∧ told <+: ss.flatMap Step.acts ∧
      (closing = [] ∨ ∃ e before body, closing = [.present (.execEnd e)] ∧
        told = before ++ .present (.execBegin e) :: body ∧ ∀ a ∈ body, a.IsOfWord) := by
  induction h with
  | finished => exact ⟨[], [], rfl, List.nil_prefix, .inl rfl⟩
  | stopped ss _ => exact ⟨[], [], rfl, List.nil_prefix, .inl rfl⟩
  | within s ss n _ =>
    have hbegins : s.opening ++ (s.block.take n).flatten <+: (s :: ss).flatMap Step.acts := by
      have hsplit : s.block.flatten = (s.block.take n).flatten ++ (s.block.drop n).flatten := by
        rw [← List.flatten_append, List.take_append_drop]
      refine ⟨(s.block.drop n).flatten ++ s.closing ++ ss.flatMap Step.acts, ?_⟩
      simp only [List.flatMap_cons, Step.acts, hsplit, List.append_assoc]
    refine ⟨s.opening ++ (s.block.take n).flatten, s.closing, rfl, hbegins, ?_⟩
    rcases hss s List.mem_cons_self with hnil | ⟨e, ⟨before, hopening⟩, hclosing, hbody⟩
    · exact .inl hnil
    · refine .inr ⟨e, before, (s.block.take n).flatten, hclosing, ?_, fun a ha => ?_⟩
      · rw [hopening, List.append_assoc, List.singleton_append]
      · obtain ⟨w, hw, haw⟩ := List.mem_flatten.mp ha
        exact hbody w (List.mem_of_mem_take hw) a haw
  | whole s _ ih =>
    obtain ⟨told, closing, rfl, hbegins, hclosing⟩ := ih fun t ht => hss t (List.mem_cons_of_mem _ ht)
    refine ⟨s.acts ++ told, closing, (List.append_assoc ..).symm, ?_, ?_⟩
    · rw [List.flatMap_cons]
      exact (List.prefix_append_right_inj _).mpr hbegins
    · refine hclosing.imp id ?_
      rintro ⟨e, before, body, hc, rfl, hb⟩
      exact ⟨e, s.acts ++ before, body, hc, (List.append_assoc ..).symm, hb⟩

end Schedule

namespace Shader

variable {σ : Type} {shader : Shader} {b : Backend σ} {settings : TranslatorSettings} {s : σ}

/-- The translation by a silent backend that nothing stops. -/
def reference (shader : Shader) (trace : Bool) : Translation Unit := shader.translate .silent ⟨.proceed, trace⟩ ()

def referenceNotices (shader : Shader) (trace : Bool) : List Notice := shader.notices .silent ⟨.proceed, trace⟩ ()

private theorem performs_reference (shader : Shader) (trace : Bool) :
    shader.Performs .silent ⟨.proceed, trace⟩ () (shader.plan.steps.flatMap Step.acts) := by
  obtain ⟨as, h⟩ := shader.performs .silent ⟨.proceed, trace⟩ ()
  rwa [← h.eq_of_neverAborts (shader.neverAborts_silent trace)]

theorem Performs.told {as : List Act} (h : shader.Performs b settings s as) :
    ∃ told closing, as = told ++ closing ∧ told <+: shader.plan.steps.flatMap Step.acts ∧
      (closing = [] ∨ ∃ e before body, closing = [.present (.execEnd e)] ∧
        told = before ++ .present (.execBegin e) :: body ∧ ∀ a ∈ body, a.IsOfWord) :=
  h.cut.told fun _ hs => Schedule.walk_opens _ _ _ _ _ _ _ hs

/-- The backend is told what the silent backend is told, or after an abort a beginning of it and then at most the end
of the open block and of the translation. -/
def TellsBeginning (told reference : List Notice) : Prop :=
  ∃ beginning, beginning <+: reference ∧
    (told = beginning ++ [.complete] ∨
      ∃ e, BlockIsOpen e beginning ∧ told = beginning ++ [.event (.execEnd e), .complete])

theorem tellsBeginning_of_performs {as : List Act} (h : shader.Performs b settings s as) (trace : Bool) :
    TellsBeginning (shader.notices b settings s) (shader.referenceNotices trace) := by
  obtain ⟨told, closing, rfl, hbegins, hclosing⟩ := h.told
  let opening : List Notice := .reset :: .event .start :: shader.plan.faults.map .error
  have href : shader.referenceNotices trace =
      opening ++ (shader.plan.steps.flatMap Step.acts).filterMap Act.notice? ++ [.complete] :=
    (shader.performs_reference trace).notices
  have htold : shader.notices b settings s =
      opening ++ (told.filterMap Act.notice? ++ closing.filterMap Act.notice?) ++ [.complete] := by
    rw [h.notices, List.filterMap_append]
  refine ⟨opening ++ told.filterMap Act.notice?, ?_, ?_⟩
  · rw [href]
    exact ((List.prefix_append_right_inj _).mpr (hbegins.filterMap _)).trans (List.prefix_append _ _)
  rw [htold]
  rcases hclosing with rfl | ⟨e, before, body, rfl, rfl, hbody⟩
  · exact .inl (by simp)
  · refine .inr ⟨e, ⟨opening ++ before.filterMap Act.notice?, body.filterMap Act.notice?, ?_, fun n hn => ?_⟩, ?_⟩
    · simp [Act.notice?]
    · obtain ⟨a, ha, hna⟩ := List.mem_filterMap.mp hn
      exact Act.isOfWord_notice? (hbody a ha) hna
    · simp [Act.notice?]

private theorem disassembly_of_performs {as : List Act} (h : shader.Performs b settings s as) (trace : Bool) :
    ∃ lines rest, (shader.translate b settings s).shader.disassembly = (Listing.ofLines lines).text ∧
      (shader.reference trace).shader.disassembly = (Listing.ofLines (lines ++ rest)).text := by
  obtain ⟨told, closing, rfl, ⟨rest, hrest⟩, hclosing⟩ := h.told
  have hsilent : closing.filterMap Act.line? = [] := by
    rcases hclosing with rfl | ⟨e, before, body, rfl, -⟩ <;> rfl
  refine ⟨told.filterMap Act.line?, rest.filterMap Act.line?, ?_, ?_⟩
  · rw [h.disassembly, List.filterMap_append, hsilent, List.append_nil]
  · rw [reference, (shader.performs_reference trace).disassembly, ← hrest, List.filterMap_append]

private theorem error_notice? (a : Act) : a.notice?.bind Notice.error? = a.diagnostic? := by
  cases a <;> rfl

private theorem errors_of_notices {as : List Act} (h : shader.Performs b settings s as) :
    (shader.notices b settings s).filterMap Notice.error? = shader.plan.faults ++ as.filterMap Act.diagnostic? := by
  rw [h.notices]
  simp [Notice.error?, List.filterMap_cons, List.filterMap_filterMap, error_notice?, List.filterMap_map,
    Function.comp_def]

/-- Errors of a sort that no backend raises are recorded as they are told. -/
theorem filter_errors_translate {p : Diagnostic → Bool} (hp : ∀ o, p (.raised o) = false) (shader : Shader)
    (b : Backend σ) (settings : TranslatorSettings) (s : σ) :
    (shader.translate b settings s).shader.errors.filter p =
      ((shader.notices b settings s).filterMap Notice.error?).filter p := by
  obtain ⟨as, h⟩ := shader.performs b settings s
  rw [h.filter_errors hp, errors_of_notices h]

private theorem errors_of_performs {as : List Act} (h : shader.Performs b settings s as) (trace : Bool) :
    (shader.notices b settings s).filterMap Notice.error? <+: (shader.reference trace).shader.errors := by
  have href : (shader.reference trace).shader.errors = _ :=
    (shader.performs_reference trace).errors (not_objects_of_isQuiet Backend.isQuiet_silent)
  obtain ⟨told, closing, rfl, hbegins, hclosing⟩ := h.told
  have hsilent : closing.filterMap Act.diagnostic? = [] := by
    rcases hclosing with rfl | ⟨e, before, body, rfl, -⟩ <;> rfl
  rw [errors_of_notices h, href, List.filterMap_append, hsilent, List.append_nil]
  exact (List.prefix_append_right_inj _).mpr (hbegins.filterMap _)

private theorem colorTargets_of_performs {as : List Act} (h : shader.Performs b settings s as) (trace : Bool) (i : Nat)
    (hi : (shader.translate b settings s).shader.colorTargets.contains i = true) :
    (shader.reference trace).shader.colorTargets.contains i = true := by
  have href : (shader.reference trace).shader.colorTargets = _ := (shader.performs_reference trace).colorTargets
  obtain ⟨told, closing, rfl, hbegins, hclosing⟩ := h.told
  have hsilent (c : ColorTargets) : (closing.filterMap Act.event?).foldl ColorTargets.afterEvent c = c := by
    rcases hclosing with rfl | ⟨e, before, body, rfl, -⟩ <;> rfl
  rw [h.colorTargets, List.filterMap_append, List.foldl_append, hsilent, ColorTargets.contains_afterEvents] at hi
  rw [href, ColorTargets.contains_afterEvents]
  refine hi.imp id (And.imp id ?_)
  rintro ⟨e, he, hcolor⟩
  exact ⟨e, (hbegins.filterMap _).subset he, hcolor⟩

/-- Against the same shader shown to a silent backend under settings that go on after errors, any backend under any
settings gets the same bindings and a beginning of everything else; all of it, unless the translation is aborted. -/
theorem translation_truncates_reference (shader : Shader) (b : Backend σ) (settings : TranslatorSettings) (s : σ)
    (trace : Bool) :
    let left := (shader.translate b settings s).shader
    let right := (shader.reference trace).shader
    let told := shader.notices b settings s
    left.vertexBindings = right.vertexBindings ∧ left.textureBindings = right.textureBindings ∧
      (∃ lines rest, left.disassembly = (Listing.ofLines lines).text ∧
        right.disassembly = (Listing.ofLines (lines ++ rest)).text) ∧
      told.filterMap Notice.error? <+: right.errors ∧
      (∀ i, left.colorTargets.contains i = true → right.colorTargets.contains i = true) ∧
      TellsBeginning told (shader.referenceNotices trace) ∧
      (shader.NeverAborts b settings s →
        left.disassembly = right.disassembly ∧ told.filterMap Notice.error? = right.errors ∧
          left.colorTargets = right.colorTargets ∧ told = shader.referenceNotices trace) ∧
      (settings.errorPolicy = .proceed → ¬shader.AsksToStop b settings s → shader.NeverAborts b settings s) := by
  intro left right told
  obtain ⟨as, h⟩ := shader.performs b settings s
  have href := shader.performs_reference trace
  refine ⟨?_, ?_, disassembly_of_performs h trace, errors_of_performs h trace, colorTargets_of_performs h trace,
    tellsBeginning_of_performs h trace, fun hn => ?_, neverAborts_of_not_asksToStop⟩
  · exact (vertexBindings_translate ..).trans (vertexBindings_translate ..).symm
  · exact (textureBindings_translate ..).trans (textureBindings_translate ..).symm
  · have hall := h.eq_of_neverAborts hn
    subst hall
    exact ⟨h.disassembly.trans href.disassembly.symm,
      (errors_of_notices h).trans (href.errors (not_objects_of_isQuiet Backend.isQuiet_silent)).symm,
      h.colorTargets.trans href.colorTargets.symm, h.notices.trans href.notices.symm⟩

end Shader

end ShaderMicrocode
