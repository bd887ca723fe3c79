import ShaderMicrocode.Proofs.Defects
import ShaderMicrocode.Proofs.Errors
import ShaderMicrocode.Proofs.Targets
import ShaderMicrocode.Proofs.TextureBindings
/-!
# The verdict

A backend without objections of its own gets a translation without errors exactly when the microcode is well-formed.
Neither the settings nor the answers of the backend matter for that: an abort may hide errors, but never the first.
-/
namespace ShaderMicrocode

open ControlFlow Fetch

namespace Visit

def IsVertexFetch (v : Visit) : Prop := v.isFetch = true ∧ opcodeBits v.word = 0

def isMini (v : Visit) : Bool := (VertexWord.decode v.word).isMiniFetch

instance (v : Visit) : Decidable v.IsVertexFetch := inferInstanceAs (Decidable (_ ∧ _))

end Visit

/-- Microcode that holds nothing but what can be decoded. -/
structure WellFormed (stage : Stage) (words : Array UInt32) : Prop where
  complete : (Program.read words).truncatedAt = none
  targets : ∀ w ∈ (Program.read words).instructions, ∀ target, w.target? = some target →
    target.toNat < (Program.read words).length
  instructions : ∀ w ∈ (Program.read words).instructions, w.opcode ≠ .markVsFetchDone
  inside : ∀ w ∈ (Program.read words).instructions, ∀ l, w.layout = .exec l →
    ∀ i < l.count.toNat, InsideAt words l.address i
  alus : ∀ v ∈ (Program.read words).visits words, v.isFetch = false → (Alu.Word.decode v.word).IsLegal stage
  fetches : ∀ v ∈ (Program.read words).visits words, v.isFetch = true →
    opcodeBits v.word ∈ [0, 1, 16, 17, 18, 19, 24, 25, 26]
  formats : ∀ v ∈ (Program.read words).visits words, v.IsVertexFetch →
    ∃ f : VertexFormat, f.code = (VertexWord.decode v.word).format
  miniFetches : ∀ before v after, (Program.read words).visits words = before ++ v :: after → v.IsVertexFetch →
    v.isMini = true → ∃ u ∈ before, u.IsVertexFetch ∧ u.isMini = false
  textures : ∀ u ∈ (Program.read words).visits words, ∀ v ∈ (Program.read words).visits words,
    u.Samples → v.Samples → u.textureSlot = v.textureSlot → u.textureDimension = v.textureDimension

/-! Words. -/

private theorem toList_defect?_eq_nil_iff {α : Type} (decoded : Except DecodeError α) :
    (defect? decoded).toList = [] ↔ decoded.isOk = true := by
  cases decoded <;> simp [defect?, Except.isOk, Except.toBool]

private theorem filterMap_defect?_eq_nil_iff {α : Type} (halves : List (Except DecodeError α)) :
    halves.filterMap defect? = [] ↔ ∀ half ∈ halves, half.isOk = true := by
  rw [List.filterMap_eq_nil_iff]
  refine forall_congr' fun half => imp_congr_right fun _ => ?_
  rw [← toList_defect?_eq_nil_iff, Option.toList_eq_nil_iff]

/-- The visited word can be decoded after the full vertex fetch `last`. -/
structure Visit.IsLegal (stage : Stage) (last : Option VertexWord) (v : Visit) : Prop where
  alu : v.isFetch = false → (Alu.Word.decode v.word).IsLegal stage
  fetch : v.isFetch = true → opcodeBits v.word ∈ [0, 1, 16, 17, 18, 19, 24, 25, 26]
  format : v.IsVertexFetch → ∃ f : VertexFormat, f.code = (VertexWord.decode v.word).format
  mini : v.IsVertexFetch → v.isMini = true → last ≠ none

theorem Visit.defects_eq_nil_iff (stage : Stage) (last : Option VertexWord) (v : Visit) :
    v.defects stage last = [] ↔ v.IsLegal stage last := by
  unfold defects
  show (if v.isFetch = true then if opcodeBits v.word = 0 then _ else _ else _) = [] ↔ _
  by_cases hfetch : v.isFetch = true
  · rw [if_pos hfetch]
    by_cases hcode : opcodeBits v.word = 0
    · rw [if_pos hcode, toList_defect?_eq_nil_iff, VertexWord.isOk_resolve_iff]
      constructor
      · rintro ⟨hformat, hmini⟩
        exact ⟨fun h => absurd (hfetch.symm.trans h) nofun, fun _ => by simp [hcode], fun _ => hformat, fun _ => hmini⟩
      · intro h
        exact ⟨h.format ⟨hfetch, hcode⟩, h.mini ⟨hfetch, hcode⟩⟩
    · have hnot : ¬v.IsVertexFetch := fun h => hcode h.2
      rw [if_neg hcode, toList_defect?_eq_nil_iff, TextureWord.isOk_resolve_iff]
      constructor
      · intro hmem
        exact ⟨fun h => absurd (hfetch.symm.trans h) nofun, fun _ => List.mem_cons_of_mem _ hmem,
          fun h => absurd h hnot, fun h => absurd h hnot⟩
      · intro h
        exact (List.mem_cons.mp (h.fetch hfetch)).resolve_left hcode
  · have hnot : ¬v.IsVertexFetch := fun h => hfetch h.1
    rw [if_neg hfetch, filterMap_defect?_eq_nil_iff, Alu.Word.isOk_halves_iff]
    constructor
    · intro hlegal
      exact ⟨fun _ => hlegal, fun h => absurd h hfetch, fun h => absurd h hnot, fun h => absurd h hnot⟩
    · intro h
      exact h.alu (Bool.not_eq_true _ ▸ hfetch)

private theorem rememberAll_ne_none_iff (last : Option VertexWord) (vs : List Visit) :
    rememberAll last vs ≠ none ↔ last ≠ none ∨ ∃ u ∈ vs, u.IsVertexFetch ∧ u.isMini = false := by
  induction vs generalizing last with
  | nil => simp [rememberAll]
  | cons v vs ih =>
    have hfirst : v.remember last ≠ none ↔ last ≠ none ∨ v.IsVertexFetch ∧ v.isMini = false := by
      unfold Visit.remember VertexWord.remember
      show (if v.IsVertexFetch then _ else _) ≠ none ↔ _
      by_cases hv : v.IsVertexFetch
      · rw [if_pos hv]
        cases hmini : (VertexWord.decode v.word).isMiniFetch <;> simp [Visit.isMini, hmini, hv]
      · rw [if_neg hv]
        simp [hv]
    show rememberAll (v.remember last) vs ≠ none ↔ _
    rw [ih, hfirst]
    simp [or_assoc]

private theorem collect_defects_eq_nil_iff (stage : Stage) (vs : List Visit) :
    collect (Visit.defects stage) none vs = [] ↔
      ∀ before v after, vs = before ++ v :: after → v.IsLegal stage (rememberAll none before) := by
  rw [collect_eq_nil_iff]
  refine forall_congr' fun before => forall_congr' fun v => forall_congr' fun after => imp_congr_right fun _ => ?_
  exact v.defects_eq_nil_iff stage _

/-! Blocks. -/

structure ControlFlow.Word.IsWhole (words : Array UInt32) (w : Word) : Prop where
  opcode : w.opcode ≠ .markVsFetchDone
  inside : ∀ l, w.layout = .exec l → ∀ i < l.count.toNat, InsideAt words l.address i

section Defects

variable (stage : Stage) (words : Array UInt32) (last : Option VertexWord)

private theorem ControlFlow.Word.defects_eq_nil_iff (w : Word) :
    w.defects stage words last = [] ↔
      w.IsWhole words ∧ collect (Visit.defects stage) last (w.visits words) = [] := by
  unfold Word.defects
  cases hl : w.layout with
  | exec l =>
    have hop : w.opcode ≠ .markVsFetchDone := by
      intro hop
      simp [Word.layout, hop] at hl
    have hinside : w.IsWhole words ↔ outside? words l 0 l.count.toNat = none := by
      rw [outside?_eq_none_iff]
      refine ⟨fun h => h.inside l hl, fun h => ⟨hop, fun l' hl' => ?_⟩⟩
      rw [hl] at hl'
      cases hl'
      exact h
    rw [hinside, List.append_eq_nil_iff, Option.toList_eq_nil_iff, and_comm]
  | markVsFetchDone =>
    have hop := w.layout_eq_markVsFetchDone_iff.mp hl
    exact ⟨nofun, fun h => absurd hop h.1.opcode⟩
  | _ =>
    have hlayout : ∀ l, w.layout ≠ .exec l := by simp [hl]
    have hop : w.opcode ≠ .markVsFetchDone := by
      intro hop
      simp [Word.layout, hop] at hl
    rw [w.visits_of_not_exec words hlayout]
    exact ⟨fun _ => ⟨⟨hop, fun l hl => absurd hl (hlayout l)⟩, rfl⟩, fun _ => rfl⟩

private theorem defectsFrom_eq_nil_iff (ws : List Word) :
    defectsFrom stage words last ws = [] ↔
      (∀ w ∈ ws, w.IsWhole words) ∧
        collect (Visit.defects stage) last (ws.flatMap (Word.visits words)) = [] := by
  induction ws generalizing last with
  | nil => simp [defectsFrom, collect]
  | cons w ws ih =>
    rw [defectsFrom, List.append_eq_nil_iff, w.defects_eq_nil_iff, ih, List.flatMap_cons, collect_append,
      List.append_eq_nil_iff, List.forall_mem_cons]
    exact and_and_and_comm

end Defects

/-! Programs. -/

private theorem Schedule.programFaults_eq_nil_iff (p : Program) (b : Bindings) :
    programFaults p b = [] ↔
      p.truncatedAt = none ∧ b.conflicts = [] ∧
        ∀ w ∈ p.instructions, ∀ target, w.target? = some target → target.toNat < p.length := by
  have htargets : (p.labels.filter fun target => decide (p.length ≤ target.toNat)) = [] ↔
      ∀ w ∈ p.instructions, ∀ target, w.target? = some target → target.toNat < p.length := by
    rw [List.filter_eq_nil_iff]
    constructor
    · intro h w hw target htarget
      simpa using h target ((p.mem_labels_iff target).mpr ⟨w, hw, htarget⟩)
    · intro h target htarget
      obtain ⟨w, hw, heq⟩ := (p.mem_labels_iff target).mp htarget
      simpa using h w hw target heq
  rw [programFaults, List.append_eq_nil_iff, List.append_eq_nil_iff, List.map_eq_nil_iff, htargets, and_assoc]
  refine and_congr_left fun _ => ?_
  cases p.truncatedAt <;> simp

/-! The translation. -/

namespace Shader

variable {σ : Type} {shader : Shader} {b : Backend σ} {settings : TranslatorSettings} {s : σ}

/-- Nothing is recorded in a translation exactly when its whole plan has nothing to report. -/
theorem errors_eq_nil_iff (hb : ¬shader.Objects b settings s) :
    (shader.translate b settings s).shader.errors = [] ↔
      shader.plan.faults = [] ∧ (shader.plan.steps.flatMap Step.acts).filterMap Act.diagnostic? = [] := by
  obtain ⟨as, h⟩ := shader.performs b settings s
  have herrors := h.errors hb
  rw [herrors, List.append_eq_nil_iff]
  refine and_congr_right fun hfaults => ⟨fun has => ?_, fun hall => ?_⟩
  · have hn : shader.NeverAborts b settings s := by
      rw [neverAborts_iff, ← Bool.not_eq_true]
      intro ha
      have hne := errors_ne_nil_of_isAborted ha
      rw [← errors_translate_of_not_objects hb, herrors, hfaults, has] at hne
      exact hne rfl
    rwa [← h.eq_of_neverAborts hn]
  · rw [List.filterMap_eq_nil_iff] at hall ⊢
    exact fun a ha => hall a (h.cut.sublist.subset ha)

/-- The plan has nothing to report exactly when the microcode is well-formed. -/
theorem plan_isClean_iff (shader : Shader) :
    shader.plan.faults = [] ∧ (shader.plan.steps.flatMap Step.acts).filterMap Act.diagnostic? = [] ↔
      WellFormed shader.stage shader.words := by
  let p := Program.read shader.words
  have hfetch {v : Visit} (hs : v.Samples) : v ∈ p.fetches shader.words ↔ v ∈ p.visits shader.words := by
    rw [Program.fetches_eq_filter, List.mem_filter]
    exact and_iff_left hs.1
  have hfaults : shader.plan.faults = [] ↔ _ :=
    Schedule.programFaults_eq_nil_iff p (.gather (p.fetches shader.words))
  have hwalk : (shader.plan.steps.flatMap Step.acts).filterMap Act.diagnostic? = _ :=
    Schedule.diagnostics_walk shader.stage shader.words p.labels none 0 p.instructions
  have hvisits : collect _ none (p.instructions.flatMap (Word.visits shader.words)) = [] ↔ _ :=
    collect_defects_eq_nil_iff shader.stage (p.visits shader.words)
  rw [hfaults, hwalk, List.map_eq_nil_iff, defectsFrom_eq_nil_iff, hvisits,
    Bindings.conflicts_gather_eq_nil_iff fun _ => Program.isFetch_of_mem_fetches]
  constructor
  · rintro ⟨⟨hcomplete, htextures, htargets⟩, hwhole, hlegal⟩
    have hmem {v : Visit} (hv : v ∈ p.visits shader.words) : ∃ last, v.IsLegal shader.stage last := by
      obtain ⟨before, after, heq⟩ := List.append_of_mem hv
      exact ⟨_, hlegal before v after heq⟩
    exact
      { complete := hcomplete
        targets := htargets
        instructions := fun w hw => (hwhole w hw).opcode
        inside := fun w hw => (hwhole w hw).inside
        alus := fun v hv => (hmem hv).elim fun _ h => h.alu
        fetches := fun v hv => (hmem hv).elim fun _ h => h.fetch
        formats := fun v hv => (hmem hv).elim fun _ h => h.format
        miniFetches := fun before v after heq hvertex hmini =>
          ((rememberAll_ne_none_iff none before).mp ((hlegal before v after heq).mini hvertex hmini)).resolve_left
            fun hne => hne rfl
        textures := fun u hu v hv hus hvs =>
          htextures u ((hfetch hus).mpr hu) v ((hfetch hvs).mpr hv) hus hvs }
  · intro h
    refine ⟨⟨h.complete, ?_, h.targets⟩, fun w hw => ⟨h.instructions w hw, h.inside w hw⟩, ?_⟩
    · intro u hu v hv hus hvs
      exact h.textures u ((hfetch hus).mp hu) v ((hfetch hvs).mp hv) hus hvs
    · intro before v after heq
      have hv : v ∈ p.visits shader.words := by
        rw [heq]
        exact List.mem_append_right _ List.mem_cons_self
      refine ⟨h.alus v hv, h.fetches v hv, h.formats v hv, fun hvertex hmini => ?_⟩
      exact (rememberAll_ne_none_iff none before).mpr (.inr (h.miniFetches before v after heq hvertex hmini))

/-- A translation that only the microcode can spoil succeeds exactly on well-formed microcode. -/
theorem isOk_iff_wellFormed (shader : Shader) (b : Backend σ) (settings : TranslatorSettings) (s : σ)
    (hb : ¬shader.Objects b settings s) :
    ((shader.translate b settings s).isOk = true ↔ WellFormed shader.stage shader.words) ∧
      ((shader.translate b settings s).shader.isValid = true ↔ WellFormed shader.stage shader.words) := by
  have hvalid : (shader.translate b settings s).shader.isValid = true ↔ WellFormed shader.stage shader.words := by
    rw [← plan_isClean_iff, ← errors_eq_nil_iff hb]
    exact List.isEmpty_iff
  exact ⟨hvalid, hvalid⟩

/-- A block with a full fetch and a jump back to it, and the same with a mini fetch that no full fetch completes. The
backend asks to stop after that error. -/
theorem isOk_iff_wellFormed_of_backward_jump :
    let b := Backend.scripted { abortOn := [.invalidEncoding] }
    let settings : TranslatorSettings := ⟨.proceed, false⟩
    let full := Shader.new .vertex
      #[0x00042001, 0x20001000, 0xB0000000, 0x001F0000, 0, 0xE0000000, 0x00080000, 0x00390688, 0x00000004]
    let mini := Shader.new .vertex
      #[0x00042001, 0x20001000, 0xB0000000, 0x001F0000, 0, 0xE0000000, 0x00080000, 0x40390688, 0x00000004]
    ¬full.Objects b settings [] ∧ ¬mini.Objects b settings [] ∧ mini.AsksToStop b settings [] ∧
      .event (.label 0) ∈ full.notices b settings [] ∧ .event (.label 0) ∈ mini.notices b settings [] ∧
      (full.translate b settings []).isOk = true ∧ WellFormed .vertex full.words ∧
      (mini.translate b settings []).isOk = false ∧ ¬WellFormed .vertex mini.words := by
  intro b settings full mini
  have hquiet (shader : Shader) : ¬shader.Objects b settings [] := not_objects_of_isQuiet (Backend.isQuiet_scripted rfl)
  have hfull : (full.translate b settings []).isOk = true := by decide +kernel
  have hmini : (mini.translate b settings []).isOk = false := by decide +kernel
  have hasks : (mini.translate b.traced settings (.new [])).state.hasAskedToStop = true := by decide +kernel
  refine ⟨hquiet full, hquiet mini, hasks, by decide +kernel, by decide +kernel, hfull, ?_, hmini, fun h => ?_⟩
  · exact (isOk_iff_wellFormed full b settings [] (hquiet full)).1.mp hfull
  · have hok := (isOk_iff_wellFormed mini b settings [] (hquiet mini)).1.mpr h
    exact absurd (hmini.symm.trans hok) nofun

end Shader

end ShaderMicrocode
