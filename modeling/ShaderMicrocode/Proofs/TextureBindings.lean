import Mathlib.Data.List.Basic
import ShaderMicrocode.Proofs.Legality
/-!
# Texture conflicts

Each fetch that reads data is held against the first fetch of its slot, and gathering finds exactly the conflicts
between their dimensions. So there is none exactly when no two fetches sample one slot in two dimensions, in whatever
order they come.
-/
namespace ShaderMicrocode

open Fetch

/-- The codes of the texture fetches that read data into their destination. -/
def samplingCodes : List UInt32 := [1, 16, 17, 18, 19]

namespace Visit

/-- The visited word is a texture fetch that writes what it reads. -/
def Samples (v : Visit) : Prop :=
  v.isFetch = true ∧ opcodeBits v.word ∈ samplingCodes ∧ (TextureWord.decode v.word).fetchesAnyData = true

instance (v : Visit) : Decidable v.Samples := inferInstanceAs (Decidable (_ ∧ _))

def textureSlot (v : Visit) : UInt32 := (TextureWord.decode v.word).constIndex

def textureDimension (v : Visit) : Dimension := .ofCode (TextureWord.decode v.word).dimension

def sample? (v : Visit) : Option (UInt32 × Dimension) :=
  if v.Samples then some (v.textureSlot, v.textureDimension) else none

end Visit

def Consistent (samples : List (UInt32 × Dimension)) : Prop :=
  ∀ x ∈ samples, ∀ y ∈ samples, x.1 = y.1 → x.2 = y.2

/-- The conflict of a sample with the first sample of its slot. -/
def conflictWith? (first x : UInt32 × Dimension) : Option Diagnostic :=
  if first.2 = x.2 then none else some (.textureConflict x.1 first.2 x.2)

/-- What samples of one slot have against each other: each is held against the first. -/
def conflictsAmong (samples : List (UInt32 × Dimension)) : List Diagnostic :=
  samples.filterMap fun x => (samples.find? (·.1 == x.1)).bind (conflictWith? · x)

private theorem find?_slot_of_mem {samples : List (UInt32 × Dimension)} {x : UInt32 × Dimension} (hx : x ∈ samples) :
    ∃ first ∈ samples, first.1 = x.1 ∧ samples.find? (·.1 == x.1) = some first := by
  have hsome : (samples.find? (·.1 == x.1)).isSome = true := by
    rw [List.find?_isSome]
    exact ⟨x, hx, beq_self_eq_true _⟩
  obtain ⟨first, hfirst⟩ := Option.isSome_iff_exists.mp hsome
  have hslot : first.1 = x.1 := by simpa using List.find?_some hfirst
  exact ⟨first, List.mem_of_find?_eq_some hfirst, hslot, hfirst⟩

theorem conflictsAmong_eq_nil_iff (samples : List (UInt32 × Dimension)) :
    conflictsAmong samples = [] ↔ Consistent samples := by
  rw [conflictsAmong, List.filterMap_eq_nil_iff]
  constructor
  · intro h x hx y hy hslot
    obtain ⟨first, -, -, hfind⟩ := find?_slot_of_mem hx
    have hdimension {z : UInt32 × Dimension} (hz : z ∈ samples) (hzx : z.1 = x.1) : first.2 = z.2 := by
      have hnone := h z hz
      rw [hzx, hfind, Option.bind_some, conflictWith?] at hnone
      simpa using hnone
    exact (hdimension hx rfl).symm.trans (hdimension hy hslot.symm)
  · intro h x hx
    obtain ⟨first, hmem, hslot, hfind⟩ := find?_slot_of_mem hx
    rw [hfind, Option.bind_some]
    exact if_pos (h first hmem x hx hslot)

theorem eq_of_mem_conflictsAmong {samples : List (UInt32 × Dimension)} {d : Diagnostic}
    (h : d ∈ conflictsAmong samples) :
    ∃ first x : UInt32 × Dimension, d = .textureConflict x.1 first.2 x.2 := by
  obtain ⟨x, -, hx⟩ := List.mem_filterMap.mp h
  obtain ⟨first, -, hconflict⟩ := Option.bind_eq_some_iff.mp hx
  unfold conflictWith? at hconflict
  split at hconflict
  · cases hconflict
  · cases hconflict
    exact ⟨first, x, rfl⟩

private theorem conflictsAmong_concat (samples : List (UInt32 × Dimension)) (x : UInt32 × Dimension) :
    conflictsAmong (samples ++ [x]) =
      conflictsAmong samples ++ ((samples.find? (·.1 == x.1)).bind (conflictWith? · x)).toList := by
  have hearlier : samples.filterMap (fun y => ((samples ++ [x]).find? (·.1 == y.1)).bind (conflictWith? · y)) =
      conflictsAmong samples := by
    apply List.filterMap_congr
    intro y hy
    obtain ⟨first, -, -, hfind⟩ := find?_slot_of_mem hy
    rw [List.find?_append, hfind]
    rfl
  have hself : conflictWith? x x = none := if_pos rfl
  have hlast : ((samples ++ [x]).find? (·.1 == x.1)).bind (conflictWith? · x) =
      (samples.find? (·.1 == x.1)).bind (conflictWith? · x) := by
    rw [List.find?_append]
    cases samples.find? (·.1 == x.1) <;> simp [hself]
  rw [conflictsAmong, List.filterMap_append, hearlier, List.filterMap_cons, hlast]
  cases (samples.find? (·.1 == x.1)).bind (conflictWith? · x) <;> rfl

namespace Bindings

/-- The bindings of textures after `samples`: each slot is bound with the dimension of its first sample. -/
structure Met (b : Bindings) (samples : List (UInt32 × Dimension)) : Prop where
  first : ∀ slot, (b.texture.find? (·.slot == slot)).map TextureBinding.dimension =
    (samples.find? (·.1 == slot)).map Prod.snd
  conflicts : b.conflicts = conflictsAmong samples

theorem met_empty : empty.Met [] := ⟨fun _ => rfl, rfl⟩

private theorem Met.of_eq {b b' : Bindings} {samples : List (UInt32 × Dimension)} (h : b.Met samples)
    (htexture : b'.texture = b.texture) (hconflicts : b'.conflicts = b.conflicts) : b'.Met samples := by
  refine ⟨fun slot => ?_, hconflicts.trans h.conflicts⟩
  rw [htexture]
  exact h.first slot

theorem met_addTextureFetch {b : Bindings} {samples : List (UInt32 × Dimension)} (h : b.Met samples) (slot : UInt32)
    (f : TextureFetch) : (b.addTextureFetch slot f).Met (samples ++ [(slot, f.dimension)]) := by
  have hfirst := h.first slot
  unfold addTextureFetch
  cases hfind : b.texture.find? (·.slot == slot) with
  | some t =>
    rw [hfind, Option.map_some] at hfirst
    obtain ⟨x, hx, hdimension⟩ := Option.map_eq_some_iff.mp hfirst.symm
    have hbound (other : UInt32) : (samples ++ [(slot, f.dimension)]).find? (·.1 == other) =
        samples.find? (·.1 == other) := by
      by_cases hother : slot = other
      · rw [← hother, List.find?_append, hx]
        rfl
      · simp [List.find?_append, hother]
    have hfirst' (other : UInt32) : (b.texture.find? (·.slot == other)).map TextureBinding.dimension =
        ((samples ++ [(slot, f.dimension)]).find? (·.1 == other)).map Prod.snd := by
      rw [hbound]
      exact h.first other
    have hconflict : conflictsAmong (samples ++ [(slot, f.dimension)]) =
        conflictsAmong samples ++ (conflictWith? x (slot, f.dimension)).toList := by
      rw [conflictsAmong_concat, hx, Option.bind_some]
    unfold conflictWith? at hconflict
    rw [hdimension] at hconflict
    dsimp only
    by_cases heq : t.dimension = f.dimension
    · rw [if_pos heq] at hconflict ⊢
      refine ⟨hfirst', ?_⟩
      rw [hconflict, h.conflicts, Option.toList_none, List.append_nil]
    · rw [if_neg heq] at hconflict ⊢
      refine ⟨hfirst', ?_⟩
      rw [hconflict, h.conflicts, Option.toList_some]
  | none =>
    rw [hfind, Option.map_none] at hfirst
    have hfresh : samples.find? (·.1 == slot) = none := Option.map_eq_none_iff.mp hfirst.symm
    refine ⟨fun other => ?_, ?_⟩
    · rw [List.find?_append, List.find?_append]
      by_cases hother : slot = other
      · rw [← hother, hfind, hfresh]
        simp [TextureBinding.dimension]
      · simp [hother, h.first other]
    · rw [conflictsAmong_concat, hfresh, h.conflicts, Option.bind_none, Option.toList_none, List.append_nil]

private theorem addTextureWord_eq (b : Bindings) (op : TextureWord) (address : UInt32) :
    (op.opcode ∈ samplingCodes ∧ op.fetchesAnyData = true ∧ ∃ f : TextureFetch, f.dimension = .ofCode op.dimension ∧
        b.addTextureWord op address = b.addTextureFetch op.constIndex f) ∨
      (¬(op.opcode ∈ samplingCodes ∧ op.fetchesAnyData = true) ∧ b.addTextureWord op address = b) := by
  unfold addTextureWord TextureWord.resolve
  cases hcode : Opcode.ofCode? op.opcode with
  | none =>
    refine .inr ⟨fun h => ?_, rfl⟩
    have hs := h.1
    simp only [samplingCodes, List.mem_cons, List.not_mem_nil, or_false] at hs
    rcases hs with hs | hs | hs | hs | hs <;> rw [hs] at hcode <;> cases hcode
  | some o =>
    have hsampling : op.opcode ∈ samplingCodes ↔ o ≠ .vertexFetch ∧ o.isStateWrite = false := by
      rw [← Opcode.code_of_ofCode? hcode]
      cases o <;> decide
    by_cases hany : op.fetchesAnyData = true
    · by_cases hs : op.opcode ∈ samplingCodes
      · refine .inl ⟨hs, hany, op.fetch o address, rfl, ?_⟩
        obtain ⟨hne, hstate⟩ := hsampling.mp hs
        cases o <;> first | exact absurd rfl hne | simp_all [TextureWord.fetch, Opcode.isStateWrite]
      · refine .inr ⟨fun h => hs h.1, ?_⟩
        rw [hsampling] at hs
        cases o <;> simp_all [TextureWord.fetch, Opcode.isStateWrite]
    · refine .inr ⟨fun h => hany h.2, ?_⟩
      cases o <;> simp_all [TextureWord.fetch, Opcode.isStateWrite]

theorem met_addVertexWord {b : Bindings} {samples : List (UInt32 × Dimension)} (h : b.Met samples) (op : VertexWord)
    (address : UInt32) : (b.addVertexWord op address).Met samples := by
  unfold addVertexWord addVertexFetch addAttribute
  dsimp only
  repeat' split
  all_goals exact h.of_eq rfl rfl

theorem met_addVisit {b : Bindings} {samples : List (UInt32 × Dimension)} (h : b.Met samples) {v : Visit}
    (hv : v.isFetch = true) : (b.addVisit v).Met (samples ++ v.sample?.toList) := by
  unfold addVisit Visit.sample?
  by_cases hcode : opcodeBits v.word = Opcode.vertexFetch.code
  · have hnot : ¬v.Samples := by
      rintro ⟨-, hs, -⟩
      rw [hcode] at hs
      revert hs
      decide
    rw [if_pos hcode, if_neg hnot, Option.toList_none, List.append_nil]
    exact met_addVertexWord h _ _
  · rw [if_neg hcode]
    rcases b.addTextureWord_eq (.decode v.word) v.address with ⟨hs, hany, f, hdimension, heq⟩ | ⟨hnot, heq⟩
    · rw [if_pos ⟨hv, hs, hany⟩, heq, Option.toList_some, Visit.textureDimension, ← hdimension]
      exact met_addTextureFetch h _ f
    · rw [if_neg fun hs => hnot hs.2, heq, Option.toList_none, List.append_nil]
      exact h

/-- What holds of the bindings and of what `g` makes of the visits so far, if each visit preserves it. -/
theorem foldl_addVisit {α : Type} {P : Bindings → List α → Prop} {g : Visit → Option α}
    (hstep : ∀ {b : Bindings} {xs : List α}, P b xs → ∀ {v : Visit}, v.isFetch = true →
      P (b.addVisit v) (xs ++ (g v).toList))
    {b : Bindings} {xs : List α} (h : P b xs) {vs : List Visit} (hvs : ∀ v ∈ vs, v.isFetch = true) :
    P (vs.foldl addVisit b) (xs ++ vs.filterMap g) := by
  induction vs generalizing b xs with
  | nil => rwa [List.filterMap_nil, List.append_nil]
  | cons v vs ih =>
    have hrest := ih (hstep h (hvs v List.mem_cons_self)) fun u hu => hvs u (List.mem_cons_of_mem _ hu)
    rw [List.append_assoc] at hrest
    rw [List.foldl_cons, List.filterMap_cons]
    cases hv : g v <;> simpa [hv] using hrest

theorem conflicts_gather {vs : List Visit} (hvs : ∀ v ∈ vs, v.isFetch = true) :
    (gather vs).conflicts = conflictsAmong (vs.filterMap Visit.sample?) :=
  (foldl_addVisit met_addVisit met_empty hvs).conflicts

/-- No conflict is found exactly when any two fetches that sample one slot do so in one dimension. -/
theorem conflicts_gather_eq_nil_iff {vs : List Visit} (hvs : ∀ v ∈ vs, v.isFetch = true) :
    (gather vs).conflicts = [] ↔
      ∀ u ∈ vs, ∀ v ∈ vs, u.Samples → v.Samples → u.textureSlot = v.textureSlot →
        u.textureDimension = v.textureDimension := by
  have hsample {v : Visit} (hv : v.Samples) : v.sample? = some (v.textureSlot, v.textureDimension) := if_pos hv
  rw [conflicts_gather hvs, conflictsAmong_eq_nil_iff]
  refine ⟨fun hc u hu v hv hus hvs hslot => ?_, fun h x hx y hy heq => ?_⟩
  · exact hc _ (List.mem_filterMap.mpr ⟨u, hu, hsample hus⟩) _ (List.mem_filterMap.mpr ⟨v, hv, hsample hvs⟩) hslot
  · have hof {z : UInt32 × Dimension} (hz : z ∈ vs.filterMap Visit.sample?) :
        ∃ v ∈ vs, v.Samples ∧ z = (v.textureSlot, v.textureDimension) := by
      obtain ⟨v, hv, hvz⟩ := List.mem_filterMap.mp hz
      unfold Visit.sample? at hvz
      split at hvz
      · rename_i hs
        exact ⟨v, hv, hs, (Option.some.inj hvz).symm⟩
      · cases hvz
    obtain ⟨u, hu, hus, rfl⟩ := hof hx
    obtain ⟨v, hv, hvs, rfl⟩ := hof hy
    exact h u hu v hv hus hvs heq

end Bindings

end ShaderMicrocode
