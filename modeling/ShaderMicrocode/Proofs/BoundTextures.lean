import ShaderMicrocode.Proofs.Accounting
import ShaderMicrocode.Proofs.VertexBindings
/-!
# Texture bindings

Textures are bound before anything is shown. The bindings agree with the texture fetches that are then shown: one for
each slot, as its first fetch has it. The fetches that disagree with the first of their slot are reported before the
walk begins.
-/
namespace ShaderMicrocode

open Fetch

/-! Fetches that bind their slot. -/

namespace Fetch.TextureFetch

/-- The fetch with its slot, where it has one and writes anything. -/
def bound? (f : TextureFetch) : Option (UInt32 × TextureFetch) :=
  f.slot?.bind fun slot => if f.result.mask.isEmpty then none else some (slot, f)

private theorem bound?_fetch (op : TextureWord) (o : Opcode) (address : UInt32) :
    (op.fetch o address).bound? =
      (op.fetch o address).slot?.bind fun slot =>
        if op.fetchesAnyData then some (slot, op.fetch o address) else none := by
  unfold bound?
  by_cases hstate : o.isStateWrite = true
  · have hslot : (op.fetch o address).slot? = none := if_pos hstate
    rw [hslot, Option.bind_none, Option.bind_none]
  · have hresult : (op.fetch o address).result = fetchResult op.dstReg op.dstRelative op.dstSwizzle := if_neg hstate
    rw [hresult, isEmpty_mask_fetchResult, TextureWord.fetchesAnyData]
    cases Select.writesAny op.dstSwizzle <;> rfl

private theorem bound?_of_resolve {op : TextureWord} {address : UInt32} {f : TextureFetch}
    (h : op.resolve address = .ok f) :
    f.bound? = f.slot?.bind fun slot => if op.fetchesAnyData then some (slot, f) else none := by
  unfold TextureWord.resolve at h
  split at h
  · cases h
  · cases h
  · cases h
    exact bound?_fetch op _ address

end Fetch.TextureFetch

def Visit.bound? (v : Visit) : Option (UInt32 × TextureFetch) := v.textureFetch?.bind TextureFetch.bound?

/-! What is expected of the bindings. -/

/-- The slot and the dimension of a bound fetch. -/
def sampleOf (x : UInt32 × TextureFetch) : UInt32 × Dimension := (x.1, x.2.dimension)

def textureHeads (bound : List (UInt32 × TextureFetch)) : List (UInt32 × TextureFetch) :=
  bound.eraseDupsBy fun x y => x.1 == y.1

def textureBindingsOf (bound : List (UInt32 × TextureFetch)) : List TextureBinding :=
  (textureHeads bound).mapIdx fun i x => ⟨UInt32.ofNat i, x.1, x.2⟩

private theorem any_textureBindingsOf (bound : List (UInt32 × TextureFetch)) (slot : UInt32) :
    (textureBindingsOf bound).any (·.slot == slot) = (textureHeads bound).any (slot == ·.1) := by
  rw [Bool.eq_iff_iff, List.any_eq_true, List.any_eq_true]
  constructor
  · rintro ⟨t, ht, hslot⟩
    obtain ⟨i, hi, rfl⟩ := List.mem_mapIdx.mp ht
    exact ⟨(textureHeads bound)[i], List.getElem_mem hi, by rwa [Bool.beq_comm]⟩
  · rintro ⟨x, hx, hslot⟩
    obtain ⟨i, hi, rfl⟩ := List.mem_iff_getElem.mp hx
    exact ⟨_, List.mem_mapIdx.mpr ⟨i, hi, rfl⟩, by rwa [Bool.beq_comm]⟩

private theorem textureBindingsOf_concat (bound : List (UInt32 × TextureFetch)) (x : UInt32 × TextureFetch) :
    textureBindingsOf (bound ++ [x]) =
      if (textureBindingsOf bound).any (·.slot == x.1) then textureBindingsOf bound
      else textureBindingsOf bound ++ [⟨UInt32.ofNat (textureBindingsOf bound).length, x.1, x.2⟩] := by
  have hheads : textureHeads (bound ++ [x]) =
      if (textureHeads bound).any (x.1 == ·.1) then textureHeads bound else textureHeads bound ++ [x] :=
    eraseDupsBy_concat _ bound x
  rw [any_textureBindingsOf, textureBindingsOf, hheads]
  by_cases hany : (textureHeads bound).any (x.1 == ·.1) = true
  · rw [if_pos hany, if_pos hany, textureBindingsOf]
  · rw [if_neg hany, if_neg hany, List.mapIdx_concat, textureBindingsOf, List.length_mapIdx]

/-! Gathering. -/

namespace Bindings

/-- Bindings with a texture for each slot of `bound`, and the conflicts between them. -/
structure Binds (b : Bindings) (bound : List (UInt32 × TextureFetch)) : Prop where
  texture : b.texture = textureBindingsOf bound
  met : b.Met (bound.map sampleOf)

private theorem binds_empty : empty.Binds [] := ⟨rfl, met_empty⟩

private theorem texture_addTextureFetch (b : Bindings) (slot : UInt32) (f : TextureFetch) :
    (b.addTextureFetch slot f).texture =
      if b.texture.any (·.slot == slot) then b.texture
      else b.texture ++ [⟨UInt32.ofNat b.texture.length, slot, f⟩] := by
  unfold addTextureFetch
  rw [← List.isSome_find?]
  cases b.texture.find? (·.slot == slot) with
  | none => rfl
  | some t =>
    dsimp only
    split <;> rfl

private theorem binds_addTextureFetch {b : Bindings} {bound : List (UInt32 × TextureFetch)} (h : b.Binds bound)
    (x : UInt32 × TextureFetch) : (b.addTextureFetch x.1 x.2).Binds (bound ++ [x]) := by
  constructor
  · rw [texture_addTextureFetch, textureBindingsOf_concat, h.texture]
  · rw [List.map_append]
    exact met_addTextureFetch h.met x.1 x.2

private theorem binds_addTextureWord {b : Bindings} {bound : List (UInt32 × TextureFetch)} (h : b.Binds bound)
    (op : TextureWord) (address : UInt32) :
    (b.addTextureWord op address).Binds
      (bound ++ ((op.resolve address).toOption.bind TextureFetch.bound?).toList) := by
  unfold addTextureWord
  cases hresolve : op.resolve address with
  | error e => rwa [Except.toOption, Option.bind_none, Option.toList_none, List.append_nil]
  | ok f =>
    rw [Except.toOption, Option.bind_some, TextureFetch.bound?_of_resolve hresolve]
    dsimp only
    cases f.slot? with
    | none => rwa [Option.bind_none, Option.toList_none, List.append_nil]
    | some slot =>
      rw [Option.bind_some]
      dsimp only
      by_cases hany : op.fetchesAnyData = true
      · rw [if_pos hany, if_pos hany]
        exact binds_addTextureFetch h (slot, f)
      · rw [if_neg hany, if_neg hany, Option.toList_none, List.append_nil]
        exact h

private theorem texture_addVertexWord (b : Bindings) (op : VertexWord) (address : UInt32) :
    (b.addVertexWord op address).texture = b.texture := by
  unfold addVertexWord addVertexFetch addAttribute
  dsimp only
  repeat' split
  all_goals rfl

theorem binds_addVisit {b : Bindings} {bound : List (UInt32 × TextureFetch)} (h : b.Binds bound) {v : Visit}
    (hv : v.isFetch = true) : (b.addVisit v).Binds (bound ++ v.bound?.toList) := by
  unfold addVisit Visit.bound? Visit.textureFetch?
  by_cases hcode : opcodeBits v.word = Opcode.vertexFetch.code
  · rw [if_pos hcode, if_neg fun ht => ht.2 hcode, Option.bind_none, Option.toList_none, List.append_nil]
    exact ⟨(texture_addVertexWord _ _ _).trans h.texture, met_addVertexWord h.met _ _⟩
  · rw [if_neg hcode, if_pos ⟨hv, hcode⟩]
    exact binds_addTextureWord h _ _

theorem binds_gather (words : Array UInt32) (p : Program) :
    (gather (p.fetches words)).Binds ((p.visits words).filterMap Visit.bound?) := by
  have hbound : ∀ v : Visit, ¬v.isFetch = true → v.bound? = none := by
    intro v hv
    rw [Visit.bound?, Visit.textureFetch?, if_neg fun h => hv h.1]
    rfl
  rw [← Program.filterMap_fetches hbound]
  exact foldl_addVisit binds_addVisit binds_empty fun _ => Program.isFetch_of_mem_fetches

end Bindings

/-! The translation. -/

namespace Shader

variable {σ : Type}

end Shader

end ShaderMicrocode
