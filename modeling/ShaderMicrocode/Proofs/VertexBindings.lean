import ShaderMicrocode.Proofs.Errors
import ShaderMicrocode.Proofs.Fetches
/-!
# Vertex bindings

Bindings are gathered before anything is shown. They agree with the fetches that are then shown: one binding for each
slot, and in it one attribute for each layout, all of them numbered in the order of the fetches.
-/
namespace ShaderMicrocode

open Fetch

/-! First occurrences. -/

section FirstOccurrences

variable {α : Type} (same : α → α → Bool)

private theorem eraseDupsBy_loop_concat (as kept : List α) (a : α) :
    List.eraseDupsBy.loop same (as ++ [a]) kept =
      if (List.eraseDupsBy.loop same as kept).any (same a) then List.eraseDupsBy.loop same as kept
      else List.eraseDupsBy.loop same as kept ++ [a] := by
  induction as generalizing kept with
  | nil =>
    simp only [List.nil_append, List.eraseDupsBy.loop, List.any_reverse]
    cases kept.any (same a) <;> simp
  | cons b as ih =>
    simp only [List.cons_append, List.eraseDupsBy.loop]
    by_cases h : kept.any (same b) = true
    · simp only [h]
      exact ih kept
    · rw [Bool.not_eq_true] at h
      simp only [h]
      exact ih (b :: kept)

theorem eraseDupsBy_concat (as : List α) (a : α) :
    (as ++ [a]).eraseDupsBy same =
      if (as.eraseDupsBy same).any (same a) then as.eraseDupsBy same else as.eraseDupsBy same ++ [a] :=
  eraseDupsBy_loop_concat same as [] a

theorem length_eraseDupsBy_le (as : List α) : (as.eraseDupsBy same).length ≤ as.length := by
  have hloop (kept : List α) : (List.eraseDupsBy.loop same as kept).length ≤ kept.length + as.length := by
    induction as generalizing kept with
    | nil => simp [List.eraseDupsBy.loop]
    | cons a as ih =>
      unfold List.eraseDupsBy.loop
      split
      · exact Nat.le_trans (ih kept) (Nat.le_succ _)
      · have := ih (a :: kept)
        simp only [List.length_cons] at this ⊢
        omega
  simpa [List.eraseDupsBy] using hloop []

variable {same} in
private theorem mem_of_mem_eraseDupsBy_loop {as kept : List α} {a : α} (h : a ∈ List.eraseDupsBy.loop same as kept) :
    a ∈ kept ∨ a ∈ as := by
  induction as generalizing kept with
  | nil => exact .inl (List.mem_reverse.mp h)
  | cons b as ih =>
    unfold List.eraseDupsBy.loop at h
    split at h
    · exact (ih h).imp id (List.mem_cons_of_mem b)
    · rcases ih h with h | h
      · exact (List.mem_cons.mp h).symm.imp id fun heq => List.mem_cons.mpr (.inl heq)
      · exact .inr (List.mem_cons_of_mem b h)

variable {same} in
theorem mem_of_mem_eraseDupsBy {as : List α} {a : α} (h : a ∈ as.eraseDupsBy same) : a ∈ as :=
  (mem_of_mem_eraseDupsBy_loop h).resolve_left List.not_mem_nil

end FirstOccurrences

/-! Fetches that write. -/

def Fetch.VertexFetch.writesAny (f : VertexFetch) : Bool := !f.result.mask.isEmpty

theorem isEmpty_mask_fetchResult (reg : UInt32) (isRelative : Bool) (swizzle : UInt32) :
    (fetchResult reg isRelative swizzle).mask.isEmpty = !Select.writesAny swizzle := by
  have hmask (a b c d : Bool) : (WriteMask.mk a b c d).isEmpty = !(a || (b || (c || (d || false)))) := by
    cases a <;> cases b <;> cases c <;> cases d <;> rfl
  exact hmask _ _ _ _

private theorem Fetch.VertexWord.writesAny_of_resolve {op : VertexWord} {last : Option VertexWord} {address : UInt32}
    {f : VertexFetch} (h : op.resolve last address = .ok f) : f.writesAny = op.fetchesAnyData := by
  unfold resolve at h
  split at h
  · cases h
  · split at h
    · cases h
    · cases h
      show (!(fetchResult op.dstReg op.dstRelative op.dstSwizzle).mask.isEmpty) = Select.writesAny op.dstSwizzle
      rw [isEmpty_mask_fetchResult, Bool.not_not]

/-! What is expected of the bindings. -/

/-- Two fetches that one attribute stands for. -/
def sameAttribute (f g : VertexFetch) : Bool := f.slot == g.slot && f.sameLayout g

def slotHeads (fetches : List VertexFetch) : List VertexFetch := fetches.eraseDupsBy fun f g => f.slot == g.slot

def attributeHeads (fetches : List VertexFetch) : List VertexFetch := fetches.eraseDupsBy sameAttribute

/-- The attributes of one slot, numbered among those of all slots. -/
def numberedAttributes (kept : List VertexFetch) (slot : UInt32) : List VertexAttribute :=
  (kept.zipIdx.filter fun x => x.1.slot == slot).map fun x => ⟨UInt32.ofNat x.2, x.1⟩

def bindingTable (heads kept : List VertexFetch) : List VertexBinding :=
  heads.mapIdx fun i f => ⟨UInt32.ofNat i, f.slot, f.stride, numberedAttributes kept f.slot⟩

def bindingsOf (fetches : List VertexFetch) : List VertexBinding :=
  bindingTable (slotHeads fetches) (attributeHeads fetches)

private theorem sameLayout_comm (f g : VertexFetch) : f.sameLayout g = g.sameLayout f := by
  unfold VertexFetch.sameLayout
  simp only [Bool.beq_comm]

theorem numberedAttributes_concat (kept : List VertexFetch) (f : VertexFetch) (slot : UInt32) :
    numberedAttributes (kept ++ [f]) slot =
      numberedAttributes kept slot ++ if f.slot = slot then [⟨UInt32.ofNat kept.length, f⟩] else [] := by
  unfold numberedAttributes
  rw [List.zipIdx_append, List.filter_append, List.map_append]
  by_cases h : f.slot = slot <;> simp [h]

private theorem numberedAttributes_eq_nil {kept : List VertexFetch} {slot : UInt32} (h : ∀ f ∈ kept, f.slot ≠ slot) :
    numberedAttributes kept slot = [] := by
  unfold numberedAttributes
  rw [List.map_eq_nil_iff, List.filter_eq_nil_iff]
  intro x hx
  rw [beq_iff_eq]
  exact h x.1 (List.fst_mem_of_mem_zipIdx hx)

private theorem any_numberedAttributes (kept : List VertexFetch) (f : VertexFetch) :
    (numberedAttributes kept f.slot).any (·.fetch.sameLayout f) = kept.any (sameAttribute f) := by
  have hkept : kept.any (sameAttribute f) = kept.zipIdx.any fun x => sameAttribute f x.1 := by
    conv => lhs; rw [← List.zipIdx_map_fst 0 kept]
    rw [List.any_map]
    rfl
  rw [hkept, numberedAttributes, List.any_map, List.any_filter]
  congr 1
  funext x
  simp only [Function.comp_apply, sameAttribute, sameLayout_comm f, Bool.beq_comm]

theorem mem_bindingTable {heads kept : List VertexFetch} {v : VertexBinding} (h : v ∈ bindingTable heads kept) :
    (∃ f ∈ heads, v.slot = f.slot ∧ v.stride = f.stride) ∧ v.attributes = numberedAttributes kept v.slot := by
  obtain ⟨i, hi, rfl⟩ := List.mem_mapIdx.mp h
  exact ⟨⟨heads[i], List.getElem_mem hi, rfl, rfl⟩, rfl⟩

private theorem bindingTable_concat_heads {heads kept : List VertexFetch} {f : VertexFetch}
    (h : ∀ g ∈ kept, g.slot ≠ f.slot) :
    bindingTable (heads ++ [f]) kept =
      bindingTable heads kept ++ [⟨UInt32.ofNat heads.length, f.slot, f.stride, []⟩] := by
  rw [bindingTable, List.mapIdx_concat, numberedAttributes_eq_nil h, ← bindingTable]

private theorem bindingTable_concat_kept (heads kept : List VertexFetch) (f : VertexFetch) :
    bindingTable heads (kept ++ [f]) =
      (bindingTable heads kept).map fun v =>
        if v.slot = f.slot then { v with attributes := v.attributes ++ [⟨UInt32.ofNat kept.length, f⟩] } else v := by
  unfold bindingTable
  rw [List.mapIdx_eq_zipIdx_map, List.mapIdx_eq_zipIdx_map, List.map_map]
  refine List.map_congr_left fun x _ => ?_
  simp only [Function.comp_apply, numberedAttributes_concat]
  by_cases h : x.1.slot = f.slot
  · simp [h]
  · simp [h, Ne.symm h]

/-! Gathering. -/

namespace Bindings

/-- Bindings with a buffer for each of `heads` and an attribute for each of `kept`. -/
structure HasTable (b : Bindings) (heads kept : List VertexFetch) : Prop where
  vertex : b.vertex = bindingTable heads kept
  attributeCount : b.attributeCount = UInt32.ofNat kept.length
  slots : ∀ f ∈ kept, ∃ head ∈ heads, head.slot = f.slot

private theorem hasTable_empty : empty.HasTable [] [] := ⟨rfl, rfl, List.forall_mem_nil _⟩

private theorem hasTable_addAttribute {b : Bindings} {heads kept : List VertexFetch} {f : VertexFetch}
    {binding : VertexBinding} (h : b.HasTable heads kept) (hhead : ∃ head ∈ heads, head.slot = f.slot)
    (hslot : binding.slot = f.slot) (hattributes : binding.attributes = numberedAttributes kept f.slot) :
    (b.addAttribute f binding).HasTable heads (if kept.any (sameAttribute f) then kept else kept ++ [f]) := by
  unfold addAttribute
  rw [hattributes, any_numberedAttributes]
  by_cases hany : kept.any (sameAttribute f) = true
  · rw [if_pos hany, if_pos hany]
    exact h
  · rw [if_neg hany, if_neg hany]
    refine ⟨?_, ?_, fun g hg => ?_⟩
    · rw [bindingTable_concat_kept, h.vertex, h.attributeCount, hslot]
    · rw [h.attributeCount, List.length_append, List.length_singleton, UInt32.ofNat_add]
      rfl
    · rcases List.mem_append.mp hg with hg | hg
      · exact h.slots g hg
      · rwa [List.mem_singleton.mp hg]

private theorem HasTable.of_find?_eq_some {b : Bindings} {heads kept : List VertexFetch} {slot : UInt32}
    {binding : VertexBinding} (h : b.HasTable heads kept) (hfind : b.vertex.find? (·.slot == slot) = some binding) :
    binding.slot = slot ∧ binding.attributes = numberedAttributes kept slot ∧ ∃ head ∈ heads, head.slot = slot := by
  have hslot : binding.slot = slot := by simpa using List.find?_some hfind
  have hmem := List.mem_of_find?_eq_some hfind
  rw [h.vertex] at hmem
  obtain ⟨⟨head, hhead, heq, -⟩, hattributes⟩ := mem_bindingTable hmem
  rw [hslot] at hattributes
  exact ⟨hslot, hattributes, head, hhead, heq.symm.trans hslot⟩

private theorem HasTable.of_find?_eq_none {b : Bindings} {heads kept : List VertexFetch} {slot : UInt32}
    (h : b.HasTable heads kept) (hfind : b.vertex.find? (·.slot == slot) = none) :
    (∀ head ∈ heads, head.slot ≠ slot) ∧ ∀ f ∈ kept, f.slot ≠ slot := by
  have hheads : ∀ head ∈ heads, head.slot ≠ slot := by
    intro head hhead
    rw [h.vertex, List.find?_eq_none] at hfind
    obtain ⟨i, hi, rfl⟩ := List.mem_iff_getElem.mp hhead
    simpa using hfind _ (List.mem_mapIdx.mpr ⟨i, hi, rfl⟩)
  refine ⟨hheads, fun f hf => ?_⟩
  obtain ⟨head, hhead, heq⟩ := h.slots f hf
  rw [← heq]
  exact hheads head hhead

private theorem hasTable_addVertexFetch {b : Bindings} {heads kept : List VertexFetch} (h : b.HasTable heads kept)
    (f : VertexFetch) :
    (b.addVertexFetch f).HasTable (if heads.any (f.slot == ·.slot) then heads else heads ++ [f])
      (if kept.any (sameAttribute f) then kept else kept ++ [f]) := by
  have hany : heads.any (f.slot == ·.slot) = true ↔ ∃ head ∈ heads, head.slot = f.slot := by
    simp only [List.any_eq_true, beq_iff_eq, eq_comm (a := f.slot)]
  unfold addVertexFetch
  cases hfind : b.vertex.find? (·.slot == f.slot) with
  | some binding =>
    obtain ⟨hslot, hattributes, hhead⟩ := h.of_find?_eq_some hfind
    rw [if_pos (hany.mpr hhead)]
    dsimp only
    split
    · exact hasTable_addAttribute h hhead hslot hattributes
    · exact hasTable_addAttribute ⟨h.vertex, h.attributeCount, h.slots⟩ hhead hslot hattributes
  | none =>
    obtain ⟨hheads, hfresh⟩ := h.of_find?_eq_none hfind
    rw [if_neg fun ha => (hany.mp ha).elim fun head hhead => hheads head hhead.1 hhead.2]
    refine hasTable_addAttribute ⟨?_, h.attributeCount, fun g hg => ?_⟩ ⟨f, by simp, rfl⟩ rfl
      (numberedAttributes_eq_nil hfresh).symm
    · rw [bindingTable_concat_heads hfresh, h.vertex, bindingTable, List.length_mapIdx]
    · obtain ⟨head, hhead, heq⟩ := h.slots g hg
      exact ⟨head, List.mem_append_left _ hhead, heq⟩

def Agree (b : Bindings) (fetches : List VertexFetch) : Prop :=
  b.HasTable (slotHeads fetches) (attributeHeads fetches)

private theorem agree_empty : empty.Agree [] := hasTable_empty

private theorem Agree.of_eq {b b' : Bindings} {fetches : List VertexFetch} (h : b.Agree fetches)
    (hvertex : b'.vertex = b.vertex) (hcount : b'.attributeCount = b.attributeCount) : b'.Agree fetches :=
  ⟨hvertex.trans h.vertex, hcount.trans h.attributeCount, h.slots⟩

private theorem agree_addVertexFetch {b : Bindings} {fetches : List VertexFetch} (h : b.Agree fetches)
    (f : VertexFetch) : (b.addVertexFetch f).Agree (fetches ++ [f]) := by
  unfold Agree slotHeads attributeHeads
  rw [eraseDupsBy_concat, eraseDupsBy_concat]
  exact hasTable_addVertexFetch h f

theorem agree_addVertexWord {b : Bindings} {fetches : List VertexFetch} (h : b.Agree fetches) (op : VertexWord)
    (address : UInt32) :
    (b.addVertexWord op address).Agree
        (fetches ++ (op.resolve b.lastFull address).toOption.toList.filter VertexFetch.writesAny) ∧
      (b.addVertexWord op address).lastFull = op.remember b.lastFull := by
  refine ⟨?_, rfl⟩
  unfold addVertexWord
  dsimp only
  cases hresolve : op.resolve b.lastFull address with
  | error e =>
    simp only [Except.toOption, Option.toList_none, List.filter_nil, List.append_nil, ite_self]
    exact h.of_eq rfl rfl
  | ok f =>
    have hwrites := VertexWord.writesAny_of_resolve hresolve
    simp only [Except.toOption, Option.toList_some]
    by_cases hany : op.fetchesAnyData = true
    · rw [if_pos hany, List.filter_cons_of_pos (hwrites.trans hany), List.filter_nil]
      exact (agree_addVertexFetch h f).of_eq rfl rfl
    · rw [if_neg hany, List.filter_cons_of_neg (by rwa [hwrites]), List.filter_nil, List.append_nil]
      exact h.of_eq rfl rfl

private theorem agree_addTextureWord {b : Bindings} {fetches : List VertexFetch} (h : b.Agree fetches)
    (op : TextureWord) (address : UInt32) :
    (b.addTextureWord op address).Agree fetches ∧ (b.addTextureWord op address).lastFull = b.lastFull := by
  unfold addTextureWord addTextureFetch
  repeat' split
  all_goals exact ⟨h.of_eq rfl rfl, rfl⟩

theorem agree_addVisit {b : Bindings} {fetches : List VertexFetch} (h : b.Agree fetches) {v : Visit}
    (hv : v.isFetch = true) :
    (b.addVisit v).Agree (fetches ++ (v.vertexFetch? b.lastFull).toList.filter VertexFetch.writesAny) ∧
      (b.addVisit v).lastFull = v.remember b.lastFull := by
  unfold addVisit Visit.vertexFetch? Visit.remember
  by_cases hcode : opcodeBits v.word = Opcode.vertexFetch.code
  · simp only [hcode, hv, if_true, and_self]
    exact agree_addVertexWord h _ _
  · simp only [hcode, if_false, and_false, Option.toList_none, List.filter_nil, List.append_nil]
    exact agree_addTextureWord h _ _

theorem agree_foldl_addVisit {b : Bindings} {fetches : List VertexFetch} (h : b.Agree fetches) {vs : List Visit}
    (hvs : ∀ v ∈ vs, v.isFetch = true) :
    (vs.foldl addVisit b).Agree (fetches ++ (vertexFetchesOf b.lastFull vs).filter VertexFetch.writesAny) ∧
      (vs.foldl addVisit b).lastFull = rememberAll b.lastFull vs := by
  induction vs generalizing b fetches with
  | nil =>
    rw [vertexFetchesOf, collect, List.filter_nil, List.append_nil]
    exact ⟨h, rfl⟩
  | cons v vs ih =>
    obtain ⟨hagree, hlast⟩ := agree_addVisit h (hvs v List.mem_cons_self)
    have hrest := ih hagree fun u hu => hvs u (List.mem_cons_of_mem _ hu)
    rw [hlast, List.append_assoc, ← List.filter_append] at hrest
    exact hrest

/-- Gathering remembers what the walk over all visits remembers, and binds the fetches that the walk decodes. -/
theorem agree_gather_visits (vs : List Visit) :
    (gather (vs.filter Visit.isFetch)).Agree ((vertexFetchesOf none vs).filter VertexFetch.writesAny) ∧
      (gather (vs.filter Visit.isFetch)).lastFull = rememberAll none vs := by
  have hfetch : ∀ v ∈ vs.filter Visit.isFetch, v.isFetch = true := fun v hv => (List.mem_filter.mp hv).2
  have hagree := agree_foldl_addVisit agree_empty hfetch
  rwa [List.nil_append, empty, vertexFetchesOf_filter, rememberAll_filter] at hagree

theorem agree_gather (words : Array UInt32) (p : Program) :
    (gather (p.fetches words)).Agree ((vertexFetchesOf none (p.visits words)).filter VertexFetch.writesAny) := by
  rw [Program.fetches_eq_filter]
  exact (agree_gather_visits (p.visits words)).1

end Bindings

/-! The translation. -/

namespace Shader

variable {σ : Type}

/-- The vertex fetches that write anything, in the order in which the backend is shown them. -/
def writingVertexFetches (shader : Shader) (b : Backend σ) (settings : TranslatorSettings) (s : σ) :
    List VertexFetch :=
  (shader.shownVertexFetches b settings s).filter VertexFetch.writesAny

/-- The bindings that every call sees are those of the fetches that are shown in the course of the translation. -/
theorem vertexBindings_of_writingVertexFetches (shader : Shader) (b : Backend σ) (settings : TranslatorSettings)
    (s : σ) (h : shader.NeverAborts b settings s) :
    let fetches := shader.writingVertexFetches b settings s
    (shader.translate b settings s).shader.vertexBindings = bindingsOf fetches ∧
      (∀ c, .call c ∈ shader.requests b settings s →
        c.view.vertexBindings = bindingsOf fetches ∧
          c.view.attributeCount.toNat = (attributeHeads fetches).length) ∧
      fetches.length < UInt32.size := by
  intro fetches
  have hfetches : fetches = (vertexFetchesOf none ((Program.read shader.words).visits shader.words)).filter
      VertexFetch.writesAny := by
    unfold fetches writingVertexFetches
    rw [shownVertexFetches_eq h]
  have hagree : shader.plan.bindings.Agree fetches := by
    rw [hfetches]
    exact Bindings.agree_gather shader.words (Program.read shader.words)
  have hlength : fetches.length < UInt32.size := by
    rw [hfetches]
    calc ((vertexFetchesOf none ((Program.read shader.words).visits shader.words)).filter VertexFetch.writesAny).length
        ≤ (vertexFetchesOf none ((Program.read shader.words).visits shader.words)).length :=
          List.length_filter_le _ _
      _ ≤ ((Program.read shader.words).visits shader.words).length := length_vertexFetchesOf_le _ _
      _ < UInt32.size := Program.length_visits_lt shader.words
  refine ⟨?_, fun c hc => ?_, hlength⟩
  · rw [vertexBindings_translate]
    exact hagree.vertex
  · have hopened := (shader.seen_of_mem_requests b settings s hc).1
    have hvertex : c.view.vertexBindings = shader.plan.bindings.vertex := congrArg View.vertexBindings hopened
    have hcount : c.view.attributeCount = shader.plan.bindings.attributeCount :=
      congrArg View.attributeCount hopened
    refine ⟨hvertex.trans hagree.vertex, ?_⟩
    have hle : (attributeHeads fetches).length ≤ fetches.length := length_eraseDupsBy_le _ _
    rw [hcount, hagree.attributeCount, UInt32.toNat_ofNat_of_lt' (Nat.lt_of_le_of_lt hle hlength)]

/-- Two slots are read in turn, the second one by a mini fetch too. One layout is repeated, and one fetch writes
nothing. -/
theorem vertexBindings_of_interleaved_slots :
    let shader := Shader.new .vertex
      #[0x05556001, 0x2000, 0, 0, 0x390688, 3, 0x100000, 0x390688, 3, 0, 0x40390688, 0x100, 0, 0x390688, 0x203, 0,
        0x390688, 3, 0x200000, 0x390FFF, 3]
    let fetches := shader.writingVertexFetches .silent ⟨.proceed, false⟩ ()
    shader.NeverAborts .silent ⟨.proceed, false⟩ () ∧
      fetches.map (fun f => (f.slot, f.isMini)) = [(0, false), (3, false), (3, true), (0, false), (0, false)] ∧
      (shader.translate .silent ⟨.proceed, false⟩ ()).shader.vertexBindings = bindingsOf fetches ∧
      (bindingsOf fetches).map (fun v => (v.slot, v.attributes.map VertexAttribute.index)) =
        [(0, [0, 3]), (3, [1, 2])] ∧
      ∃ view, .call (.complete view) ∈ shader.requests .silent ⟨.proceed, false⟩ () ∧
        view.vertexBindings = bindingsOf fetches ∧ view.attributeCount.toNat = 4 := by
  intro shader fetches
  have h : shader.NeverAborts .silent ⟨.proceed, false⟩ () := shader.neverAborts_silent false
  obtain ⟨hleft, hcalls, -⟩ := vertexBindings_of_writingVertexFetches shader .silent ⟨.proceed, false⟩ () h
  have hcomplete : .call (.complete (shader.walked .silent ⟨.proceed, false⟩ ()).session.view) ∈
      shader.requests .silent ⟨.proceed, false⟩ () := by
    rw [requests_eq]
    exact List.mem_append_right _ List.mem_cons_self
  have hheads : (attributeHeads fetches).length = 4 := by decide +kernel
  obtain ⟨hview, hcount⟩ := hcalls _ hcomplete
  exact ⟨h, by decide +kernel, hleft, by decide +kernel, _, hcomplete, hview, hcount.trans hheads⟩

end Shader

end ShaderMicrocode
