import ShaderMicrocode.Proofs.BoundTextures
import ShaderMicrocode.Proofs.MiniFetches
/-!
# Fetch constant slots

A texture fetch names one of 32 slots. A vertex fetch names one of 96, except that the last constant with the selector
that none of its three slots has leads to slot 96.
-/
namespace ShaderMicrocode

open Fetch

/-! Words. -/

namespace Fetch.VertexWord

/-- The word names a fourth slot in the last fetch constant. -/
def IsPastTable (op : VertexWord) : Prop := op.constIndex = 31 ∧ op.constIndexSelect = 3

instance (op : VertexWord) : Decidable op.IsPastTable := inferInstanceAs (Decidable (_ ∧ _))

theorem toNat_slot_decode (t : Triple) :
    (decode t).slot.toNat = 3 * (decode t).constIndex.toNat + (decode t).constIndexSelect.toNat ∧
      (decode t).constIndex.toNat < 32 ∧ (decode t).constIndexSelect.toNat < 4 := by
  have hindex : (decode t).constIndex.toNat < 32 := VertexField.constIndex.toNat_read_lt t.d0
  have hselect : (decode t).constIndexSelect.toNat < 4 := VertexField.constIndexSelect.toNat_read_lt t.d0
  refine ⟨?_, hindex, hselect⟩
  have hthree : (3 : UInt32).toNat = 3 := rfl
  rw [slot, UInt32.toNat_add, UInt32.toNat_mul, hthree]
  omega

/-- The slot of a word lies in the table unless it is past its end, and then directly behind it. -/
theorem slot_decode_le (t : Triple) :
    (decode t).slot ≤ 95 ∨ (decode t).slot = 96 ∧ (decode t).IsPastTable := by
  obtain ⟨hslot, hindex, hselect⟩ := toNat_slot_decode t
  by_cases hpast : (decode t).constIndex.toNat = 31 ∧ (decode t).constIndexSelect.toNat = 3
  · refine .inr ⟨?_, UInt32.toNat_inj.mp hpast.1, UInt32.toNat_inj.mp hpast.2⟩
    rw [← UInt32.toNat_inj, hslot, hpast.1, hpast.2]
    rfl
  · refine .inl ?_
    rw [UInt32.le_iff_toNat_le, hslot]
    show _ ≤ 95
    omega

private theorem slot_of_resolve {op : VertexWord} {last : Option VertexWord} {address : UInt32} {f : VertexFetch}
    (h : op.resolve last address = .ok f) : ∃ base, op.base last = .ok base ∧ f.slot = base.slot := by
  unfold resolve at h
  split at h
  case h_1 => cases h
  case h_2 base hbase =>
    split at h
    · cases h
    · cases h
      exact ⟨base, hbase, rfl⟩

/-- Mini fetches have the slot of the full fetch before them, and full fetches their own. -/
theorem base_cases {op base : VertexWord} {last : Option VertexWord} (h : op.base last = .ok base) :
    (op.isMiniFetch = true ∧ last = some base) ∨ (op.isMiniFetch = false ∧ op = base) := by
  unfold VertexWord.base at h
  split at h
  case isTrue hm =>
    cases last with
    | none => cases h
    | some full => exact .inl ⟨hm, congrArg some (Except.ok.inj h)⟩
  case isFalse hm => exact .inr ⟨Bool.not_eq_true _ ▸ hm, Except.ok.inj h⟩

end Fetch.VertexWord

/-! Visits. -/

private theorem eq_ok_of_toOption {ε α : Type} {x : Except ε α} {a : α} (h : x.toOption = some a) : x = .ok a := by
  cases x with
  | error e => cases h
  | ok b => exact congrArg Except.ok (Option.some.inj h)

theorem mem_of_lastFullFetch {before : List Visit} {full : VertexWord} (h : lastFullFetch before = some full) :
    ∃ v ∈ before, v.fullFetch? = some full := List.mem_filterMap.mp (List.mem_of_getLast? h)

theorem Visit.decode_of_fullFetch? {v : Visit} {full : VertexWord} (h : v.fullFetch? = some full) :
    VertexWord.decode v.word = full := (Visit.of_vertexWord? (Option.filter_eq_some_iff.mp h).1).2

theorem Visit.resolve_of_vertexFetch? {v : Visit} {last : Option VertexWord} {f : VertexFetch}
    (h : v.vertexFetch? last = some f) :
    ∃ op, v.vertexWord? = some op ∧ op.resolve last v.address = .ok f := by
  unfold vertexFetch? at h
  split at h
  case isTrue hword => exact ⟨.decode v.word, if_pos hword, eq_ok_of_toOption h⟩
  case isFalse => cases h

private theorem Visit.resolve_of_textureFetch? {v : Visit} {f : TextureFetch} (h : v.textureFetch? = some f) :
    (TextureWord.decode v.word).resolve v.address = .ok f := by
  unfold textureFetch? at h
  split at h
  case isTrue => exact eq_ok_of_toOption h
  case isFalse => cases h

/-- The slot of every vertex fetch is that of a full fetch among the visits. -/
private theorem exists_fullFetch?_of_mem {vs : List Visit} {f : VertexFetch} (h : f ∈ vertexFetchesOf none vs) :
    ∃ v ∈ vs, ∃ full, v.fullFetch? = some full ∧ f.slot = full.slot := by
  obtain ⟨before, v, after, rfl, hf⟩ := mem_collect _ _ h
  obtain ⟨op, hword, hresolve⟩ := Visit.resolve_of_vertexFetch? (Option.mem_toList.mp hf)
  obtain ⟨base, hbase, hslot⟩ := VertexWord.slot_of_resolve hresolve
  -- a mini fetch takes its slot from an earlier visit, a full fetch has its own
  rcases VertexWord.base_cases hbase with ⟨-, hlast⟩ | ⟨hm, rfl⟩
  · have hfull : lastFullFetch before = some base := (rememberAll_lastFullFetch [] before).symm.trans hlast
    obtain ⟨u, hu, hbase⟩ := mem_of_lastFullFetch hfull
    exact ⟨u, List.mem_append_left _ hu, base, hbase, hslot⟩
  · have hfull : v.fullFetch? = some op := by
      rw [Visit.fullFetch?, hword, Option.filter_some, hm]
      rfl
    exact ⟨v, List.mem_append_right _ List.mem_cons_self, op, hfull, hslot⟩

/-- A slot inside the table, or the one behind it with the visit that leads there. -/
def IsVertexSlot (visits : List Visit) (slot : UInt32) : Prop :=
  slot ≤ 95 ∨ slot = 96 ∧ ∃ v ∈ visits, ∃ full, v.fullFetch? = some full ∧ full.IsPastTable

theorem isVertexSlot_of_mem {vs : List Visit} {f : VertexFetch} (h : f ∈ vertexFetchesOf none vs) :
    IsVertexSlot vs f.slot := by
  obtain ⟨v, hv, full, hfull, hslot⟩ := exists_fullFetch?_of_mem h
  have hdecode : VertexWord.decode v.word = full := Visit.decode_of_fullFetch? hfull
  have hle := VertexWord.slot_decode_le v.word
  rw [hdecode] at hle
  rw [hslot]
  rcases hle with hle | ⟨hslot, hpast⟩
  · exact .inl hle
  · exact .inr ⟨hslot, v, hv, full, hfull, hpast⟩

private theorem Fetch.TextureWord.slot?_of_resolve {op : TextureWord} {address : UInt32} {f : TextureFetch}
    (h : op.resolve address = .ok f) {slot : UInt32} (hslot : f.slot? = some slot) : slot = op.constIndex := by
  have hfetch (o : Opcode) (hs : (op.fetch o address).slot? = some slot) : slot = op.constIndex := by
    unfold fetch at hs
    dsimp only at hs
    split at hs
    · cases hs
    · exact (Option.some.inj hs).symm
  unfold resolve at h
  split at h
  · cases h
  · cases h
  · cases h
    exact hfetch _ hslot

theorem slot_le_of_textureFetch? {v : Visit} {f : TextureFetch} (h : v.textureFetch? = some f) {slot : UInt32}
    (hslot : f.slot? = some slot) : slot ≤ 31 := by
  have hindex : (TextureWord.decode v.word).constIndex.toNat < 32 := TextureField.constIndex.toNat_read_lt v.word.d0
  have hconst : slot = (TextureWord.decode v.word).constIndex :=
    TextureWord.slot?_of_resolve (Visit.resolve_of_textureFetch? h) hslot
  rw [hconst, UInt32.le_iff_toNat_le]
  exact Nat.le_of_lt_succ hindex

private theorem slot?_of_bound? {f : TextureFetch} {x : UInt32 × TextureFetch} (h : f.bound? = some x) :
    x.2 = f ∧ x.2.slot? = some x.1 := by
  obtain ⟨slot, hslot, hx⟩ := Option.bind_eq_some_iff.mp h
  split at hx
  · cases hx
  · cases hx
    exact ⟨rfl, hslot⟩

/-! Bindings. -/

private theorem mem_bindingsOf {fetches : List VertexFetch} {v : VertexBinding} (h : v ∈ bindingsOf fetches) :
    (∃ f ∈ fetches, v.slot = f.slot) ∧ ∀ a ∈ v.attributes, a.fetch ∈ fetches ∧ a.fetch.slot = v.slot := by
  obtain ⟨⟨f, hf, hslot, -⟩, hattributes⟩ := mem_bindingTable h
  refine ⟨⟨f, mem_of_mem_eraseDupsBy hf, hslot⟩, fun a ha => ?_⟩
  rw [hattributes] at ha
  obtain ⟨x, hx, rfl⟩ := List.mem_map.mp ha
  obtain ⟨hmem, hslot⟩ := List.mem_filter.mp hx
  exact ⟨mem_of_mem_eraseDupsBy (List.fst_mem_of_mem_zipIdx hmem), beq_iff_eq.mp hslot⟩

private theorem mem_textureBindingsOf {bound : List (UInt32 × TextureFetch)} {t : TextureBinding}
    (h : t ∈ textureBindingsOf bound) : (t.slot, t.fetch) ∈ bound := by
  obtain ⟨i, hi, rfl⟩ := List.mem_mapIdx.mp h
  exact mem_of_mem_eraseDupsBy (List.getElem_mem hi)

/-! The translation. -/

namespace Shader

variable {σ : Type}

/-- In every run the slots of textures lie inside their table, and so do those of vertex buffers unless a full fetch
names the last constant with the selector three. The fetches of a binding have its slot. -/
theorem fetch_slots_in_tables (shader : Shader) (b : Backend σ) (settings : TranslatorSettings) (s : σ) :
    let visits := (Program.read shader.words).visits shader.words
    let left := (shader.translate b settings s).shader
    (∀ f ∈ shader.shownVertexFetches b settings s, IsVertexSlot visits f.slot) ∧
      (∀ v ∈ left.vertexBindings, IsVertexSlot visits v.slot ∧ ∀ a ∈ v.attributes, a.fetch.slot = v.slot) ∧
      (∀ f ∈ shader.shownTextureFetches b settings s, ∀ slot ∈ f.slot?, slot ≤ 31) ∧
      (∀ t ∈ left.textureBindings, t.slot ≤ 31 ∧ t.fetch.slot? = some t.slot) ∧
      ∀ c, .call c ∈ shader.requests b settings s →
        c.view.vertexBindings = left.vertexBindings ∧ c.view.textureBindings = left.textureBindings := by
  intro visits left
  have hvertex : left.vertexBindings = bindingsOf ((vertexFetchesOf none visits).filter VertexFetch.writesAny) :=
    (vertexBindings_translate ..).trans (Bindings.agree_gather shader.words (Program.read shader.words)).vertex
  have htexture : left.textureBindings = textureBindingsOf (visits.filterMap Visit.bound?) :=
    (textureBindings_translate ..).trans (Bindings.binds_gather shader.words (Program.read shader.words)).texture
  refine ⟨fun f hf => ?_, fun v hv => ?_, fun f hf slot hslot => ?_, fun t ht => ?_, fun c hc => ?_⟩
  · exact isVertexSlot_of_mem ((shader.shownVertexFetches_prefix b settings s).subset hf)
  · rw [hvertex] at hv
    obtain ⟨⟨f, hf, hslot⟩, hattributes⟩ := mem_bindingsOf hv
    refine ⟨?_, fun a ha => (hattributes a ha).2⟩
    rw [hslot]
    exact isVertexSlot_of_mem (List.mem_of_mem_filter hf)
  · obtain ⟨v, -, hv⟩ := List.mem_filterMap.mp ((shader.shownTextureFetches_prefix b settings s).subset hf)
    exact slot_le_of_textureFetch? hv hslot
  · rw [htexture] at ht
    obtain ⟨v, -, hbound⟩ := List.mem_filterMap.mp (mem_textureBindingsOf ht)
    obtain ⟨f, hf, hx⟩ := Option.bind_eq_some_iff.mp hbound
    obtain ⟨rfl, hslot⟩ := slot?_of_bound? hx
    exact ⟨slot_le_of_textureFetch? hf hslot, hslot⟩
  · have hopened := (shader.seen_of_mem_requests b settings s hc).1
    have hviewVertex : c.view.vertexBindings = shader.plan.bindings.vertex := congrArg View.vertexBindings hopened
    have hviewTexture : c.view.textureBindings = shader.plan.bindings.texture :=
      congrArg View.textureBindings hopened
    exact ⟨hviewVertex.trans (vertexBindings_translate ..).symm,
      hviewTexture.trans (textureBindings_translate ..).symm⟩

/-- The last constant with the selector three is bound to a slot behind the table. -/
theorem vertex_slot_behind_table :
    let shader := Shader.new .vertex #[0x11001, 0x2000, 0, 0x7f00000, 0x390688, 3]
    (shader.translate .silent ⟨.proceed, false⟩ ()).shader.vertexBindings.map VertexBinding.slot = [96] ∧
      (shader.shownVertexFetches .silent ⟨.proceed, false⟩ ()).map VertexFetch.slot = [96] := by
  decide +kernel

/-- A full fetch that writes nothing names the slot behind the table, and a mini fetch of the next block takes it
over. -/
theorem fetch_slots_of_inherited_slot :
    let full : Visit := ⟨1, true, 0x7f00000, 0x390fff, 3⟩
    let mini : Visit := ⟨2, true, 0, 0x40390688, 0⟩
    let shader := Shader.new .vertex
      #[0x11001, 0x10021000, 0x20000001, 0x7f00000, 0x390fff, 3, 0, 0x40390688, 0]
    let left := (shader.translate .silent ⟨.proceed, false⟩ ()).shader
    (Program.read shader.words).visits shader.words = [full, mini] ∧
      (∀ v ∈ left.vertexBindings, IsVertexSlot [full, mini] v.slot) ∧
      left.vertexBindings.map VertexBinding.slot = [96] := by
  intro full mini shader left
  have hvisits : (Program.read shader.words).visits shader.words = [full, mini] := by decide +kernel
  obtain ⟨-, hbindings, -⟩ := fetch_slots_in_tables shader .silent ⟨.proceed, false⟩ ()
  rw [hvisits] at hbindings
  exact ⟨hvisits, fun v hv => (hbindings v hv).1, by decide +kernel⟩

end Shader

end ShaderMicrocode
