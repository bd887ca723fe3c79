import ShaderMicrocode.Proofs.AluCodec
import ShaderMicrocode.Proofs.FetchCodec
import ShaderMicrocode.Proofs.Slots
/-!
# Decoded words

What an instruction is made of, once its word has been decoded: the fields of the word, the entry of its table and, for
a mini fetch, the fields of an earlier word. All of these come from triples and fit their fields.
-/
namespace ShaderMicrocode

open Fetch

/-! Fields. -/

theorem BitField.width_le {f : BitField} (hf : f.Fits) : f.width ≤ 32 := Nat.le_trans (Nat.le_add_left _ _) hf.2

theorem BitField.toInt_readSigned (f : BitField) (hf : f.Fits) (w : UInt32) :
    (f.readSigned w).toInt = Int.bmod (f.read w).toNat (2 ^ f.width) := by
  rw [readSigned, size_eq]
  exact toInt_ofInt_bmod (width_le hf) _

theorem BitField.inSigned_readSigned (f : BitField) (hf : f.Fits) (w : UInt32) : InSigned f.width (f.readSigned w) := by
  rw [← wrapSigned_eq_self_iff hf.1 (width_le hf), ← Int32.toInt_inj, toInt_wrapSigned (width_le hf),
    f.toInt_readSigned hf, Int.bmod_bmod]

theorem Fetch.VertexWord.inRange_decode (t : Triple) : (decode t).InRange where
  srcReg := VertexField.srcReg.toNat_read_lt t.d0
  dstReg := VertexField.dstReg.toNat_read_lt t.d0
  constIndex := VertexField.constIndex.toNat_read_lt t.d0
  constIndexSelect := VertexField.constIndexSelect.toNat_read_lt t.d0
  prefetchCount := VertexField.prefetchCount.toNat_read_lt t.d0
  srcSwizzle := VertexField.srcSwizzle.toNat_read_lt t.d0
  dstSwizzle := VertexField.dstSwizzle.toNat_read_lt t.d1
  format := VertexField.format.toNat_read_lt t.d1
  expAdjust := VertexField.expAdjust.inSigned_readSigned (by decide) t.d1
  stride := VertexField.stride.toNat_read_lt t.d2
  offset := VertexField.offset.inSigned_readSigned (by decide) t.d2

theorem Fetch.TextureWord.inRange_decode (t : Triple) : (decode t).InRange where
  opcode := opcodeField.toNat_read_lt t.d0
  srcReg := TextureField.srcReg.toNat_read_lt t.d0
  dstReg := TextureField.dstReg.toNat_read_lt t.d0
  constIndex := TextureField.constIndex.toNat_read_lt t.d0
  srcSwizzle := TextureField.srcSwizzle.toNat_read_lt t.d0
  dstSwizzle := TextureField.dstSwizzle.toNat_read_lt t.d1
  magFilter := TextureField.magFilter.toNat_read_lt t.d1
  minFilter := TextureField.minFilter.toNat_read_lt t.d1
  mipFilter := TextureField.mipFilter.toNat_read_lt t.d1
  anisoFilter := TextureField.anisoFilter.toNat_read_lt t.d1
  arbitraryFilter := TextureField.arbitraryFilter.toNat_read_lt t.d1
  volMagFilter := TextureField.volMagFilter.toNat_read_lt t.d1
  volMinFilter := TextureField.volMinFilter.toNat_read_lt t.d1
  sampleLocation := TextureField.sampleLocation.toNat_read_lt t.d2
  lodBias := TextureField.lodBias.inSigned_readSigned (by decide) t.d2
  dimension := TextureField.dimension.toNat_read_lt t.d2
  offsetX := TextureField.offsetX.inSigned_readSigned (by decide) t.d2
  offsetY := TextureField.offsetY.inSigned_readSigned (by decide) t.d2
  offsetZ := TextureField.offsetZ.inSigned_readSigned (by decide) t.d2

/-! Halves. -/

theorem Alu.OpcodeTable.mem_of_get? {t : OpcodeTable} {opcode : UInt32} {info : OpcodeInfo}
    (h : t.get? opcode = some info) : some info ∈ t.entries :=
  List.mem_of_getElem? (Option.join_eq_some_iff.mp h)

namespace Alu.Word

variable {op : Word} {stage : Stage} {address : UInt32}

def vectorOperands (op : Word) (info : OpcodeInfo) : List Operand :=
  (List.range info.argumentCount.toNat).map fun i => op.operand (i + 1) info.componentCount

def scalarOperands (op : Word) (info : OpcodeInfo) : List Operand :=
  if info.argumentCount = 0 then []
  else if info.argumentCount = 1 then [op.operand 3 info.componentCount]
  else op.constantAndRegister

/-- A decoded half of the word: neither operation, the vector operation or the scalar operation. -/
inductive IsHalf (op : Word) (stage : Stage) (address : UInt32) : Instruction → Prop
  | nop : IsHalf op stage address (op.nop address)
  | vector (info : OpcodeInfo) (r : Result) (hinfo : Vector.opcodes.get? op.vectorOpcode = some info)
      (hresult : op.vectorResult stage = .ok r) :
      IsHalf op stage address (op.instruction .vector address info.name r (op.vectorOperands info))
  | scalar (info : OpcodeInfo) (r : Result) (hinfo : Scalar.opcodes.get? op.scalarOpcode = some info)
      (hresult : op.scalarResult stage = .ok r) :
      IsHalf op stage address (op.instruction .scalar address info.name r (op.scalarOperands info))

theorem ok_vector_iff {i : Instruction} :
    op.vector Vector.opcodes stage address = .ok i ↔ ∃ info r, Vector.opcodes.get? op.vectorOpcode = some info ∧
      op.vectorResult stage = .ok r ∧ op.instruction .vector address info.name r (op.vectorOperands info) = i := by
  unfold vector vectorOperands
  cases Vector.opcodes.get? op.vectorOpcode <;> cases op.vectorResult stage <;> simp [Except.map]

theorem ok_scalar_iff {i : Instruction} :
    op.scalar Scalar.opcodes stage address = .ok i ↔ ∃ info r, Scalar.opcodes.get? op.scalarOpcode = some info ∧
      op.scalarResult stage = .ok r ∧ op.instruction .scalar address info.name r (op.scalarOperands info) = i := by
  unfold scalar scalarOperands
  cases Scalar.opcodes.get? op.scalarOpcode <;> cases op.scalarResult stage <;> simp [Except.map]

theorem isHalf_of_mem {i : Instruction} (h : .ok i ∈ op.halves stage address) : op.IsHalf stage address i := by
  rcases cases_of_mem_halves h with h | h | h
  · obtain ⟨info, r, hinfo, hresult, rfl⟩ := ok_vector_iff.mp h.symm
    exact .vector info r hinfo hresult
  · obtain ⟨info, r, hinfo, hresult, rfl⟩ := ok_scalar_iff.mp h.symm
    exact .scalar info r hinfo hresult
  · cases h
    exact .nop

/-- What holds of `nop` and of all names in the tables holds of the name of every half. -/
theorem IsHalf.name_of_tables {P : String → Prop} {i : Instruction} (h : op.IsHalf stage address i) (hnop : P "nop")
    (htables : ∀ entry ∈ Vector.opcodes.entries ++ Scalar.opcodes.entries, ∀ info ∈ entry, P info.name) :
    P i.name := by
  cases h with
  | nop => exact hnop
  | vector info r hinfo => exact htables _ (List.mem_append_left _ (OpcodeTable.mem_of_get? hinfo)) info rfl
  | scalar info r hinfo => exact htables _ (List.mem_append_right _ (OpcodeTable.mem_of_get? hinfo)) info rfl

/-- A half stores to the destination of an export, or to the register of its own. -/
theorem ok_result {reg mask : UInt32} {isRelative isClamped : Bool} {r : Result}
    (h : op.result stage reg isRelative mask isClamped = .ok r) :
    (∃ target index, op.exportData = true ∧ exportTarget? stage op.vectorDest = some (target, index) ∧
        r = { Result.storing target index .absolute with mask := .ofBits mask, isClamped }) ∨
      op.exportData = false ∧ r = { Result.register reg isRelative with mask := .ofBits mask, isClamped } := by
  unfold result at h
  split at h
  case isTrue hexport =>
    split at h
    case h_1 target index htarget => exact .inl ⟨target, index, hexport, htarget, (Except.ok.inj h).symm⟩
    case h_2 => cases h
  case isFalse hexport => exact .inr ⟨Bool.not_eq_true _ ▸ hexport, (Except.ok.inj h).symm⟩

end Alu.Word

/-! Fetches. -/

theorem Fetch.VertexWord.ok_resolve {op : VertexWord} {last : Option VertexWord} {address : UInt32} {f : VertexFetch}
    (h : op.resolve last address = .ok f) :
    ∃ base format, op.base last = .ok base ∧ f = op.fetch base format address := by
  unfold resolve at h
  split at h
  case h_1 => cases h
  case h_2 base hbase =>
    split at h
    case h_1 => cases h
    case h_2 format _ => exact ⟨base, format, hbase, (Except.ok.inj h).symm⟩

theorem Fetch.TextureWord.ok_resolve {op : TextureWord} {address : UInt32} {f : TextureFetch}
    (h : op.resolve address = .ok f) : ∃ o, o ≠ .vertexFetch ∧ f = op.fetch o address := by
  unfold resolve at h
  split at h
  case h_1 => cases h
  case h_2 => cases h
  case h_3 o hne _ => exact ⟨o, fun ho => hne (ho ▸ rfl), (Except.ok.inj h).symm⟩

/-! Visits. -/

/-- Some visited word is decoded to what an event shows. -/
inductive IsShown (stage : Stage) (vs : List Visit) : Event → Prop
  | vertexFetch (v : Visit) (base : VertexWord) (format : VertexFormat) (hv : v ∈ vs) (hbase : base.InRange) :
      IsShown stage vs (.vertexFetch ((VertexWord.decode v.word).fetch base format v.address))
  | textureFetch (v : Visit) (o : Opcode) (hv : v ∈ vs) (ho : o ≠ .vertexFetch) :
      IsShown stage vs (.textureFetch ((TextureWord.decode v.word).fetch o v.address))
  | alu (v : Visit) (i : Alu.Instruction) (hv : v ∈ vs) (hfetch : v.isFetch = false)
      (hi : .ok i ∈ (Alu.Word.decode v.word).halves stage v.address) : IsShown stage vs (.alu i)

private theorem inRange_of_base {v : Visit} {before : List Visit} {base : VertexWord}
    (h : (VertexWord.decode v.word).base (lastFullFetch before) = .ok base) : base.InRange := by
  rcases VertexWord.base_cases h with ⟨-, hlast⟩ | ⟨-, rfl⟩
  · obtain ⟨u, -, hfull⟩ := mem_of_lastFullFetch hlast
    rw [← Visit.decode_of_fullFetch? hfull]
    exact VertexWord.inRange_decode u.word
  · exact VertexWord.inRange_decode v.word

private theorem isShown_of_told {stage : Stage} {vs before : List Visit} {v : Visit} (hv : v ∈ vs) {e : Event}
    (h : .event e ∈ v.told stage (lastFullFetch before)) : IsShown stage vs e := by
  by_cases hfetch : v.isFetch = true
  · by_cases hcode : opcodeBits v.word = Opcode.vertexFetch.code
    · rw [v.told_of_vertexFetch stage _ hfetch hcode, List.mem_singleton] at h
      cases hresolve : (VertexWord.decode v.word).resolve (lastFullFetch before) v.address with
      | error d =>
        rw [hresolve] at h
        cases h
      | ok f =>
        rw [hresolve] at h
        cases h
        obtain ⟨base, format, hbase, rfl⟩ := VertexWord.ok_resolve hresolve
        exact .vertexFetch v base format hv (inRange_of_base hbase)
    · rw [v.told_of_textureFetch stage _ hfetch hcode, List.mem_singleton] at h
      cases hresolve : (TextureWord.decode v.word).resolve v.address with
      | error d =>
        rw [hresolve] at h
        cases h
      | ok f =>
        rw [hresolve] at h
        cases h
        obtain ⟨o, ho, rfl⟩ := TextureWord.ok_resolve hresolve
        exact .textureFetch v o hv ho
  · rw [v.told_of_alu stage _ hfetch] at h
    rcases mem_halfNotices h with ⟨d, -, hd⟩ | ⟨i, hi, he⟩
    · cases hd
    · cases he
      exact .alu v i hv (Bool.not_eq_true _ ▸ hfetch) hi

def Notice.wordEvent? : Notice → Option Event
  | event e => if e.concernsWord then some e else none
  | _ => none

theorem Notice.wordEvent?_eq_some_iff {n : Notice} {e : Event} :
    n.wordEvent? = some e ↔ n = .event e ∧ e.concernsWord = true := by
  cases n with
  | event x =>
    rw [wordEvent?, Notice.event.injEq, ite_eq_iff]
    constructor
    · rintro (⟨hx, he⟩ | ⟨-, he⟩)
      · cases he
        exact ⟨rfl, hx⟩
      · cases he
    · rintro ⟨rfl, hx⟩
      exact .inl ⟨hx, rfl⟩
  | _ => simp [wordEvent?]

theorem Notice.seesWordsOnly_wordEvent? : SeesWordsOnly wordEvent? := by
  intro n hn
  cases n with
  | event e =>
    have he : e.concernsWord = false := hn
    simp [wordEvent?, he]
  | _ => rfl

namespace Shader

variable {σ : Type}

theorem isShown_of_visitsSeen {shader : Shader} {e : Event} (h : e ∈ shader.visitsSeen Notice.wordEvent?) :
    IsShown shader.stage ((Program.read shader.words).visits shader.words) e := by
  obtain ⟨before, v, after, hvisits, he⟩ := mem_collect _ _ h
  obtain ⟨n, hn, he⟩ := List.mem_filterMap.mp he
  obtain ⟨rfl, -⟩ := Notice.wordEvent?_eq_some_iff.mp he
  have hlast : rememberAll none before = lastFullFetch before := rememberAll_lastFullFetch [] before
  rw [hlast] at hn
  exact isShown_of_told (hvisits ▸ List.mem_append_right _ List.mem_cons_self) hn

/-- The words that a backend is shown are those of visits. -/
theorem isShown_of_mem_notices {shader : Shader} {b : Backend σ} {settings : TranslatorSettings} {s : σ} {e : Event}
    (h : .event e ∈ shader.notices b settings s) (he : e.concernsWord = true) :
    IsShown shader.stage ((Program.read shader.words).visits shader.words) e := by
  have hseen : e ∈ (shader.notices b settings s).filterMap Notice.wordEvent? :=
    List.mem_filterMap.mpr ⟨.event e, h, Notice.wordEvent?_eq_some_iff.mpr ⟨rfl, he⟩⟩
  exact isShown_of_visitsSeen ((shader.seen_prefix b settings s Notice.seesWordsOnly_wordEvent?).subset hseen)

end Shader

end ShaderMicrocode
