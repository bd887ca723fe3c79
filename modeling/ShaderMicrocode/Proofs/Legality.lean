import ShaderMicrocode.Schedule
/-!
# Legal words

Which ALU and fetch words can be decoded, said of their fields.
-/
namespace ShaderMicrocode

/-! ALU words. -/

namespace Alu

/-- Where an exporting word of a stage may send its result. -/
def IsExportDest : Stage → UInt32 → Prop
  | .vertex, dest => dest ≤ 15 ∨ dest = 62 ∨ dest = 63 ∨ (32 ≤ dest ∧ dest ≤ 37)
  | .pixel, dest => dest ≤ 3 ∨ dest = 61 ∨ (32 ≤ dest ∧ dest ≤ 37)

private theorem isSome_shared_iff (dest : UInt32) :
    (exportTarget?.shared dest).isSome = true ↔ 32 ≤ dest ∧ dest ≤ 37 := by
  unfold exportTarget?.shared
  have hsplit : 32 ≤ dest ∧ dest ≤ 37 ↔ dest = 32 ∨ 33 ≤ dest ∧ dest ≤ 37 := by
    simp only [UInt32.le_iff_toNat_le, ← UInt32.toNat_inj, UInt32.reduceToNat]
    omega
  rw [hsplit]
  split
  · simp_all
  · split <;> simp_all

theorem isSome_exportTarget?_iff (stage : Stage) (dest : UInt32) :
    (exportTarget? stage dest).isSome = true ↔ IsExportDest stage dest := by
  cases stage <;> unfold exportTarget? IsExportDest <;> simp only [← isSome_shared_iff]
  · by_cases h15 : dest ≤ 15
    · simp [h15]
    by_cases h62 : dest = 62
    · simp [h62]
    by_cases h63 : dest = 63
    · simp [h63]
    simp [h15, h62, h63]
  · by_cases h3 : dest ≤ 3
    · simp [h3]
    by_cases h61 : dest = 61
    · simp [h61]
    simp [h3, h61]

theorem isSome_vectorOpcode {n : UInt32} (h : n.toNat < 32) : (Vector.opcodes.get? n).isSome = true := by
  have hall : ∀ i < 32, (Vector.opcodes.entries[i]?.join).isSome = true := by decide
  exact hall n.toNat h

private theorem isSome_scalarOpcode_iff {n : UInt32} (h : n.toNat < 64) :
    (Scalar.opcodes.get? n).isSome = true ↔ n ≠ 41 ∧ ¬(51 ≤ n ∧ n ≤ 63) := by
  have hall : ∀ i < 64, (Scalar.opcodes.entries[i]?.join).isSome = true ↔ i ≠ 41 ∧ ¬(51 ≤ i ∧ i ≤ 63) := by decide
  rw [Ne, ← UInt32.toNat_inj, UInt32.le_iff_toNat_le, UInt32.le_iff_toNat_le]
  exact hall n.toNat h

namespace Word

/-- An export goes to a destination of the stage, and the scalar operation, if any, exists. -/
def IsLegal (op : Word) (stage : Stage) : Prop :=
  (op.exportData = true → IsExportDest stage op.vectorDest) ∧
    (op.hasScalarOp = true → op.scalarOpcode ≠ 41 ∧ ¬(51 ≤ op.scalarOpcode ∧ op.scalarOpcode ≤ 63))

private theorem isOk_result_iff (op : Word) (stage : Stage) (reg : UInt32) (isRelative : Bool) (mask : UInt32)
    (isClamped : Bool) :
    (op.result stage reg isRelative mask isClamped).isOk = true ↔
      (op.exportData = true → IsExportDest stage op.vectorDest) := by
  unfold result
  rw [← isSome_exportTarget?_iff]
  cases hexport : op.exportData with
  | false => simp [Except.isOk, Except.toBool]
  | true => cases htarget : exportTarget? stage op.vectorDest <;> simp [Except.isOk, Except.toBool]

theorem isOk_vector_iff {op : Word} (h : op.vectorOpcode.toNat < 32) (stage : Stage) (address : UInt32) :
    (op.vector Vector.opcodes stage address).isOk = true ↔
      (op.exportData = true → IsExportDest stage op.vectorDest) := by
  unfold vector
  obtain ⟨info, hinfo⟩ := Option.isSome_iff_exists.mp (isSome_vectorOpcode h)
  rw [hinfo, ← op.isOk_result_iff stage op.vectorDest op.vectorDestRelative op.vectorWriteMask op.vectorClamp]
  show ((op.vectorResult stage).map _).isOk = true ↔ (op.vectorResult stage).isOk = true
  cases op.vectorResult stage <;> rfl

theorem isOk_scalar_iff {op : Word} (h : op.scalarOpcode.toNat < 64) (stage : Stage) (address : UInt32) :
    (op.scalar Scalar.opcodes stage address).isOk = true ↔
      (op.exportData = true → IsExportDest stage op.vectorDest) ∧
        op.scalarOpcode ≠ 41 ∧ ¬(51 ≤ op.scalarOpcode ∧ op.scalarOpcode ≤ 63) := by
  unfold scalar
  rw [← isSome_scalarOpcode_iff h,
    ← op.isOk_result_iff stage op.scalarDest op.scalarDestRelative op.scalarWriteMask op.scalarClamp]
  show _ ↔ (op.scalarResult stage).isOk = true ∧ _
  cases Scalar.opcodes.get? op.scalarOpcode with
  | none => simp [Except.isOk, Except.toBool]
  | some info => cases op.scalarResult stage <;> simp [Except.map, Except.isOk, Except.toBool]

/-- An export needs a vector operation, so its destination is looked at in every exporting word. -/
theorem isOk_halves_iff (t : Triple) (stage : Stage) (address : UInt32) :
    (∀ half ∈ (decode t).halves stage address, half.isOk = true) ↔ (decode t).IsLegal stage := by
  have hvector : ((decode t).vector Vector.opcodes stage address).isOk = true ↔ _ :=
    isOk_vector_iff (BitField.toNat_read_lt Field.vectorOpcode t.d2) stage address
  have hscalar : ((decode t).scalar Scalar.opcodes stage address).isOk = true ↔ _ :=
    isOk_scalar_iff (BitField.toNat_read_lt Field.scalarOpcode t.d0) stage address
  generalize decode t = op at *
  have hexport : op.hasVectorOp = false → op.exportData = false := by
    unfold hasVectorOp
    cases op.exportData <;> simp
  unfold halves IsLegal
  cases hv : op.hasVectorOp <;> cases hs : op.hasScalarOp
  · simp [hexport hv, Except.isOk, Except.toBool]
  · simp [hscalar]
  · simp [hvector]
  · simp [hvector, hscalar]

end Word

end Alu

/-! Fetch words. -/

namespace Fetch

def textureCodes : List UInt32 := [1, 16, 17, 18, 19, 24, 25, 26]

theorem TextureWord.isOk_resolve_iff (op : TextureWord) (address : UInt32) :
    (op.resolve address).isOk = true ↔ op.opcode ∈ textureCodes := by
  unfold resolve
  have hcodes : op.opcode ∈ textureCodes ↔ ∃ o, o ≠ .vertexFetch ∧ Opcode.ofCode? op.opcode = some o := by
    constructor
    · intro h
      simp only [textureCodes, List.mem_cons, List.not_mem_nil, or_false] at h
      rcases h with h | h | h | h | h | h | h | h <;> rw [h]
      all_goals exact ⟨_, by decide, rfl⟩
    · rintro ⟨o, ho, h⟩
      rw [← Opcode.code_of_ofCode? h]
      cases o <;> first | exact absurd rfl ho | decide
  rw [hcodes]
  cases h : Opcode.ofCode? op.opcode with
  | none => simp [Except.isOk, Except.toBool]
  | some o => cases o <;> simp [Except.isOk, Except.toBool]

theorem VertexWord.isOk_resolve_iff (op : VertexWord) (last : Option VertexWord) (address : UInt32) :
    (op.resolve last address).isOk = true ↔
      (∃ f : VertexFormat, f.code = op.format) ∧ (op.isMiniFetch = true → last ≠ none) := by
  have hformat : (∃ f : VertexFormat, f.code = op.format) ↔ ∃ f, VertexFormat.ofCode? op.format = some f := by
    constructor
    · rintro ⟨f, h⟩
      exact ⟨f, by rw [← h, VertexFormat.ofCode?_code]⟩
    · rintro ⟨f, h⟩
      exact ⟨f, VertexFormat.code_of_ofCode? h⟩
  rw [hformat]
  unfold resolve base
  cases VertexFormat.ofCode? op.format <;> cases op.isMiniFetch <;> cases last <;>
    simp [Except.isOk, Except.toBool]

end Fetch

end ShaderMicrocode
