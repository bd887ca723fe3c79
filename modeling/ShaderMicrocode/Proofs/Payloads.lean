import ShaderMicrocode.Proofs.Arithmetic
import ShaderMicrocode.Proofs.Entries
import ShaderMicrocode.Proofs.Labels
import ShaderMicrocode.Proofs.ControlFlowCodec
/-!
# Payloads

Whatever the microcode, a backend can rely on the shape of what it is shown: registers and constants lie inside their
files, exports are those of the stage, and operands are as many and as wide as the kind of instruction asks for.
-/
namespace ShaderMicrocode

open ControlFlow Fetch

/-! Operands and results. -/

/-- One of the 64 registers, named as it is or by the loop counter. -/
structure IsRegister (index : UInt32) (a : Addressing) : Prop where
  index_lt : index < 64
  addressing_ne : a ≠ .addressRegister

/-- A component of the source, and not a constant. -/
def Component.IsOfSource (c : Component) : Prop := c ≠ .zero ∧ c ≠ .one

/-- Components of the source are read at the first `n` positions, and the others keep their own. -/
structure Swizzle.Reads (s : Swizzle) (n : Nat) : Prop where
  isOfSource : ∀ c ∈ s.toList, c.IsOfSource
  identity : s.toList.drop n = Swizzle.identity.toList.drop n

namespace Operand

/-- A register, or one of the 256 float constants however it is addressed. -/
inductive IsAluSource (o : Operand) : Prop
  | register (hsource : o.source = .register) (h : IsRegister o.index o.addressing)
  | floatConstant (hsource : o.source = .floatConstant) (h : o.index < 256)

structure IsAluOperand (o : Operand) : Prop where
  source : o.IsAluSource
  reads : o.swizzle.Reads o.count.toNat

/-- A register as it is. -/
structure IsFetchOperand (o : Operand) : Prop where
  source : o.source = .register
  isRegister : IsRegister o.index o.addressing
  reads : o.swizzle.Reads o.count.toNat
  plain : o.isNegated = false ∧ o.isAbsolute = false

end Operand

/-- The places outside the registers that an instruction of a stage may store to. -/
inductive IsExport : Stage → Target → UInt32 → Prop
  | interpolator (index : UInt32) (h : index ≤ 15) : IsExport .vertex .interpolator index
  | position : IsExport .vertex .position 0
  | pointSize : IsExport .vertex .pointSize 0
  | colorTarget (index : UInt32) (h : index ≤ 3) : IsExport .pixel .colorTarget index
  | depth : IsExport .pixel .depth 0
  | exportAddress (stage : Stage) : IsExport stage .exportAddress 0
  | exportData (stage : Stage) (index : UInt32) (h : index ≤ 4) : IsExport stage .exportData index

namespace Result

inductive IsAluPlace (stage : Stage) (r : Result) : Prop
  | register (htarget : r.target = .register) (h : IsRegister r.index r.addressing)
  | exported (h : IsExport stage r.target r.index) (haddressing : r.addressing = .absolute)

structure IsAluResult (stage : Stage) (r : Result) : Prop where
  place : r.IsAluPlace stage
  mask : r.mask.bits < 16
  swizzle : r.swizzle = .identity

/-- A register; what is not written keeps its own component. -/
structure IsFetchResult (r : Result) : Prop where
  target : r.target = .register
  isRegister : IsRegister r.index r.addressing
  mask : r.mask.bits < 16
  identity : ∀ j : Nat, r.mask.toList[j]? = some false → r.swizzle.toList[j]? = Swizzle.identity.toList[j]?
  plain : r.isClamped = false

end Result

/-! Instructions. -/

inductive Alu.Instruction.IsSound (stage : Stage) (i : Instruction) : Prop
  | nop (hhalf : i.half = .nop) (hresult : i.result = .none) (hoperands : i.operands = [])
  | vector (hhalf : i.half = .vector) (hresult : i.result.IsAluResult stage)
      (hlength : 1 ≤ i.operands.length ∧ i.operands.length ≤ 3)
      (hoperands : ∀ o ∈ i.operands, o.IsAluOperand ∧ o.count = 4)
  | scalar (hhalf : i.half = .scalar) (hresult : i.result.IsAluResult stage) (hlength : i.operands.length ≤ 2)
      (hoperands : ∀ o ∈ i.operands, o.IsAluOperand ∧ (o.count = 1 ∨ o.count = 2))

structure Fetch.VertexFetch.IsSound (f : VertexFetch) : Prop where
  operands : ∃ source, f.operands = [source, .slot .vertexFetchConstant f.slot] ∧ source.IsFetchOperand ∧
    source.count = 1
  result : f.result.IsFetchResult
  stride : f.stride < 256
  prefetchCount : f.prefetchCount < 8
  offset : InSigned 23 f.offset
  expAdjust : InSigned 6 f.expAdjust

structure Fetch.Sampling.IsSound (s : Sampling) : Prop where
  filters : s.magFilter < 4 ∧ s.minFilter < 4 ∧ s.mipFilter < 4 ∧ s.volMagFilter < 4 ∧ s.volMinFilter < 4
  anisoFilter : s.anisoFilter < 8
  lodBias : InSigned 7 s.lodBias
  offsets : InSigned 5 s.offsetX ∧ InSigned 5 s.offsetY ∧ InSigned 5 s.offsetZ

/-- Only operations that change sampler state name no fetch constant, and these store nothing. -/
inductive Fetch.TextureFetch.Names (f : TextureFetch) (source : Operand) : Prop
  | slot (n : UInt32) (hstate : f.opcode.isStateWrite = false) (hslot : f.slot? = some n) (hn : n < 32)
      (hoperands : f.operands = [source, .slot .textureFetchConstant n]) (hresult : f.result.IsFetchResult)
  | nothing (hstate : f.opcode.isStateWrite = true) (hslot : f.slot? = none) (hoperands : f.operands = [source])
      (hresult : f.result = .none)

structure Fetch.TextureFetch.IsSound (f : TextureFetch) : Prop where
  opcode : f.opcode ≠ .vertexFetch
  operands : ∃ source, f.Names source ∧ source.IsFetchOperand ∧ source.count = f.opcode.sourceCount f.dimension ∧
    1 ≤ source.count ∧ source.count ≤ 3
  sampling : f.sampling.IsSound

structure ControlFlow.Exec.IsSound (e : Exec) : Prop where
  opcode : e.opcode.isExec = true
  address : e.address < 4096
  count : e.count < 8
  sequence : e.sequence < 4096
  constant : e.guard.constant < 256

/-- What a backend of a stage can rely on. -/
def Event.IsSound (stage : Stage) : Event → Prop
  | start | nop _ | ret _ => True
  | label index => index < 8192
  | execBegin e | execEnd e => e.IsSound
  | loopStart l => l.loopConstant < 32 ∧ l.skipTarget < 8192
  | loopEnd l => l.loopConstant < 32 ∧ l.bodyTarget < 8192
  | call c => c.target < 8192 ∧ c.guard.constant < 256
  | jump j => j.target < 8192 ∧ j.guard.constant < 256
  | alloc a => a.count < 8 ∧ (a.isVertexShader = true ↔ stage = .vertex)
  | vertexFetch f => f.IsSound
  | textureFetch f => f.IsSound
  | alu i => i.IsSound stage

/-! Components. -/

private theorem Component.isOfSource_ofIndex (n : UInt32) : (Component.ofIndex n).IsOfSource := by
  unfold ofIndex IsOfSource
  split <;> simp

private theorem WriteMask.bits_lt (m : WriteMask) : m.bits < 16 := by
  have hall : ∀ x y z w : Bool, (WriteMask.mk x y z w).bits < 16 := by decide
  exact hall m.x m.y m.z m.w

private theorem isRegister_ofRelative {index : UInt32} (h : index < 64) (isRelative : Bool) :
    IsRegister index (.ofRelative isRelative) := by
  refine ⟨h, ?_⟩
  cases isRelative <;> simp [Addressing.ofRelative]

namespace Swizzle

private theorem isOfSource_identity : ∀ c ∈ identity.toList, c.IsOfSource := by
  simp [identity, toList, Component.IsOfSource]

private theorem reads_single {c : Component} (hc : c.IsOfSource) : { identity with x := c }.Reads 1 := by
  refine ⟨fun d hd => ?_, rfl⟩
  rcases List.mem_cons.mp hd with rfl | hd
  · exact hc
  · exact isOfSource_identity d (List.mem_cons_of_mem _ hd)

private theorem reads_pair {c d : Component} (hc : c.IsOfSource) (hd : d.IsOfSource) :
    { identity with x := c, y := d }.Reads 2 := by
  refine ⟨fun e he => ?_, rfl⟩
  rcases List.mem_cons.mp he with rfl | he
  · exact hc
  rcases List.mem_cons.mp he with rfl | he
  · exact hd
  · exact isOfSource_identity e (List.mem_cons_of_mem _ (List.mem_cons_of_mem _ he))

private theorem isOfSource_ofFn {f : Nat → Component} (hf : ∀ j, (f j).IsOfSource) :
    ∀ c ∈ (ofFn f).toList, c.IsOfSource := by
  intro c hc
  simp only [ofFn, toList, List.mem_cons, List.not_mem_nil, or_false] at hc
  rcases hc with rfl | rfl | rfl | rfl <;> exact hf _

private theorem reads_all {f : Nat → Component} (hf : ∀ j, (f j).IsOfSource) :
    (ofFn f).Reads 4 := ⟨isOfSource_ofFn hf, rfl⟩

end Swizzle

private theorem Alu.reads_resolveSwizzle (swizzle : UInt32) {count : UInt32} (h : count = 1 ∨ count = 2 ∨ count = 4) :
    (resolveSwizzle swizzle count).Reads count.toNat := by
  have hindex := Component.isOfSource_ofIndex
  rcases h with rfl | rfl | rfl
  · exact Swizzle.reads_single (hindex _)
  · exact Swizzle.reads_pair (hindex _) (hindex _)
  · have hfour : resolveSwizzle swizzle 4 =
        .ofFn fun j => .ofIndex ((swizzle >>> UInt32.ofNat (2 * j)) + UInt32.ofNat j) := rfl
    rw [hfour]
    exact Swizzle.reads_all fun _ => hindex _

/-! ALU words. -/

namespace Alu

private theorem Vector.shape_of_get? {opcode : UInt32} {info : OpcodeInfo} (h : opcodes.get? opcode = some info) :
    1 ≤ info.argumentCount.toNat ∧ info.argumentCount.toNat ≤ 3 ∧ info.componentCount = 4 := by
  have hall : ∀ entry ∈ opcodes.entries, ∀ info ∈ entry, 1 ≤ info.argumentCount.toNat ∧
      info.argumentCount.toNat ≤ 3 ∧ info.componentCount = 4 := by decide
  exact hall _ (OpcodeTable.mem_of_get? h) info rfl

private theorem Scalar.shape_of_get? {opcode : UInt32} {info : OpcodeInfo} (h : opcodes.get? opcode = some info) :
    info.argumentCount = 1 → info.componentCount = 1 ∨ info.componentCount = 2 := by
  have hall : ∀ entry ∈ opcodes.entries, ∀ info ∈ entry,
      info.argumentCount = 1 → info.componentCount = 1 ∨ info.componentCount = 2 := by decide
  exact hall _ (OpcodeTable.mem_of_get? h) info rfl

theorem isExport_of_exportTarget? {stage : Stage} {dest : UInt32} {target : Target} {index : UInt32}
    (h : exportTarget? stage dest = some (target, index)) : IsExport stage target index := by
  have hshared (h : exportTarget?.shared dest = some (target, index)) : IsExport stage target index := by
    unfold exportTarget?.shared at h
    split at h
    · cases h
      exact .exportAddress stage
    · split at h
      case isTrue hdest =>
        cases h
        refine .exportData stage _ ?_
        rw [UInt32.le_iff_toNat_le, UInt32.toNat_sub_of_le _ _ hdest.1]
        have := UInt32.le_iff_toNat_le.mp hdest.2
        simp only [UInt32.reduceToNat] at this ⊢
        omega
      case isFalse => cases h
  cases stage with
  | vertex =>
    unfold exportTarget? at h
    dsimp only at h
    split at h
    case isTrue hdest =>
      cases h
      exact .interpolator dest hdest
    split at h
    · cases h
      exact .position
    split at h
    · cases h
      exact .pointSize
    · exact hshared h
  | pixel =>
    unfold exportTarget? at h
    dsimp only at h
    split at h
    case isTrue hdest =>
      cases h
      exact .colorTarget dest hdest
    split at h
    · cases h
      exact .depth
    · exact hshared h

namespace Word

variable {op : Word} {stage : Stage}

theorem isAluResult_of_ok {reg mask : UInt32} {isRelative isClamped : Bool} {r : Result} (hreg : reg < 64)
    (h : op.result stage reg isRelative mask isClamped = .ok r) : r.IsAluResult stage := by
  rcases ok_result h with ⟨target, index, -, htarget, rfl⟩ | ⟨-, rfl⟩
  · exact ⟨.exported (isExport_of_exportTarget? htarget) rfl, WriteMask.bits_lt _, rfl⟩
  · exact ⟨.register rfl (isRegister_ofRelative hreg isRelative), WriteMask.bits_lt _, rfl⟩

private theorem reg_source_lt (h : op.InRange) (i : Nat) : (op.source i).reg < 256 := by
  unfold source
  split
  · exact h.src1Reg
  · exact h.src2Reg
  · exact h.src3Reg

private theorem count_operand (op : Word) (i : Nat) (count : UInt32) : (op.operand i count).count = count := by
  unfold operand
  dsimp only
  split <;> rfl

theorem isAluOperand_operand (h : op.InRange) (i : Nat) {count : UInt32} (hcount : count = 1 ∨ count = 2 ∨ count = 4) :
    (op.operand i count).IsAluOperand := by
  have hreads := reads_resolveSwizzle (op.source i).swizzle hcount
  unfold operand
  dsimp only
  split
  · refine ⟨.register rfl (isRegister_ofRelative ?_ _), hreads⟩
    exact UInt32.mod_lt _ (by decide)
  · exact ⟨.floatConstant rfl (reg_source_lt h i), hreads⟩

private theorem packedRegister_lt (op : Word) : op.packedRegister < 64 := by
  have hbit : op.src3Temp.toNat ≤ 1 := Bool.toNat_le _
  rw [UInt32.lt_iff_toNat_lt, op.toNat_packedRegister]
  show _ < 64
  omega

private theorem isAluOperand_constantAndRegister (h : op.InRange) {o : Operand} (ho : o ∈ op.constantAndRegister) :
    o.IsAluOperand ∧ o.count = 1 := by
  simp only [constantAndRegister, List.mem_cons, List.not_mem_nil, or_false] at ho
  rcases ho with rfl | rfl
  · exact ⟨⟨.floatConstant rfl h.src3Reg, Swizzle.reads_single (Component.isOfSource_ofIndex _)⟩, rfl⟩
  · exact ⟨⟨.register rfl ⟨op.packedRegister_lt, by simp⟩, Swizzle.reads_single (Component.isOfSource_ofIndex _)⟩, rfl⟩

theorem IsHalf.isSound {address : UInt32} {i : Instruction} (h : op.IsHalf stage address i) (hrange : op.InRange) :
    i.IsSound stage := by
  cases h with
  | nop => exact .nop rfl rfl rfl
  | vector info r hinfo hresult =>
    obtain ⟨hpos, hle, hcount⟩ := Vector.shape_of_get? hinfo
    refine .vector rfl (isAluResult_of_ok hrange.vectorDest hresult) ?_ ?_
    · simp only [instruction, vectorOperands, List.length_map, List.length_range]
      exact ⟨hpos, hle⟩
    · intro o ho
      obtain ⟨k, -, rfl⟩ := List.mem_map.mp ho
      rw [count_operand, hcount]
      exact ⟨isAluOperand_operand hrange (k + 1) (.inr (.inr rfl)), rfl⟩
  | scalar info r hinfo hresult =>
    have hshape := Scalar.shape_of_get? hinfo
    refine .scalar rfl (isAluResult_of_ok hrange.scalarDest hresult) ?_ ?_
    · simp only [instruction, scalarOperands]
      split
      · simp
      · split <;> simp [constantAndRegister]
    · intro o ho
      simp only [instruction, scalarOperands] at ho
      split at ho
      · exact absurd ho List.not_mem_nil
      split at ho
      case isTrue hone =>
        rw [List.mem_singleton.mp ho, count_operand]
        refine ⟨isAluOperand_operand hrange 3 ?_, hshape hone⟩
        exact (hshape hone).imp id .inl
      case isFalse =>
        obtain ⟨hoperand, hcount⟩ := isAluOperand_constantAndRegister hrange ho
        exact ⟨hoperand, .inl hcount⟩

end Word

end Alu

/-! Fetch words. -/

namespace Fetch

theorem isFetchResult_fetchResult {reg : UInt32} (h : reg < 64) (isRelative : Bool) (swizzle : UInt32) :
    (fetchResult reg isRelative swizzle).IsFetchResult := by
  refine ⟨rfl, isRegister_ofRelative h isRelative, WriteMask.bits_lt _, fun j hj => ?_, rfl⟩
  have hkept (i : Nat) (h : (Select.ofSwizzle swizzle i).isWritten = false) :
      ((Select.ofSwizzle swizzle i).value?).getD (.ofIndex (UInt32.ofNat i)) = .ofIndex (UInt32.ofNat i) := by
    unfold Select.isWritten at h
    rw [Option.isSome_eq_false_iff, Option.isNone_iff_eq_none] at h
    rw [h, Option.getD_none]
  match j with
  | 0 => exact congrArg some (hkept 0 (Option.some.inj hj))
  | 1 => exact congrArg some (hkept 1 (Option.some.inj hj))
  | 2 => exact congrArg some (hkept 2 (Option.some.inj hj))
  | 3 => exact congrArg some (hkept 3 (Option.some.inj hj))
  | _ + 4 => rfl

theorem VertexWord.isSound_fetch {op base : VertexWord} (hop : op.InRange) (hbase : base.InRange)
    (format : VertexFormat) (address : UInt32) : (op.fetch base format address).IsSound where
  operands := by
    refine ⟨_, rfl, ⟨rfl, isRegister_ofRelative hbase.srcReg _, ?_, rfl, rfl⟩, rfl⟩
    exact Swizzle.reads_single (Component.isOfSource_ofIndex _)
  result := isFetchResult_fetchResult hop.dstReg _ _
  stride := hbase.stride
  prefetchCount := hop.prefetchCount
  offset := hop.offset
  expAdjust := hop.expAdjust

private theorem Opcode.sourceCount_cases (o : Opcode) (d : Dimension) :
    o.sourceCount d = 1 ∨ o.sourceCount d = 2 ∨ o.sourceCount d = 3 := by
  cases o <;> cases d <;> decide

private theorem TextureWord.isFetchOperand_sourceOperand {op : TextureWord} (h : op.InRange) {count : UInt32}
    (hcount : count = 1 ∨ count = 2 ∨ count = 3) : (op.sourceOperand count).IsFetchOperand := by
  refine ⟨rfl, isRegister_ofRelative h.srcReg _, ⟨?_, ?_⟩, rfl, rfl⟩
  · exact Swizzle.isOfSource_ofFn fun _ => Component.isOfSource_ofIndex _
  · rcases hcount with rfl | rfl | rfl <;> rfl

theorem TextureWord.isSound_fetch {op : TextureWord} (h : op.InRange) {o : Opcode} (ho : o ≠ .vertexFetch)
    (address : UInt32) : (op.fetch o address).IsSound where
  opcode := ho
  operands := by
    have hcount := o.sourceCount_cases (.ofCode op.dimension)
    refine ⟨op.sourceOperand (o.sourceCount (.ofCode op.dimension)), ?_, isFetchOperand_sourceOperand h hcount, rfl, ?_⟩
    · cases hstate : o.isStateWrite with
      | false =>
        refine .slot op.constIndex hstate ?_ h.constIndex ?_ ?_
        · simp [fetch, hstate]
        · simp [fetch, hstate]
        · simp only [fetch, hstate, Bool.false_eq_true, if_false]
          exact isFetchResult_fetchResult h.dstReg _ _
      | true => exact .nothing hstate (by simp [fetch, hstate]) (by simp [fetch, hstate]) (by simp [fetch, hstate])
    · show 1 ≤ o.sourceCount _ ∧ o.sourceCount _ ≤ 3
      rcases hcount with hcount | hcount | hcount <;> rw [hcount] <;> decide
  sampling :=
    { filters := ⟨h.magFilter, h.minFilter, h.mipFilter, h.volMagFilter, h.volMinFilter⟩
      anisoFilter := h.anisoFilter
      lodBias := h.lodBias
      offsets := ⟨h.offsetX, h.offsetY, h.offsetZ⟩ }

end Fetch

theorem IsShown.isSound {stage : Stage} {vs : List Visit} {e : Event} (h : IsShown stage vs e) : e.IsSound stage := by
  cases h with
  | vertexFetch v base format hv hbase => exact VertexWord.isSound_fetch (VertexWord.inRange_decode v.word) hbase _ _
  | textureFetch v o hv ho => exact TextureWord.isSound_fetch (TextureWord.inRange_decode v.word) ho _
  | alu v i hv hfetch hi => exact (Alu.Word.isHalf_of_mem hi).isSound (Alu.Word.inRange_decode v.word)

/-! Control flow words. -/

namespace ControlFlow

/-- Every number that an instruction takes over fits its field. -/
def Layout.InRange : Layout → Prop
  | exec e => e.address < 4096 ∧ e.count < 8 ∧ e.sequence < 4096 ∧ e.boolAddress < 256
  | loopStart l => l.loopId < 32 ∧ l.address < 8192
  | loopEnd l => l.loopId < 32 ∧ l.address < 8192
  | call b | jump b => b.address < 8192 ∧ b.boolAddress < 256
  | alloc a => a.size < 8
  | _ => True

namespace Word

variable {w : Word}

private theorem inRange_layout (w : Word) : w.layout.InRange := by
  have hbranch : (BranchLayout.decode w).address < 8192 ∧ (BranchLayout.decode w).boolAddress < 256 :=
    ⟨BranchField.address.toNat_read_lt w.low, BranchField.boolAddress.toNat_read_lt w.high.toUInt32⟩
  unfold layout
  cases w.opcode with
  | nop | ret | markVsFetchDone => trivial
  | exec | execEnd | condExec | condExecEnd | condExecPred | condExecPredEnd | condExecPredClean
  | condExecPredCleanEnd =>
    refine ⟨ExecField.address.toNat_read_lt w.low, ExecField.count.toNat_read_lt w.low,
      ExecField.sequence.toNat_read_lt w.low, ?_⟩
    show (if w.opcode.usesBoolConstant then ExecField.boolAddress.read w.high.toUInt32 else 0) < 256
    split
    · exact ExecField.boolAddress.toNat_read_lt w.high.toUInt32
    · decide
  | loopStart | loopEnd => exact ⟨LoopField.loopId.toNat_read_lt w.low, LoopField.address.toNat_read_lt w.low⟩
  | condCall | condJmp => exact hbranch
  | alloc => exact AllocField.size.toNat_read_lt w.low

theorem isSound_resolve {l : ExecLayout} (h : w.layout = .exec l) (index : UInt32) : (l.resolve index).IsSound := by
  have hproper := w.isProper_layout
  have hrange := w.inRange_layout
  rw [h] at hproper hrange
  obtain ⟨haddress, hcount, hsequence, hconstant⟩ := hrange
  exact ⟨hproper, haddress, hcount, hsequence, hconstant⟩

theorem isSound_event {index : UInt32} {stage : Stage} {i : Instruction} (h : w.resolve index stage = .ok i) :
    (Schedule.event i).IsSound stage := by
  have hrange := w.inRange_layout
  unfold resolve at h
  cases hl : w.layout with
  | exec l =>
    rw [hl] at h
    cases h
    exact isSound_resolve hl index
  | alloc a =>
    rw [hl] at h hrange
    cases h
    exact ⟨hrange, beq_iff_eq⟩
  | nop | ret =>
    rw [hl] at h
    cases h
    trivial
  | markVsFetchDone =>
    rw [hl] at h
    cases h
  | loopStart l | loopEnd l =>
    rw [hl] at h hrange
    cases h
    exact hrange
  | call b | jump b =>
    rw [hl] at h hrange
    cases h
    exact hrange

private theorem lt_of_target? {target : UInt32} (h : w.target? = some target) : target < 8192 := by
  have hrange := w.inRange_layout
  unfold target? at h
  cases hl : w.layout with
  | loopStart l | loopEnd l =>
    rw [hl] at h hrange
    cases h
    exact hrange.2
  | call b | jump b =>
    rw [hl] at h hrange
    cases h
    exact hrange.1
  | nop | exec l | ret | alloc a | markVsFetchDone =>
    rw [hl] at h
    cases h

end Word

end ControlFlow

/-! The walk. -/

namespace Schedule

variable {stage : Stage} {words : Array UInt32} {labels : List UInt32} {last : Option VertexWord}

theorem isSound_of_mem_step {index : UInt32} {w : Word} {e : Event} (hlabels : ∀ k ∈ labels, k < 8192)
    (h : .present e ∈ (step stage words labels last index w).acts) (he : e.concernsWord = false) : e.IsSound stage := by
  rw [step_eq, Step.acts] at h
  rcases List.mem_append.mp h with h | h
  · rcases List.mem_append.mp h with h | h
    · rcases List.mem_append.mp h with h | h
      · unfold labelActs at h
        split at h
        case isTrue hindex =>
          simp only [List.mem_cons, reduceCtorEq, Act.present.injEq, List.not_mem_nil, or_false, false_or] at h
          rw [h]
          exact hlabels index hindex
        case isFalse => exact absurd h List.not_mem_nil
      · simp only [List.mem_cons, reduceCtorEq, List.not_mem_nil, or_false, false_or, ownAct] at h
        split at h
        case h_1 i hi =>
          rw [Act.present.inj h]
          exact Word.isSound_event hi
        case h_2 => cases h
    · obtain ⟨word, hword, hmem⟩ := List.mem_flatten.mp h
      have hof := isOfWord_wordActs stage words last w word hword _ hmem
      cases e <;> first | exact hof.elim | cases he
  · unfold endActs at h
    split at h
    case h_1 x hx =>
      rw [Act.present.inj (List.mem_singleton.mp h)]
      exact Word.isSound_event hx
    case h_2 => exact absurd h List.not_mem_nil

theorem isSound_of_mem_walk {k : Nat} {ws : List Word} {e : Event} (hlabels : ∀ k ∈ labels, k < 8192)
    (h : .present e ∈ (walk stage words labels last k ws).flatMap Step.acts) (he : e.concernsWord = false) :
    e.IsSound stage := by
  induction ws generalizing last k with
  | nil => exact absurd h List.not_mem_nil
  | cons w ws ih =>
    rw [walk, List.flatMap_cons] at h
    rcases List.mem_append.mp h with h | h
    · exact isSound_of_mem_step hlabels h he
    · exact ih h

end Schedule

namespace Shader

variable {σ : Type}

private theorem lt_of_mem_labels {words : Array UInt32} {k : UInt32} (h : k ∈ (Program.read words).labels) :
    k < 8192 := by
  obtain ⟨w, -, htarget⟩ := ((Program.read words).mem_labels_iff k).mp h
  exact Word.lt_of_target? htarget

private theorem Performs.mem_acts {shader : Shader} {b : Backend σ} {settings : TranslatorSettings} {s : σ}
    {as : List Act} (h : shader.Performs b settings s as) {e : Event} (he : .event e ∈ shader.notices b settings s) :
    e = .start ∨ .present e ∈ shader.plan.steps.flatMap Step.acts := by
  rw [h.notices] at he
  simp only [List.mem_append, List.mem_cons, List.mem_map, List.not_mem_nil, or_false, reduceCtorEq, false_or,
    and_false, exists_false, Notice.event.injEq] at he
  refine he.imp id fun he => ?_
  exact h.cut.sublist.subset (Act.event_mem_notices.mp he)

theorem isSound_of_mem_notices {shader : Shader} {b : Backend σ} {settings : TranslatorSettings} {s : σ} {e : Event}
    (h : .event e ∈ shader.notices b settings s) : e.IsSound shader.stage := by
  cases hword : e.concernsWord with
  | true => exact (isShown_of_mem_notices h hword).isSound
  | false =>
    obtain ⟨as, hperforms⟩ := shader.performs b settings s
    rcases hperforms.mem_acts h with rfl | hact
    · trivial
    · exact Schedule.isSound_of_mem_walk (fun _ => lt_of_mem_labels) hact hword

/-- Every event that a backend is shown is sound for the stage of the shader. -/
theorem events_sound (shader : Shader) (b : Backend σ) (settings : TranslatorSettings) (s : σ) :
    ∀ e view, .call (.event e view) ∈ shader.requests b settings s →
      e.IsSound shader.stage ∧ view.stage = shader.stage := by
  intro e view h
  have hnotice : .event e ∈ shader.notices b settings s := Request.event_mem_map_notice.mpr ⟨view, h⟩
  have hstage : view.stage = shader.stage := congrArg View.stage (shader.seen_of_mem_requests b settings s h).1
  exact ⟨isSound_of_mem_notices hnotice, hstage⟩

theorem events_sound_of_export :
    let shader := Shader.new .pixel #[0x1001, 0x2000, 0, 0xC80F8000, 0, 0xE1000000]
    let source : Operand := ⟨.register, 0, .absolute, false, false, 4, .identity⟩
    let shown : Alu.Instruction :=
      ⟨1, .vector, 1, 50, "mul", ⟨false, false⟩, ⟨.colorTarget, 0, .absolute, .full, .identity, false⟩,
        [source, source]⟩
    ∃ view, .call (.event (.alu shown) view) ∈ shader.requests .silent ⟨.proceed, false⟩ () ∧
      shown.IsSound .pixel ∧ view.stage = .pixel := by
  intro shader source shown
  have hnotice : .event (.alu shown) ∈ shader.notices .silent ⟨.proceed, false⟩ () := by decide +kernel
  obtain ⟨view, hcall⟩ := Request.event_mem_map_notice.mp hnotice
  exact ⟨view, hcall, events_sound shader .silent ⟨.proceed, false⟩ () (.alu shown) view hcall⟩

end Shader

end ShaderMicrocode
