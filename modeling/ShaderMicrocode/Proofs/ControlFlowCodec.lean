import ShaderMicrocode.ControlFlow.Layout
import ShaderMicrocode.Proofs.Packing
/-!
# Control flow words and their layouts

The opcode of a control flow word selects which of its bits mean something. A layout that is written to a word and read
again is the same but for numbers wider than their field and for what its opcode leaves no room for, and a word that is
read and written again is the same but for the bits that its layout does not use.
-/
namespace ShaderMicrocode.ControlFlow

open BitField

/-! Opcodes. -/

theorem Opcode.code_ofCode (n : UInt32) : (ofCode n).code = n % 16 := by
  have hlt : (n % 16).toNat < 16 := Nat.mod_lt _ (by decide)
  have hall : ∀ i < 16, (ofCode (UInt32.ofNat i)).code = UInt32.ofNat i := by decide
  have hmod : n % 16 % 16 = n % 16 := UInt32.mod_eq_of_lt hlt
  have hsame : ofCode n = ofCode (n % 16) := by
    unfold ofCode
    rw [hmod]
  rw [hsame, ← UInt32.ofNat_toNat (x := n % 16)]
  exact hall _ hlt

private theorem Opcode.ofCode_read (op : Opcode) :
    ofCode (Word.opcodeField.read (Word.opcodeField.place op.code)) = op := by
  cases op <;> rfl

private theorem Word.place_opcode (w : Word) :
    opcodeField.place w.opcode.code = w.high.toUInt32 &&& opcodeField.mask := by
  rw [opcode, Opcode.code_ofCode, ← place_read opcodeField (by decide)]
  apply place_congr
  rw [UInt32.toNat_mod]
  exact Nat.mod_mod _ 16

/-- The bits of a word with this opcode that mean something, by field: those of the low dword and those of the high
half. -/
def Opcode.usedBits : Opcode → List BitField × List BitField
  | condExec | condExecEnd | condExecPredClean | condExecPredCleanEnd => ([⟨0, 32⟩], [⟨0, 16⟩])
  | exec | execEnd | condExecPred | condExecPredEnd => ([⟨0, 32⟩], [⟨0, 2⟩, ⟨9, 7⟩])
  | loopStart => ([⟨0, 14⟩, ⟨16, 5⟩], [⟨11, 5⟩])
  | loopEnd => ([⟨0, 13⟩, ⟨16, 6⟩], [⟨10, 6⟩])
  | condCall => ([⟨0, 15⟩], [⟨2, 14⟩])
  | condJmp => ([⟨0, 15⟩], [⟨1, 15⟩])
  | alloc => ([⟨0, 3⟩], [⟨8, 3⟩, ⟨12, 4⟩])
  | nop | ret | markVsFetchDone => ([], [⟨12, 4⟩])

/-- The word with all bits cleared but those of the given fields. -/
def Word.only (w : Word) (used : List BitField × List BitField) : Word :=
  ⟨w.low &&& masks used.1, (w.high.toUInt32 &&& masks used.2).toUInt16⟩

private theorem Word.mk_eq_only (w : Word) {used : List BitField × List BitField} {low high : UInt32}
    (hlow : low = masks used.1) (hhigh : high = masks used.2) :
    ⟨w.low &&& low, (w.high.toUInt32 &&& high).toUInt16⟩ = w.only used := by
  rw [hlow, hhigh, only]

/-! Blocks. -/

namespace ExecLayout

/-- The layout as its word gives it back. -/
def wrapped (e : ExecLayout) : ExecLayout :=
  { e with
    address := e.address % 4096
    count := e.count % 8
    sequence := e.sequence % 4096
    vertexCache := e.vertexCache % 64
    boolAddress := if e.opcode.usesBoolConstant then e.boolAddress % 256 else 0
    isPredicateClean := e.opcode.usesBoolConstant || e.isPredicateClean }

/-! The vertex cache bits lie in both halves of the word, the low two of them in the high half. -/

private theorem join_vertexCache (v : UInt32) : (v >>> 2 % 16) <<< 2 ||| v % 4 = v % 64 := by
  have hhigh : (v >>> 2 % 16).toNat = v.toNat / 4 % 16 := by
    rw [UInt32.toNat_mod, UInt32.toNat_shiftRight, Nat.shiftRight_eq_div_pow]
    rfl
  have hlow : (v % 4).toNat = v.toNat % 4 := UInt32.toNat_mod v 4
  have hall : (v % 64).toNat = v.toNat % 64 := UInt32.toNat_mod v 64
  rw [← UInt32.toNat_inj, toNat_join (k := 2) rfl (by decide) (by omega), hhigh, hlow, hall]
  omega

private theorem toNat_vertexCache (low high : UInt32) :
    (ExecField.vertexCacheHigh.read low <<< 2 ||| ExecField.vertexCacheLow.read high).toNat =
      4 * (ExecField.vertexCacheHigh.read low).toNat + (ExecField.vertexCacheLow.read high).toNat := by
  have hlow : (ExecField.vertexCacheHigh.read low).toNat < 16 := toNat_read_lt _ low
  have hhigh : (ExecField.vertexCacheLow.read high).toNat < 4 := toNat_read_lt _ high
  rw [toNat_join (k := 2) rfl (by decide) hhigh]
  omega

private theorem place_vertexCache (low high : UInt32) :
    ExecField.vertexCacheHigh.place
        ((ExecField.vertexCacheHigh.read low <<< 2 ||| ExecField.vertexCacheLow.read high) >>> 2) =
        low &&& ExecField.vertexCacheHigh.mask ∧
      ExecField.vertexCacheLow.place (ExecField.vertexCacheHigh.read low <<< 2 ||| ExecField.vertexCacheLow.read high) =
        high &&& ExecField.vertexCacheLow.mask := by
  have hhigh : (ExecField.vertexCacheLow.read high).toNat < 4 := toNat_read_lt _ high
  constructor
  · rw [← place_read ExecField.vertexCacheHigh (by decide)]
    apply place_congr
    rw [UInt32.toNat_shiftRight, Nat.shiftRight_eq_div_pow, toNat_vertexCache]
    change (4 * (ExecField.vertexCacheHigh.read low).toNat + (ExecField.vertexCacheLow.read high).toNat) / 4 % 16 =
      (ExecField.vertexCacheHigh.read low).toNat % 16
    omega
  · rw [← place_read ExecField.vertexCacheLow (by decide)]
    apply place_congr
    rw [toNat_vertexCache]
    exact Nat.mul_add_mod 4 _ _

private theorem vertexCache_mod (low high : UInt32) :
    (ExecField.vertexCacheHigh.read low <<< 2 ||| ExecField.vertexCacheLow.read high) % (64 : UInt32) =
      ExecField.vertexCacheHigh.read low <<< 2 ||| ExecField.vertexCacheLow.read high := by
  have hlow : (ExecField.vertexCacheHigh.read low).toNat < 16 := toNat_read_lt _ low
  have hhigh : (ExecField.vertexCacheLow.read high).toNat < 4 := toNat_read_lt _ high
  rw [mod_eq_self_iff (by decide), UInt32.lt_iff_toNat_lt, toNat_vertexCache]
  change _ < 64
  omega

private theorem opcode_encode (e : ExecLayout) : e.encode.opcode = e.opcode := by
  unfold Word.opcode
  simp (disch := decide) only [encode, read_toUInt16, mark]
  cases e.opcode.usesBoolConstant
  all_goals
    simp (disch := decide) only [read_or, read_place_of_apart, UInt32.zero_or, if_true, if_false, Bool.false_eq_true]
    exact e.opcode.ofCode_read

theorem decode_encode (e : ExecLayout) : decode e.encode = e.wrapped := by
  unfold decode
  rw [opcode_encode, wrapped, ← join_vertexCache]
  simp (disch := decide) only [Word.isAbsoluteAddress, encode, mark, read_toUInt16, test_toUInt16]
  cases e.opcode.usesBoolConstant
  all_goals
    simp (disch := decide) only [read_or, read_place_self, read_place_of_apart, test_or, test_place_self,
      test_place_of_apart, UInt32.or_zero, UInt32.zero_or, Bool.or_false, Bool.false_or, Bool.true_or, if_true,
      if_false, Bool.false_eq_true]
    rfl

theorem encode_decode {w : Word} {op : Opcode} (h : w.opcode = op) (hexec : op.isExec) :
    (decode w).encode = w.only op.usedBits := by
  obtain ⟨hhigh, hlow⟩ := place_vertexCache w.low w.high.toUInt32
  have hbits : op.usedBits = ([⟨0, 32⟩], if op.usesBoolConstant then [⟨0, 16⟩] else [⟨0, 2⟩, ⟨9, 7⟩]) := by
    revert hexec
    cases op <;> decide
  rw [hbits, ← h]
  simp (disch := decide) only [decode, encode, place_read, mark_test]
  -- with a boolean constant its address fills the bits that else hold the predicate clean flag alone
  by_cases hbool : w.opcode.usesBoolConstant
  all_goals
    simp (disch := decide) only [hbool, hhigh, hlow, Word.place_opcode, Word.isAbsoluteAddress, place_read, mark_test,
      and_or_and, if_true, if_false, Bool.false_eq_true, Bool.false_or]
    exact w.mk_eq_only (by decide) (by decide)

private theorem wrapped_decode (w : Word) : (decode w).wrapped = decode w := by
  by_cases hbool : w.opcode.usesBoolConstant
  all_goals
    simp (disch := decide) only [wrapped, decode, hbool, read_mod, vertexCache_mod, Bool.true_or, Bool.false_or,
      if_true, if_false, Bool.false_eq_true]

end ExecLayout

/-! Loops. -/

namespace LoopStartLayout

/-- The layout as its word gives it back. -/
def wrapped (l : LoopStartLayout) : LoopStartLayout :=
  { l with
    address := l.address % 8192
    loopId := l.loopId % 32 }

private theorem opcode_encode (l : LoopStartLayout) : l.encode.opcode = .loopStart := by
  unfold Word.opcode
  simp (disch := decide) only [encode, read_toUInt16, mark, read_or, read_place_of_apart, UInt32.zero_or]
  exact Opcode.loopStart.ofCode_read

theorem decode_encode (l : LoopStartLayout) : decode l.encode = l.wrapped := by
  simp (disch := decide) only [decode, Word.isAbsoluteAddress, encode, mark, test_toUInt16, read_or, read_place_self,
    read_place_of_apart, test_or, test_place_self, test_place_of_apart, UInt32.or_zero, UInt32.zero_or, Bool.or_false,
    Bool.false_or]
  rfl

theorem encode_decode {w : Word} (h : w.opcode = .loopStart) :
    (decode w).encode = w.only Opcode.loopStart.usedBits := by
  have hopcode := w.place_opcode
  rw [h] at hopcode
  simp (disch := decide) only [decode, encode, Word.isAbsoluteAddress, place_read, mark_test, hopcode, and_or_and]
  exact w.mk_eq_only (by decide) (by decide)

private theorem wrapped_decode (w : Word) : (decode w).wrapped = decode w := by
  simp (disch := decide) only [wrapped, decode, read_mod]

end LoopStartLayout

namespace LoopEndLayout

/-- The layout as its word gives it back. -/
def wrapped (l : LoopEndLayout) : LoopEndLayout :=
  { l with
    address := l.address % 8192
    loopId := l.loopId % 32 }

private theorem opcode_encode (l : LoopEndLayout) : l.encode.opcode = .loopEnd := by
  unfold Word.opcode
  simp (disch := decide) only [encode, read_toUInt16, mark, read_or, read_place_of_apart, UInt32.zero_or]
  exact Opcode.loopEnd.ofCode_read

theorem decode_encode (l : LoopEndLayout) : decode l.encode = l.wrapped := by
  simp (disch := decide) only [decode, Word.isAbsoluteAddress, encode, mark, test_toUInt16, read_or, read_place_self,
    read_place_of_apart, test_or, test_place_self, test_place_of_apart, UInt32.or_zero, UInt32.zero_or, Bool.or_false,
    Bool.false_or]
  rfl

theorem encode_decode {w : Word} (h : w.opcode = .loopEnd) : (decode w).encode = w.only Opcode.loopEnd.usedBits := by
  have hopcode := w.place_opcode
  rw [h] at hopcode
  simp (disch := decide) only [decode, encode, Word.isAbsoluteAddress, place_read, mark_test, hopcode, and_or_and]
  exact w.mk_eq_only (by decide) (by decide)

private theorem wrapped_decode (w : Word) : (decode w).wrapped = decode w := by
  simp (disch := decide) only [wrapped, decode, read_mod]

end LoopEndLayout

/-! Calls and jumps. -/

namespace BranchLayout

/-- The layout as its word gives it back: a call has no direction. -/
def wrapped (b : BranchLayout) : BranchLayout :=
  { b with
    address := b.address % 8192
    isBackward := b.opcode == .condJmp && b.isBackward
    boolAddress := b.boolAddress % 256 }

private theorem opcode_encode (b : BranchLayout) : b.encode.opcode = b.opcode := by
  unfold Word.opcode
  simp (disch := decide) only [encode, read_toUInt16, mark, read_or, read_place_of_apart, UInt32.zero_or]
  exact b.opcode.ofCode_read

theorem decode_encode (b : BranchLayout) : decode b.encode = b.wrapped := by
  unfold decode
  rw [opcode_encode]
  simp (disch := decide) only [Word.isAbsoluteAddress, encode, mark, read_toUInt16, test_toUInt16, read_or,
    read_place_self, read_place_of_apart, test_or, test_place_self, test_place_of_apart, UInt32.or_zero,
    UInt32.zero_or, Bool.or_false, Bool.false_or]
  rfl

theorem encode_decode_call {w : Word} (h : w.opcode = .condCall) :
    (decode w).encode = w.only Opcode.condCall.usedBits := by
  have hopcode := w.place_opcode
  -- the direction bit of a call is read as clear, so it is not written back
  have hmark (b : Bool) : BranchField.isBackward.mark (Opcode.condCall == Opcode.condJmp && b) = 0 := rfl
  rw [h] at hopcode
  simp (disch := decide) only [decode, encode, h, hmark, Word.isAbsoluteAddress, place_read, mark_test, hopcode,
    UInt32.zero_or, and_or_and]
  exact w.mk_eq_only (by decide) (by decide)

theorem encode_decode_jump {w : Word} (h : w.opcode = .condJmp) :
    (decode w).encode = w.only Opcode.condJmp.usedBits := by
  have hopcode := w.place_opcode
  rw [h] at hopcode
  simp (disch := decide) only [decode, encode, h, beq_self_eq_true, Bool.true_and, Word.isAbsoluteAddress, place_read,
    mark_test, hopcode, and_or_and]
  exact w.mk_eq_only (by decide) (by decide)

private theorem wrapped_decode (w : Word) : (decode w).wrapped = decode w := by
  simp (disch := decide) only [wrapped, decode, read_mod, Bool.and_self_left]

end BranchLayout

/-! Allocations. -/

namespace AllocLayout

/-- The layout as its word gives it back. -/
def wrapped (a : AllocLayout) : AllocLayout :=
  { a with
    size := a.size % 8
    kind := a.kind % 4 }

private theorem opcode_encode (a : AllocLayout) : a.encode.opcode = .alloc := by
  unfold Word.opcode
  simp (disch := decide) only [encode, read_toUInt16, mark, read_or, read_place_of_apart, UInt32.zero_or]
  exact Opcode.alloc.ofCode_read

theorem decode_encode (a : AllocLayout) : decode a.encode = a.wrapped := by
  simp (disch := decide) only [decode, encode, mark, read_toUInt16, test_toUInt16, read_or, read_place_self,
    read_place_of_apart, test_or, test_place_self, test_place_of_apart, UInt32.or_zero, UInt32.zero_or, Bool.or_false]
  rfl

theorem encode_decode {w : Word} (h : w.opcode = .alloc) : (decode w).encode = w.only Opcode.alloc.usedBits := by
  have hopcode := w.place_opcode
  rw [h] at hopcode
  simp (disch := decide) only [decode, encode, place_read, mark_test, hopcode, and_or_and]
  exact w.mk_eq_only (by decide) (by decide)

private theorem wrapped_decode (w : Word) : (decode w).wrapped = decode w := by
  simp (disch := decide) only [wrapped, decode, read_mod]

end AllocLayout

/-! Layouts. -/

namespace Layout

/-- The opcodes that a layout can be written with. -/
def IsProper : Layout → Prop
  | exec e => e.opcode.isExec
  | call b => b.opcode = .condCall
  | jump b => b.opcode = .condJmp
  | _ => True

/-- The layout as its word gives it back. -/
def wrapped : Layout → Layout
  | exec e => exec e.wrapped
  | loopStart l => loopStart l.wrapped
  | loopEnd l => loopEnd l.wrapped
  | call b => call b.wrapped
  | jump b => jump b.wrapped
  | alloc a => alloc a.wrapped
  | l => l

end Layout

private theorem Word.layout_of_isExec {w : Word} (h : w.opcode.isExec) : w.layout = .exec (.decode w) := by
  unfold layout
  cases hop : w.opcode <;> first | rfl | (rw [hop] at h; cases h)

theorem Layout.layout_encode {l : Layout} (h : l.IsProper) : l.encode.layout = l.wrapped := by
  cases l with
  | nop => rfl
  | exec e =>
    have hexec : e.encode.opcode.isExec := by
      rw [e.opcode_encode]
      exact h
    exact (Word.layout_of_isExec hexec).trans (congrArg exec e.decode_encode)
  | loopStart l =>
    unfold encode Word.layout
    rw [l.opcode_encode]
    exact congrArg loopStart l.decode_encode
  | loopEnd l =>
    unfold encode Word.layout
    rw [l.opcode_encode]
    exact congrArg loopEnd l.decode_encode
  | call b =>
    have hop : b.opcode = .condCall := h
    unfold encode Word.layout
    rw [b.opcode_encode, hop]
    exact congrArg call b.decode_encode
  | ret => rfl
  | jump b =>
    have hop : b.opcode = .condJmp := h
    unfold encode Word.layout
    rw [b.opcode_encode, hop]
    exact congrArg jump b.decode_encode
  | alloc a =>
    unfold encode Word.layout
    rw [a.opcode_encode]
    exact congrArg alloc a.decode_encode
  | markVsFetchDone => rfl

private theorem Word.encode_bare {w : Word} {op : Opcode} (h : w.opcode = op)
    (hbits : op.usedBits = ([], [opcodeField])) : op.bare = w.only op.usedBits := by
  rw [hbits, Opcode.bare, ← h, place_opcode, ← UInt32.and_zero (a := w.low)]
  exact w.mk_eq_only rfl (by decide)

theorem Word.encode_layout (w : Word) : w.layout.encode = w.only w.opcode.usedBits := by
  unfold layout
  cases hop : w.opcode with
  | nop | ret | markVsFetchDone => exact encode_bare hop rfl
  | exec | execEnd | condExec | condExecEnd | condExecPred | condExecPredEnd | condExecPredClean
  | condExecPredCleanEnd => exact ExecLayout.encode_decode hop rfl
  | loopStart => exact LoopStartLayout.encode_decode hop
  | loopEnd => exact LoopEndLayout.encode_decode hop
  | condCall => exact BranchLayout.encode_decode_call hop
  | condJmp => exact BranchLayout.encode_decode_jump hop
  | alloc => exact AllocLayout.encode_decode hop

theorem Word.isProper_layout (w : Word) : w.layout.IsProper := by
  unfold layout
  cases hop : w.opcode with
  | nop | ret | markVsFetchDone | loopStart | loopEnd | alloc => trivial
  | exec | execEnd | condExec | condExecEnd | condExecPred | condExecPredEnd | condExecPredClean
  | condExecPredCleanEnd => exact congrArg Opcode.isExec hop
  | condCall | condJmp => exact hop

theorem Word.wrapped_layout (w : Word) : w.layout.wrapped = w.layout := by
  unfold layout
  cases w.opcode with
  | nop | ret | markVsFetchDone => rfl
  | exec | execEnd | condExec | condExecEnd | condExecPred | condExecPredEnd | condExecPredClean
  | condExecPredCleanEnd => exact congrArg Layout.exec (ExecLayout.wrapped_decode w)
  | loopStart => exact congrArg Layout.loopStart (LoopStartLayout.wrapped_decode w)
  | loopEnd => exact congrArg Layout.loopEnd (LoopEndLayout.wrapped_decode w)
  | condCall => exact congrArg Layout.call (BranchLayout.wrapped_decode w)
  | condJmp => exact congrArg Layout.jump (BranchLayout.wrapped_decode w)
  | alloc => exact congrArg Layout.alloc (AllocLayout.wrapped_decode w)

/-! Pairs. -/

theorem packPair_unpackPair (t : Triple) : packPair (unpackPair t).1 (unpackPair t).2 = t := by
  have hd1 := t.d1.toNat_lt
  have hd2 := t.d2.toNat_lt
  have hhigh : t.d1.toUInt16.toUInt32.toNat = t.d1.toNat % 2 ^ 16 := UInt32.toNat_toUInt16 t.d1
  have hlast : (t.d2 >>> 16).toUInt16.toUInt32.toNat = t.d2.toNat / 2 ^ 16 % 2 ^ 16 := by
    rw [UInt16.toNat_toUInt32, UInt32.toNat_toUInt16, toNat_shiftRight_half]
  have hlow : (t.d1 >>> 16 ||| t.d2 <<< 16).toNat = t.d2.toNat % 2 ^ 16 * 2 ^ 16 + t.d1.toNat / 2 ^ 16 := by
    rw [toNat_join_half _ (by rw [toNat_shiftRight_half]; omega), toNat_shiftRight_half]
  have hupper : ((t.d1 >>> 16 ||| t.d2 <<< 16) >>> 16).toNat = t.d2.toNat % 2 ^ 16 := by
    rw [toNat_shiftRight_half, hlow]
    omega
  have h1 : t.d1.toUInt16.toUInt32 ||| (t.d1 >>> 16 ||| t.d2 <<< 16) <<< 16 = t.d1 := by
    rw [← UInt32.toNat_inj, toNat_join_half _ (by omega), hhigh, hlow]
    omega
  have h2 : (t.d1 >>> 16 ||| t.d2 <<< 16) >>> 16 ||| (t.d2 >>> 16).toUInt16.toUInt32 <<< 16 = t.d2 := by
    rw [← UInt32.toNat_inj, toNat_join_half _ (by omega), hupper, hlast]
    omega
  exact congr (congrArg (Triple.mk t.d0) h1) h2

theorem unpackPair_packPair (a b : Word) : unpackPair (packPair a b) = (a, b) := by
  have ha := a.high.toNat_lt
  have hb := b.high.toNat_lt
  have hl := b.low.toNat_lt
  have hmiddle : (a.high.toUInt32 ||| b.low <<< 16).toNat = b.low.toNat % 2 ^ 16 * 2 ^ 16 + a.high.toNat :=
    toNat_join_half b.low a.high.toNat_lt
  have hlast : (b.low >>> 16 ||| b.high.toUInt32 <<< 16).toNat = b.high.toNat * 2 ^ 16 + b.low.toNat / 2 ^ 16 := by
    rw [toNat_join_half _ (by rw [toNat_shiftRight_half]; omega), toNat_shiftRight_half, UInt16.toNat_toUInt32,
      Nat.mod_eq_of_lt hb]
  have hupper : ((a.high.toUInt32 ||| b.low <<< 16) >>> 16).toNat = b.low.toNat % 2 ^ 16 := by
    rw [toNat_shiftRight_half, hmiddle]
    omega
  have h1 : (a.high.toUInt32 ||| b.low <<< 16).toUInt16 = a.high := by
    rw [← UInt16.toNat_inj, UInt32.toNat_toUInt16, hmiddle]
    omega
  have h2 : (a.high.toUInt32 ||| b.low <<< 16) >>> 16 ||| (b.low >>> 16 ||| b.high.toUInt32 <<< 16) <<< 16 = b.low := by
    rw [← UInt32.toNat_inj, toNat_join_half _ (by omega), hupper, hlast]
    omega
  have h3 : ((b.low >>> 16 ||| b.high.toUInt32 <<< 16) >>> 16).toUInt16 = b.high := by
    rw [← UInt16.toNat_inj, UInt32.toNat_toUInt16, toNat_shiftRight_half, hlast]
    omega
  exact congr (congrArg Prod.mk (congrArg (Word.mk a.low) h1)) (congr (congrArg Word.mk h2) h3)

/-- What a word keeps of a layout, what a layout keeps of a word, and what a triple keeps of two words. -/
theorem control_flow_words_round_trip :
    (∀ w : Word, w.layout.encode = w.only w.opcode.usedBits) ∧
      (∀ w : Word, w.layout.encode.layout = w.layout) ∧
      (∀ l : Layout, l.IsProper → l.encode.layout = l.wrapped) ∧
      (∀ a b : Word, unpackPair (packPair a b) = (a, b)) ∧
      ∀ t : Triple, packPair (unpackPair t).1 (unpackPair t).2 = t := by
  refine ⟨Word.encode_layout, fun w => ?_, fun l => Layout.layout_encode, unpackPair_packPair, packPair_unpackPair⟩
  rw [Layout.layout_encode w.isProper_layout, w.wrapped_layout]

theorem control_flow_words_round_trip_of_wide_fields :
    (Layout.call ⟨.condCall, 0x12345, true, false, true, 0x1FF, true, false⟩).encode.layout =
      .call ⟨.condCall, 0x345, true, false, false, 0xFF, true, false⟩ :=
  control_flow_words_round_trip.2.2.1 _ rfl

end ShaderMicrocode.ControlFlow
