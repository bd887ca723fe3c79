import ShaderMicrocode.Fetch.TextureWord
import ShaderMicrocode.Proofs.Packing
/-!
# Fetch words and their triples

A triple gives back every number that its field can hold, and a number beyond that is cut to the width of its field.
A triple that is decoded and encoded again loses the bits that belong to no field.
-/
namespace ShaderMicrocode.Fetch

open BitField

/-! Vertex fetches. -/

namespace VertexWord

/-- The word with every number cut to its width. -/
def wrapped (op : VertexWord) : VertexWord :=
  { op with
    srcReg := op.srcReg % 64
    dstReg := op.dstReg % 64
    constIndex := op.constIndex % 32
    constIndexSelect := op.constIndexSelect % 4
    prefetchCount := op.prefetchCount % 8
    srcSwizzle := op.srcSwizzle % 4
    dstSwizzle := op.dstSwizzle % 4096
    format := op.format % 64
    expAdjust := wrapSigned 6 op.expAdjust
    stride := op.stride % 256
    offset := wrapSigned 23 op.offset }

/-- Every number fits its field. -/
structure InRange (op : VertexWord) : Prop where
  srcReg : op.srcReg < 64
  dstReg : op.dstReg < 64
  constIndex : op.constIndex < 32
  constIndexSelect : op.constIndexSelect < 4
  prefetchCount : op.prefetchCount < 8
  srcSwizzle : op.srcSwizzle < 4
  dstSwizzle : op.dstSwizzle < 4096
  format : op.format < 64
  expAdjust : InSigned 6 op.expAdjust
  stride : op.stride < 256
  offset : InSigned 23 op.offset

theorem wrapped_eq_self_iff (op : VertexWord) : op.wrapped = op ↔ op.InRange := by
  constructor
  · intro h
    have hfield {α : Type} (field : VertexWord → α) : field op.wrapped = field op := congrArg field h
    exact
      { srcReg := (mod_eq_self_iff (by decide)).mp (hfield srcReg)
        dstReg := (mod_eq_self_iff (by decide)).mp (hfield dstReg)
        constIndex := (mod_eq_self_iff (by decide)).mp (hfield constIndex)
        constIndexSelect := (mod_eq_self_iff (by decide)).mp (hfield constIndexSelect)
        prefetchCount := (mod_eq_self_iff (by decide)).mp (hfield prefetchCount)
        srcSwizzle := (mod_eq_self_iff (by decide)).mp (hfield srcSwizzle)
        dstSwizzle := (mod_eq_self_iff (by decide)).mp (hfield dstSwizzle)
        format := (mod_eq_self_iff (by decide)).mp (hfield format)
        expAdjust := (wrapSigned_eq_self_iff (by decide) (by decide) _).mp (hfield expAdjust)
        stride := (mod_eq_self_iff (by decide)).mp (hfield stride)
        offset := (wrapSigned_eq_self_iff (by decide) (by decide) _).mp (hfield offset) }
  · intro h
    have hexp := (wrapSigned_eq_self_iff (by decide) (by decide) op.expAdjust).mpr h.expAdjust
    have hoffset := (wrapSigned_eq_self_iff (by decide) (by decide) op.offset).mpr h.offset
    simp only [wrapped, hexp, hoffset, UInt32.mod_eq_of_lt h.srcReg, UInt32.mod_eq_of_lt h.dstReg,
      UInt32.mod_eq_of_lt h.constIndex, UInt32.mod_eq_of_lt h.constIndexSelect,
      UInt32.mod_eq_of_lt h.prefetchCount, UInt32.mod_eq_of_lt h.srcSwizzle, UInt32.mod_eq_of_lt h.dstSwizzle,
      UInt32.mod_eq_of_lt h.format, UInt32.mod_eq_of_lt h.stride]

theorem decode_encode (op : VertexWord) : decode op.encode = op.wrapped := by
  have hexp : VertexField.expAdjust.readSigned op.encode.d1 = wrapSigned 6 op.expAdjust := by
    apply readSigned_of_read _ (by decide)
    simp (disch := decide) only [encode, mark, placeSigned, read_or, read_place_self, read_place_of_apart,
      UInt32.or_zero, UInt32.zero_or]
  have hoffset : VertexField.offset.readSigned op.encode.d2 = wrapSigned 23 op.offset := by
    apply readSigned_of_read _ (by decide)
    simp (disch := decide) only [encode, mark, placeSigned, read_or, read_place_self, read_place_of_apart,
      UInt32.or_zero, UInt32.zero_or]
  unfold decode
  rw [hexp, hoffset]
  simp (disch := decide) only [encode, mark, placeSigned, read_or, read_place_self, read_place_of_apart, test_or,
    test_place_self, test_place_of_apart, UInt32.or_zero, UInt32.zero_or, Bool.or_false, Bool.false_or]
  rfl

theorem encode_decode (t : Triple) : (decode t).encode = ⟨clear ⟨0, 5⟩ t.d0, clear ⟨22, 2⟩ t.d1, t.d2⟩ := by
  simp (disch := decide) only [decode, encode, place_read, mark_test, placeSigned_readSigned, and_or_and]
  rw [Triple.mk.injEq]
  exact ⟨congrArg (t.d0 &&& ·) (by decide), congrArg (t.d1 &&& ·) (by decide), and_of_full (by decide) t.d2⟩

theorem opcodeBits_encode (op : VertexWord) : opcodeBits op.encode = 0 := by
  simp (disch := decide) only [opcodeBits, encode, mark, read_or, read_place_of_apart, UInt32.or_zero]

end VertexWord

/-! Texture fetches. -/

namespace TextureWord

/-- The word with every number cut to its width. -/
def wrapped (op : TextureWord) : TextureWord :=
  { op with
    opcode := op.opcode % 32
    srcReg := op.srcReg % 64
    dstReg := op.dstReg % 64
    constIndex := op.constIndex % 32
    srcSwizzle := op.srcSwizzle % 64
    dstSwizzle := op.dstSwizzle % 4096
    magFilter := op.magFilter % 4
    minFilter := op.minFilter % 4
    mipFilter := op.mipFilter % 4
    anisoFilter := op.anisoFilter % 8
    arbitraryFilter := op.arbitraryFilter % 8
    volMagFilter := op.volMagFilter % 4
    volMinFilter := op.volMinFilter % 4
    sampleLocation := op.sampleLocation % 2
    lodBias := wrapSigned 7 op.lodBias
    dimension := op.dimension % 4
    offsetX := wrapSigned 5 op.offsetX
    offsetY := wrapSigned 5 op.offsetY
    offsetZ := wrapSigned 5 op.offsetZ }

/-- Every number fits its field. -/
structure InRange (op : TextureWord) : Prop where
  opcode : op.opcode < 32
  srcReg : op.srcReg < 64
  dstReg : op.dstReg < 64
  constIndex : op.constIndex < 32
  srcSwizzle : op.srcSwizzle < 64
  dstSwizzle : op.dstSwizzle < 4096
  magFilter : op.magFilter < 4
  minFilter : op.minFilter < 4
  mipFilter : op.mipFilter < 4
  anisoFilter : op.anisoFilter < 8
  arbitraryFilter : op.arbitraryFilter < 8
  volMagFilter : op.volMagFilter < 4
  volMinFilter : op.volMinFilter < 4
  sampleLocation : op.sampleLocation < 2
  lodBias : InSigned 7 op.lodBias
  dimension : op.dimension < 4
  offsetX : InSigned 5 op.offsetX
  offsetY : InSigned 5 op.offsetY
  offsetZ : InSigned 5 op.offsetZ

theorem wrapped_eq_self_iff (op : TextureWord) : op.wrapped = op ↔ op.InRange := by
  constructor
  · intro h
    have hfield {α : Type} (field : TextureWord → α) : field op.wrapped = field op := congrArg field h
    exact
      { opcode := (mod_eq_self_iff (by decide)).mp (hfield opcode)
        srcReg := (mod_eq_self_iff (by decide)).mp (hfield srcReg)
        dstReg := (mod_eq_self_iff (by decide)).mp (hfield dstReg)
        constIndex := (mod_eq_self_iff (by decide)).mp (hfield constIndex)
        srcSwizzle := (mod_eq_self_iff (by decide)).mp (hfield srcSwizzle)
        dstSwizzle := (mod_eq_self_iff (by decide)).mp (hfield dstSwizzle)
        magFilter := (mod_eq_self_iff (by decide)).mp (hfield magFilter)
        minFilter := (mod_eq_self_iff (by decide)).mp (hfield minFilter)
        mipFilter := (mod_eq_self_iff (by decide)).mp (hfield mipFilter)
        anisoFilter := (mod_eq_self_iff (by decide)).mp (hfield anisoFilter)
        arbitraryFilter := (mod_eq_self_iff (by decide)).mp (hfield arbitraryFilter)
        volMagFilter := (mod_eq_self_iff (by decide)).mp (hfield volMagFilter)
        volMinFilter := (mod_eq_self_iff (by decide)).mp (hfield volMinFilter)
        sampleLocation := (mod_eq_self_iff (by decide)).mp (hfield sampleLocation)
        lodBias := (wrapSigned_eq_self_iff (by decide) (by decide) _).mp (hfield lodBias)
        dimension := (mod_eq_self_iff (by decide)).mp (hfield dimension)
        offsetX := (wrapSigned_eq_self_iff (by decide) (by decide) _).mp (hfield offsetX)
        offsetY := (wrapSigned_eq_self_iff (by decide) (by decide) _).mp (hfield offsetY)
        offsetZ := (wrapSigned_eq_self_iff (by decide) (by decide) _).mp (hfield offsetZ) }
  · intro h
    have hbias := (wrapSigned_eq_self_iff (by decide) (by decide) op.lodBias).mpr h.lodBias
    have hx := (wrapSigned_eq_self_iff (by decide) (by decide) op.offsetX).mpr h.offsetX
    have hy := (wrapSigned_eq_self_iff (by decide) (by decide) op.offsetY).mpr h.offsetY
    have hz := (wrapSigned_eq_self_iff (by decide) (by decide) op.offsetZ).mpr h.offsetZ
    simp only [wrapped, hbias, hx, hy, hz, UInt32.mod_eq_of_lt h.opcode, UInt32.mod_eq_of_lt h.srcReg,
      UInt32.mod_eq_of_lt h.dstReg, UInt32.mod_eq_of_lt h.constIndex, UInt32.mod_eq_of_lt h.srcSwizzle,
      UInt32.mod_eq_of_lt h.dstSwizzle, UInt32.mod_eq_of_lt h.magFilter, UInt32.mod_eq_of_lt h.minFilter,
      UInt32.mod_eq_of_lt h.mipFilter, UInt32.mod_eq_of_lt h.anisoFilter, UInt32.mod_eq_of_lt h.arbitraryFilter,
      UInt32.mod_eq_of_lt h.volMagFilter, UInt32.mod_eq_of_lt h.volMinFilter, UInt32.mod_eq_of_lt h.sampleLocation,
      UInt32.mod_eq_of_lt h.dimension]

private theorem readSigned_encode (op : TextureWord) :
    TextureField.lodBias.readSigned op.encode.d2 = wrapSigned 7 op.lodBias ∧
      TextureField.offsetX.readSigned op.encode.d2 = wrapSigned 5 op.offsetX ∧
      TextureField.offsetY.readSigned op.encode.d2 = wrapSigned 5 op.offsetY ∧
      TextureField.offsetZ.readSigned op.encode.d2 = wrapSigned 5 op.offsetZ := by
  refine ⟨?_, ?_, ?_, ?_⟩
  all_goals
    apply readSigned_of_read _ (by decide)
    simp (disch := decide) only [encode, mark, placeSigned, read_or, read_place_self, read_place_of_apart,
      UInt32.or_zero, UInt32.zero_or]

theorem decode_encode (op : TextureWord) : decode op.encode = op.wrapped := by
  obtain ⟨hbias, hx, hy, hz⟩ := op.readSigned_encode
  unfold decode
  rw [hbias, hx, hy, hz]
  simp (disch := decide) only [opcodeBits, encode, mark, placeSigned, read_or, read_place_self, read_place_of_apart,
    test_or, test_place_self, test_place_of_apart, UInt32.or_zero, UInt32.zero_or, Bool.or_false, Bool.false_or]
  rfl

theorem encode_decode (t : Triple) : (decode t).encode = ⟨t.d0, clear ⟨30, 1⟩ t.d1, clear ⟨9, 5⟩ t.d2⟩ := by
  simp (disch := decide) only [decode, opcodeBits, encode, place_read, mark_test, placeSigned_readSigned, and_or_and]
  rw [Triple.mk.injEq]
  exact ⟨and_of_full (by decide) t.d0, congrArg (t.d1 &&& ·) (by decide), congrArg (t.d2 &&& ·) (by decide)⟩

theorem opcodeBits_encode (op : TextureWord) : opcodeBits op.encode = op.opcode % 32 :=
  congrArg TextureWord.opcode op.decode_encode

end TextureWord

/-- What a triple keeps of a fetch word, and what a fetch word keeps of a triple. -/
theorem fetch_words_round_trip :
    (∀ t, (VertexWord.decode t).encode = ⟨clear ⟨0, 5⟩ t.d0, clear ⟨22, 2⟩ t.d1, t.d2⟩) ∧
      (∀ t, (TextureWord.decode t).encode = ⟨t.d0, clear ⟨30, 1⟩ t.d1, clear ⟨9, 5⟩ t.d2⟩) ∧
      (∀ op : VertexWord, VertexWord.decode op.encode = op.wrapped) ∧
      (∀ op : TextureWord, TextureWord.decode op.encode = op.wrapped) ∧
      (∀ op : VertexWord, VertexWord.decode op.encode = op ↔ op.InRange) ∧
      (∀ op : TextureWord, TextureWord.decode op.encode = op ↔ op.InRange) ∧
      (∀ op : VertexWord, opcodeBits op.encode = 0) ∧
      ∀ op : TextureWord, opcodeBits op.encode = op.opcode % 32 := by
  refine ⟨VertexWord.encode_decode, TextureWord.encode_decode, VertexWord.decode_encode, TextureWord.decode_encode,
    fun op => ?_, fun op => ?_, VertexWord.opcodeBits_encode, TextureWord.opcodeBits_encode⟩
  · rw [op.decode_encode, op.wrapped_eq_self_iff]
  · rw [op.decode_encode, op.wrapped_eq_self_iff]

end ShaderMicrocode.Fetch
