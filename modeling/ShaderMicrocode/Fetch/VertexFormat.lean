/-!
# Vertex formats

The element formats that a vertex fetch can read.
-/
namespace ShaderMicrocode.Fetch

inductive VertexFormat where
  | f8_8_8_8
  | f2_10_10_10
  | f10_11_11
  | f11_11_10
  | f16_16
  | f16_16_16_16
  | f16_16_float
  | f16_16_16_16_float
  | f32
  | f32_32
  | f32_32_32_32
  | f32_float
  | f32_32_float
  | f32_32_32_32_float
  | f32_32_32_float
deriving DecidableEq, Inhabited

namespace VertexFormat

def all : List VertexFormat :=
  [f8_8_8_8, f2_10_10_10, f10_11_11, f11_11_10, f16_16, f16_16_16_16, f16_16_float, f16_16_16_16_float, f32, f32_32,
    f32_32_32_32, f32_float, f32_32_float, f32_32_32_32_float, f32_32_32_float]

def code : VertexFormat → UInt32
  | f8_8_8_8 => 6
  | f2_10_10_10 => 7
  | f10_11_11 => 16
  | f11_11_10 => 17
  | f16_16 => 25
  | f16_16_16_16 => 26
  | f16_16_float => 31
  | f16_16_16_16_float => 32
  | f32 => 33
  | f32_32 => 34
  | f32_32_32_32 => 35
  | f32_float => 36
  | f32_32_float => 37
  | f32_32_32_32_float => 38
  | f32_32_32_float => 57

def ofCode? (n : UInt32) : Option VertexFormat := all.find? (·.code == n)

theorem ofCode?_code (f : VertexFormat) : ofCode? f.code = some f := by
  cases f <;> rfl

theorem code_of_ofCode? {n : UInt32} {f : VertexFormat} (h : ofCode? n = some f) : f.code = n := by
  simpa using List.find?_some h

/-- Dwords of one element. -/
def sizeInWords : VertexFormat → UInt32
  | f8_8_8_8 | f2_10_10_10 | f10_11_11 | f11_11_10 | f16_16 | f16_16_float | f32 | f32_float => 1
  | f16_16_16_16 | f16_16_16_16_float | f32_32 | f32_32_float => 2
  | f32_32_32_float => 3
  | f32_32_32_32 | f32_32_32_32_float => 4

/-- Components of one element. -/
def componentCount : VertexFormat → UInt32
  | f32 | f32_float => 1
  | f16_16 | f16_16_float | f32_32 | f32_32_float => 2
  | f10_11_11 | f11_11_10 | f32_32_32_float => 3
  | f8_8_8_8 | f2_10_10_10 | f16_16_16_16 | f16_16_16_16_float | f32_32_32_32 | f32_32_32_32_float => 4

def name : VertexFormat → String
  | f8_8_8_8 => "8_8_8_8"
  | f2_10_10_10 => "2_10_10_10"
  | f10_11_11 => "10_11_11"
  | f11_11_10 => "11_11_10"
  | f16_16 => "16_16"
  | f16_16_16_16 => "16_16_16_16"
  | f16_16_float => "16_16_FLOAT"
  | f16_16_16_16_float => "16_16_16_16_FLOAT"
  | f32 => "32"
  | f32_32 => "32_32"
  | f32_32_32_32 => "32_32_32_32"
  | f32_float => "32_FLOAT"
  | f32_32_float => "32_32_FLOAT"
  | f32_32_32_32_float => "32_32_32_32_FLOAT"
  | f32_32_32_float => "32_32_32_FLOAT"

end VertexFormat

end ShaderMicrocode.Fetch
