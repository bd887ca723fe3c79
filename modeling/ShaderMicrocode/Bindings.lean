import ShaderMicrocode.Diagnostic
import ShaderMicrocode.Walk
import ShaderMicrocode.Fetch.TextureFetch
import ShaderMicrocode.Fetch.VertexFetch
/-!
# Bindings

The vertex buffers and textures that a shader reads, gathered from all its fetches before any of them is shown to
a backend. Fetches that write nothing or cannot be decoded bind nothing.
-/
namespace ShaderMicrocode

open Fetch

/-- One attribute of a vertex buffer, with the fetch that introduced it. -/
structure VertexAttribute where
  /-- Counts the attributes of all bindings of the shader. -/
  index : UInt32
  fetch : VertexFetch
deriving DecidableEq, Inhabited

namespace VertexAttribute

def format (a : VertexAttribute) : VertexFormat := a.fetch.format

def offsetInWords (a : VertexAttribute) : Int32 := a.fetch.offset

def byteOffset (a : VertexAttribute) : Int32 := a.offsetInWords * 4

def sizeInWords (a : VertexAttribute) : UInt32 := a.format.sizeInWords

def isNormalized (a : VertexAttribute) : Bool := !a.fetch.isInteger

def isSigned (a : VertexAttribute) : Bool := a.fetch.isSigned

end VertexAttribute

/-- Whether two fetches read the same element of a vertex buffer in the same way. -/
def Fetch.VertexFetch.sameLayout (a b : VertexFetch) : Bool :=
  a.format == b.format && a.offset == b.offset && a.isInteger == b.isInteger && a.isSigned == b.isSigned
    && a.expAdjust == b.expAdjust

/-- A vertex buffer, read through one fetch constant slot. -/
structure VertexBinding where
  index : UInt32
  slot : UInt32
  /-- Stride in dwords, as the first fetch of the slot gives it. -/
  stride : UInt32
  attributes : List VertexAttribute
deriving DecidableEq, Inhabited

/-- A texture, read through one fetch constant slot. -/
structure TextureBinding where
  index : UInt32
  slot : UInt32
  fetch : TextureFetch
deriving DecidableEq, Inhabited

def TextureBinding.dimension (b : TextureBinding) : Dimension := b.fetch.dimension

/-- Two fetches of one vertex slot that disagree on its stride. -/
structure StrideMismatch where
  slot : UInt32
  first : UInt32
  other : UInt32
deriving DecidableEq, Inhabited

/-- What the fetches seen so far bind. -/
structure Bindings where
  vertex : List VertexBinding
  texture : List TextureBinding
  attributeCount : UInt32
  /-- The full vertex fetch seen last. -/
  lastFull : Option VertexWord
  mismatches : List StrideMismatch
  conflicts : List Diagnostic
deriving DecidableEq, Inhabited

namespace Bindings

def empty : Bindings := ⟨[], [], 0, none, [], []⟩

/-- Adds a fetch to the binding of its slot, unless an attribute of that binding has its layout. -/
def addAttribute (b : Bindings) (f : VertexFetch) (binding : VertexBinding) : Bindings :=
  if binding.attributes.any (·.fetch.sameLayout f) then b
  else
    { b with
      vertex := b.vertex.map fun v =>
        if v.slot = binding.slot then { v with attributes := v.attributes ++ [⟨b.attributeCount, f⟩] } else v
      attributeCount := b.attributeCount + 1 }

/-- A slot seen for the first time is bound with the stride of its fetch; a later fetch with another stride is
noted. -/
def addVertexFetch (b : Bindings) (f : VertexFetch) : Bindings :=
  match b.vertex.find? (·.slot == f.slot) with
  | some binding =>
    let noted :=
      if binding.stride = f.stride then b
      else { b with mismatches := b.mismatches ++ [⟨f.slot, binding.stride, f.stride⟩] }
    noted.addAttribute f binding
  | none =>
    let binding : VertexBinding := ⟨UInt32.ofNat b.vertex.length, f.slot, f.stride, []⟩
    { b with vertex := b.vertex ++ [binding] }.addAttribute f binding

/-- The first fetch of a slot fixes its dimension; a later fetch with another one is a conflict. -/
def addTextureFetch (b : Bindings) (slot : UInt32) (f : TextureFetch) : Bindings :=
  match b.texture.find? (·.slot == slot) with
  | some binding =>
    if binding.dimension = f.dimension then b
    else { b with conflicts := b.conflicts ++ [.textureConflict slot binding.dimension f.dimension] }
  | none => { b with texture := b.texture ++ [⟨UInt32.ofNat b.texture.length, slot, f⟩] }

def addVertexWord (b : Bindings) (op : VertexWord) (address : UInt32) : Bindings :=
  let bound :=
    if op.fetchesAnyData then
      match op.resolve b.lastFull address with
      | .ok f => b.addVertexFetch f
      | .error _ => b
    else b
  { bound with lastFull := op.remember b.lastFull }

def addTextureWord (b : Bindings) (op : TextureWord) (address : UInt32) : Bindings :=
  match op.resolve address with
  | .ok f =>
    match f.slot? with
    | some slot => if op.fetchesAnyData then b.addTextureFetch slot f else b
    | none => b
  | .error _ => b

/-- Adds the fetch of a visited fetch word. -/
def addVisit (b : Bindings) (v : Visit) : Bindings :=
  if opcodeBits v.word = Opcode.vertexFetch.code then b.addVertexWord (.decode v.word) v.address
  else b.addTextureWord (.decode v.word) v.address

/-- The bindings `b` with those of all the fetches of a program added. -/
def gatherOnto (b : Bindings) (fetches : List Visit) : Bindings := fetches.foldl addVisit b

/-- The bindings of all the fetches of a program. -/
def gather (fetches : List Visit) : Bindings := empty.gatherOnto fetches

end Bindings

end ShaderMicrocode
