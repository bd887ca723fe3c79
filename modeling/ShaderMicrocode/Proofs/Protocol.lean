import ShaderMicrocode.Proofs.Errors
import ShaderMicrocode.Proofs.Steps
import ShaderMicrocode.Proofs.Walk
/-!
# The protocol of a backend

In which order a backend is called. A translation resets it, opens, reports the errors of the program as a whole,
shows the control flow instructions one after the other and completes. An exec frames the words of its block.
-/
namespace ShaderMicrocode

open ControlFlow Fetch

/-! Addresses of decoded words. -/

theorem Alu.Word.cases_of_mem_halves {op : Alu.Word} {stage : Stage} {address : UInt32}
    {half : Except DecodeError Alu.Instruction} (h : half ∈ op.halves stage address) :
    half = op.vector Vector.opcodes stage address ∨ half = op.scalar Scalar.opcodes stage address ∨
      half = .ok (op.nop address) := by
  unfold halves at h
  split at h <;> simp only [List.mem_cons, List.not_mem_nil, or_false] at h
  · exact h.imp id .inl
  · exact .inl h
  · exact .inr (.inl h)
  · exact .inr (.inr h)

theorem Alu.Word.length_halves (op : Alu.Word) (stage : Stage) (address : UInt32) :
    1 ≤ (op.halves stage address).length ∧ (op.halves stage address).length ≤ 2 := by
  unfold halves
  split <;> simp

/-! The grammar of notices. -/

def Event.index? : Event → Option UInt32
  | label k | nop k | ret k => some k
  | execBegin e | execEnd e => some e.index
  | loopStart l => some l.index
  | loopEnd l => some l.index
  | call c => some c.index
  | jump j => some j.index
  | alloc a => some a.index
  | _ => none

/-- The notices of the halves of an ALU word: the errors of those that cannot be decoded, then the others. -/
def halfNotices (halves : List (Except DecodeError Alu.Instruction)) : List Notice :=
  halves.filterMap (fun | .ok _ => none | .error d => some (.error (.undecodable d)))
    ++ halves.filterMap (fun | .ok i => some (.event (.alu i)) | .error _ => none)

section Grammar

variable (stage : Stage) (words : Array UInt32)

/-- The notices of word `i` of the block of `e`. -/
inductive IsWord (e : Exec) (i : Nat) : List Notice → Prop
  | vertexFetch (t : Triple) (f : VertexFetch) (hat : Triple.at? words (3 * (e.address.toNat + i)) = some t)
      (hfetch : e.sequence.toNat.testBit (2 * i) = true) (hcode : opcodeBits t = 0)
      (haddress : f.address.toNat = e.address.toNat + i) : IsWord e i [.event (.vertexFetch f)]
  | textureFetch (t : Triple) (f : TextureFetch) (hat : Triple.at? words (3 * (e.address.toNat + i)) = some t)
      (hfetch : e.sequence.toNat.testBit (2 * i) = true) (hcode : opcodeBits t ≠ 0)
      (haddress : f.address.toNat = e.address.toNat + i) : IsWord e i [.event (.textureFetch f)]
  | badFetch (t : Triple) (d : DecodeError) (hat : Triple.at? words (3 * (e.address.toNat + i)) = some t)
      (hfetch : e.sequence.toNat.testBit (2 * i) = true) : IsWord e i [.error (.undecodable d)]
  | alu (t : Triple) (address : UInt32) (hat : Triple.at? words (3 * (e.address.toNat + i)) = some t)
      (halu : e.sequence.toNat.testBit (2 * i) = false) (haddress : address.toNat = e.address.toNat + i)
      (hlength : 1 ≤ ((Alu.Word.decode t).halves stage address).length ∧
        ((Alu.Word.decode t).halves stage address).length ≤ 2)
      (hhalves : ∀ a, .ok a ∈ (Alu.Word.decode t).halves stage address → a.address = address) :
      IsWord e i (halfNotices ((Alu.Word.decode t).halves stage address))

/-- The notices of the `n` words from word `i` of the block of `e` on. The first word outside the microcode ends
them; apart from that they are complete unless the block may be left. -/
inductive IsBody (e : Exec) (isLeft : Prop) : Nat → Nat → List Notice → Prop
  | done (i : Nat) : IsBody e isLeft i 0 []
  | left (i n : Nat) (h : isLeft) : IsBody e isLeft i n []
  | outside (i n : Nat) (address : UInt32) (haddress : address.toNat = e.address.toNat + i)
      (hat : Triple.at? words (3 * (e.address.toNat + i)) = none) :
      IsBody e isLeft i (n + 1) [.error (.undecodable (.instructionOutOfRange address words.size))]
  | word (i n : Nat) {ns rest : List Notice} (hword : IsWord stage words e i ns)
      (hrest : IsBody e isLeft (i + 1) n rest) : IsBody e isLeft i (n + 1) (ns ++ rest)

/-- The notices of the control flow word `w` of index `k`, its label apart. -/
inductive IsCore (k : Nat) (w : Word) (isLeft : Prop) : List Notice → Prop
  | undecodable (h : w.opcode = .markVsFetchDone) :
      IsCore k w isLeft [.error (.undecodable (.unimplementedControlFlow .markVsFetchDone))]
  | plain (index : UInt32) (i : Instruction) (hk : index.toNat = k) (h : w.resolve index stage = .ok i)
      (hplain : ∀ e, i ≠ .exec e) (hindex : (Schedule.event i).index? = some index) :
      IsCore k w isLeft [.event (Schedule.event i)]
  | exec (e : Exec) {body : List Notice} (hk : e.index.toNat = k) (h : w.resolve e.index stage = .ok (.exec e))
      (hbody : IsBody stage words e isLeft 0 e.count.toNat body) :
      IsCore k w isLeft (.event (.execBegin e) :: body ++ [.event (.execEnd e)])

/-- The notices of the control flow word `w` of index `k`, which may start with a label. -/
inductive IsBlock (k : Nat) (w : Word) (isLeft : Prop) : List Notice → Prop
  | unlabelled {core : List Notice} (hcore : IsCore stage words k w isLeft core) : IsBlock k w isLeft core
  | labelled (index : UInt32) {core : List Notice} (hk : index.toNat = k)
      (hcore : IsCore stage words k w isLeft core) : IsBlock k w isLeft (.event (.label index) :: core)

/-- One block of notices for each of the control flow words `ws` from index `k` on; an abort may leave the last block
early and the words behind it out. -/
structure AreBlocks (isAborted : Prop) (k : Nat) (ws : List Word) (blocks : List (List Notice)) : Prop where
  length_le : blocks.length ≤ ws.length
  length_eq : ¬isAborted → blocks.length = ws.length
  isBlock : ∀ j (h : j < blocks.length),
    IsBlock stage words (k + j) ws[j] (isAborted ∧ j + 1 = blocks.length) blocks[j]

end Grammar

/-! Words. -/

theorem notices_ofFetch {α : Type} (address : UInt32) (p : Predicate) (decoded : Except DecodeError α)
    (text : α → String) (event : α → Event) :
    (Act.ofFetch address p decoded text event).filterMap Act.notice? =
      match decoded with
      | .ok f => [.event (event f)]
      | .error e => [.error (.undecodable e)] := by
  cases decoded <;> rfl

theorem notices_ofHalves (address : UInt32) (p : Predicate) (halves : List (Except DecodeError Alu.Instruction)) :
    (Act.ofHalves address p halves).filterMap Act.notice? = halfNotices halves := by
  unfold Act.ofHalves halfNotices Act.wordLine
  rw [List.cons_append, List.filterMap_cons_none rfl, List.filterMap_append, List.filterMap_filterMap,
    List.filterMap_filterMap]
  congr 1
  · congr 1
    funext half
    cases half <;> rfl
  · congr 1
    funext half
    cases half <;> rfl

namespace Schedule

end Schedule

/-! Frames. -/

namespace Notice

private def IsInner : Notice → Prop
  | reset | event .start | complete => False
  | _ => True

end Notice

private theorem IsWord.isInner {stage : Stage} {words : Array UInt32} {e : Exec} {i : Nat} {ns : List Notice}
    (h : IsWord stage words e i ns) : ∀ n ∈ ns, n.IsInner := by
  intro n hn
  cases h with
  | alu t address hat halu haddress hlength hhalves =>
    rcases List.mem_append.mp hn with hn | hn
    all_goals
      obtain ⟨half, -, hhalf⟩ := List.mem_filterMap.mp hn
      cases half <;> simp only [Option.some.injEq, reduceCtorEq] at hhalf
      subst hhalf
      trivial
  | _ =>
    rw [List.mem_singleton.mp hn]
    trivial

private theorem IsBody.isInner {stage : Stage} {words : Array UInt32} {e : Exec} {isLeft : Prop} {i n : Nat}
    {ns : List Notice} (h : IsBody stage words e isLeft i n ns) : ∀ n ∈ ns, n.IsInner := by
  induction h with
  | done i => exact List.forall_mem_nil _
  | left i n h => exact List.forall_mem_nil _
  | outside i n address haddress hat => exact List.forall_mem_singleton.mpr trivial
  | word i n hword hrest ih => exact List.forall_mem_append.mpr ⟨hword.isInner, ih⟩

private theorem IsCore.isInner {stage : Stage} {words : Array UInt32} {k : Nat} {w : Word} {isLeft : Prop}
    {ns : List Notice} (h : IsCore stage words k w isLeft ns) : ∀ n ∈ ns, n.IsInner := by
  intro n hn
  cases h with
  | undecodable h =>
    rw [List.mem_singleton.mp hn]
    trivial
  | plain index i hk h hplain hindex =>
    rw [List.mem_singleton.mp hn]
    cases i <;> trivial
  | exec e hk h hbody =>
    rw [List.cons_append, List.mem_cons, List.mem_append, List.mem_singleton] at hn
    rcases hn with rfl | hn | rfl
    · trivial
    · exact hbody.isInner n hn
    · trivial

private theorem IsBlock.isInner {stage : Stage} {words : Array UInt32} {k : Nat} {w : Word} {isLeft : Prop}
    {ns : List Notice} (h : IsBlock stage words k w isLeft ns) : ∀ n ∈ ns, n.IsInner := by
  cases h with
  | unlabelled hcore => exact hcore.isInner
  | labelled index hk hcore => exact List.forall_mem_cons.mpr ⟨trivial, hcore.isInner⟩

private theorem AreBlocks.isInner {stage : Stage} {words : Array UInt32} {isAborted : Prop} {k : Nat} {ws : List Word}
    {blocks : List (List Notice)} (h : AreBlocks stage words isAborted k ws blocks) :
    ∀ n ∈ blocks.flatten, n.IsInner := by
  intro n hn
  obtain ⟨block, hblock, hn⟩ := List.mem_flatten.mp hn
  obtain ⟨j, hj, rfl⟩ := List.mem_iff_getElem.mp hblock
  exact (h.isBlock j hj).isInner n hn

namespace Shader

variable {σ : Type}

end Shader

end ShaderMicrocode
