import ShaderMicrocode.Proofs.Cut
/-!
# Steps of the walk

What a control flow instruction contributes to the schedule. An exec opens and closes its block with its own two
events, and nothing between them opens or closes a block.
-/
namespace ShaderMicrocode

open ControlFlow

namespace Act

def IsOfWord : Act → Prop
  | print _ | report _ => True
  | present (.vertexFetch _) | present (.textureFetch _) | present (.alu _) => True
  | _ => False

private theorem isOfWord_ofFetch {α : Type} (address : UInt32) (p : Predicate) (decoded : Except DecodeError α)
    (text : α → String) (event : α → Event) (hevent : ∀ f, (present (event f)).IsOfWord) :
    ∀ a ∈ ofFetch address p decoded text event, a.IsOfWord := by
  intro a ha
  cases decoded with
  | ok f =>
    simp only [ofFetch, List.mem_cons, List.not_mem_nil, or_false] at ha
    rcases ha with rfl | rfl
    · trivial
    · exact hevent f
  | error e =>
    simp only [ofFetch, List.mem_cons, List.not_mem_nil, or_false] at ha
    rcases ha with rfl | rfl <;> trivial

private theorem isOfWord_ofHalves (address : UInt32) (p : Predicate)
    (halves : List (Except DecodeError Alu.Instruction)) : ∀ a ∈ ofHalves address p halves, a.IsOfWord := by
  intro a ha
  simp only [ofHalves, List.cons_append, List.mem_cons, List.mem_append, List.mem_filterMap] at ha
  rcases ha with rfl | ⟨half, -, h⟩ | ⟨half, -, h⟩
  · trivial
  all_goals
    cases half <;> simp only [Option.some.injEq, reduceCtorEq] at h
    subst h
    trivial

private theorem isOfWord_ofVisit (stage : Stage) (lastFull : Option Fetch.VertexWord) (v : Visit) :
    ∀ a ∈ ofVisit stage lastFull v, a.IsOfWord := by
  unfold ofVisit
  dsimp only
  split
  · split
    · exact isOfWord_ofFetch _ _ _ _ _ fun _ => trivial
    · exact isOfWord_ofFetch _ _ _ _ _ fun _ => trivial
  · exact isOfWord_ofHalves _ _ _

end Act

theorem ControlFlow.Word.layout_eq_markVsFetchDone_iff (w : Word) :
    w.layout = .markVsFetchDone ↔ w.opcode = .markVsFetchDone := by
  unfold layout
  cases w.opcode <;> simp

theorem ControlFlow.Word.layout_ne_exec {w : Word} {index : UInt32} {stage : Stage} {i : Instruction}
    (h : w.resolve index stage = .ok i) (hne : ∀ e, i ≠ .exec e) (l : ExecLayout) : w.layout ≠ .exec l := by
  intro hl
  simp only [resolve, hl, Except.ok.injEq] at h
  exact hne _ h.symm

namespace Schedule

variable (stage : Stage) (words : Array UInt32) (labels : List UInt32) (lastFull : Option Fetch.VertexWord)

private theorem isOfWord_ofVisits (vs : List Visit) : ∀ w ∈ ofVisits stage lastFull vs, ∀ a ∈ w, a.IsOfWord := by
  induction vs generalizing lastFull with
  | nil => intro w hw; cases hw
  | cons v vs ih =>
    intro w hw
    rcases List.mem_cons.mp hw with rfl | hw
    · exact Act.isOfWord_ofVisit stage lastFull v
    · exact ih _ w hw

private theorem isOfWord_ofBlock (b : Block) : ∀ w ∈ ofBlock stage lastFull b, ∀ a ∈ w, a.IsOfWord := by
  intro w hw a ha
  rcases List.mem_append.mp hw with hw | hw
  · exact isOfWord_ofVisits stage lastFull b.visits w hw a ha
  · cases hf : b.fault? with
    | none => simp [hf] at hw
    | some e =>
      simp only [hf, Option.map_some, Option.toList_some, List.mem_singleton] at hw
      subst hw
      rw [List.mem_singleton.mp ha]
      trivial

/-- The line of an instruction, or of a word that cannot be decoded. -/
def ownLine (stage : Stage) (index : UInt32) (w : Word) : String :=
  instructionLine (controlFlowOffset index)
    (match w.resolve index stage with
    | .ok i => i.text
    | .error e => Predicate.blank ++ e.placeholder)

/-- Shows the instruction, or reports why there is none. -/
def ownAct (stage : Stage) (index : UInt32) (w : Word) : Act :=
  match w.resolve index stage with
  | .ok i => .present (event i)
  | .error e => .report (.undecodable e)

/-- The words of the block of `w`. -/
def wordActs (stage : Stage) (words : Array UInt32) (last : Option Fetch.VertexWord) (w : Word) : List (List Act) :=
  match w.layout with
  | .exec l => ofBlock stage last (Block.read words l)
  | _ => []

theorem isOfWord_wordActs (w : Word) : ∀ word ∈ wordActs stage words lastFull w, ∀ a ∈ word, a.IsOfWord := by
  unfold wordActs
  cases w.layout with
  | exec l => exact isOfWord_ofBlock stage lastFull _
  | _ => exact fun _ hword => absurd hword List.not_mem_nil

/-- Closes the block that `w` opens. -/
def endActs (stage : Stage) (index : UInt32) (w : Word) : List Act :=
  match w.resolve index stage with
  | .ok (.exec e) => [.present (.execEnd e)]
  | _ => []

theorem step_eq (index : UInt32) (w : Word) :
    step stage words labels lastFull index w =
      { index := index
        opening := labelActs labels index ++
          [.announce index w.opcode, .print (ownLine stage index w), ownAct stage index w]
        block := wordActs stage words lastFull w
        closing := endActs stage index w } := by
  unfold step ownLine ownAct wordActs endActs Word.block? Word.resolve
  cases w.layout with
  | exec l => simp [event, Instruction.text]
  | _ => simp

/-- What a control flow word can be: an exec, a word that cannot be decoded, or an instruction without a block. -/
theorem acts_cases (index : UInt32) (w : Word) :
    (∃ l, w.layout = .exec l ∧ w.resolve index stage = .ok (.exec (l.resolve index)) ∧
        ownAct stage index w = .present (.execBegin (l.resolve index)) ∧
        wordActs stage words lastFull w = ofBlock stage lastFull (Block.read words l) ∧
        endActs stage index w = [.present (.execEnd (l.resolve index))]) ∨
      (w.layout = .markVsFetchDone ∧
        ownAct stage index w = .report (.undecodable (.unimplementedControlFlow .markVsFetchDone)) ∧
        wordActs stage words lastFull w = [] ∧ endActs stage index w = []) ∨
      ∃ i, w.resolve index stage = .ok i ∧ (∀ e, i ≠ .exec e) ∧ ownAct stage index w = .present (event i) ∧
        wordActs stage words lastFull w = [] ∧ endActs stage index w = [] := by
  have hmark := w.layout_eq_markVsFetchDone_iff
  unfold ownAct wordActs endActs Word.resolve
  cases hl : w.layout with
  | exec l => exact .inl ⟨l, rfl, rfl, rfl, rfl, rfl⟩
  | markVsFetchDone => exact .inr (.inl ⟨rfl, by rw [hmark.mp hl], rfl, rfl⟩)
  | _ => exact .inr (.inr ⟨_, rfl, fun _ => nofun, rfl, rfl, rfl⟩)

/-- The acts of the control flow word `w` behind its label, with the first `m` words of its block. -/
def coreActs (index : UInt32) (w : Word) (m : Nat) : List Act :=
  [.announce index w.opcode, .print (ownLine stage index w), ownAct stage index w]
    ++ ((wordActs stage words lastFull w).take m).flatten ++ endActs stage index w

private theorem actsUpTo_step (index : UInt32) (w : Word) (m : Nat) :
    (step stage words labels lastFull index w).actsUpTo m =
      labelActs labels index ++ coreActs stage words lastFull index w m := by
  rw [step_eq, Step.actsUpTo, coreActs]
  simp only [List.append_assoc]

/-- What is performed of the control flow words `ws` from index `k` on, the labels apart. An abort may leave words of
the last block out and the instructions behind it; no block has more than seven words. -/
structure AreParts (isAborted : Prop) (k : Nat) (ws : List Word) (parts : List (List Act)) : Prop where
  length_le : parts.length ≤ ws.length
  length_eq : ¬isAborted → parts.length = ws.length
  isPart : ∀ j (h : j < parts.length), ∃ last m, parts[j] = coreActs stage words last (UInt32.ofNat (k + j)) ws[j] m ∧
    ((isAborted ∧ j + 1 = parts.length) ∨ 7 ≤ m)

theorem parts_of_cut {isAborted : Bool} (k : Nat) (ws : List Word) {as : List Act}
    (h : Cut isAborted (walk stage words labels lastFull k ws) as) :
    ∃ parts, AreParts stage words (isAborted = true) k ws parts ∧
      as = (parts.mapIdx fun j part => labelActs labels (UInt32.ofNat (k + j)) ++ part).flatten := by
  induction ws generalizing lastFull k as with
  | nil =>
    have hnil : as = [] := by cases h <;> rfl
    exact ⟨[], ⟨Nat.le_refl _, fun _ => rfl, nofun⟩, hnil⟩
  | cons w ws ih =>
    cases h with
    | stopped _ ha => exact ⟨[], ⟨Nat.zero_le _, fun hn => absurd ha hn, nofun⟩, rfl⟩
    | within _ _ n ha =>
      refine ⟨[coreActs stage words lastFull (UInt32.ofNat k) w n], ⟨?_, fun hn => absurd ha hn, fun j hj => ?_⟩, ?_⟩
      · exact Nat.succ_le_succ (Nat.zero_le _)
      · obtain rfl : j = 0 := Nat.lt_one_iff.mp hj
        exact ⟨lastFull, n, rfl, .inl ⟨ha, rfl⟩⟩
      · rw [actsUpTo_step]
        simp
    | whole _ hrest =>
      obtain ⟨parts, hparts, hflat⟩ := ih _ (k + 1) hrest
      let m := 7 + (step stage words labels lastFull (UInt32.ofNat k) w).block.length
      refine ⟨coreActs stage words lastFull (UInt32.ofNat k) w m :: parts,
        ⟨Nat.succ_le_succ hparts.length_le, fun ha => congrArg Nat.succ (hparts.length_eq ha), fun j hj => ?_⟩, ?_⟩
      · cases j with
        | zero => exact ⟨lastFull, m, rfl, .inr (Nat.le_add_right _ _)⟩
        | succ j =>
          obtain ⟨last, m, hpart, hm⟩ := hparts.isPart j (Nat.lt_of_succ_lt_succ hj)
          rw [Nat.add_right_comm] at hpart
          exact ⟨last, m, hpart, hm.imp (And.imp id (congrArg Nat.succ)) id⟩
      · rw [← Step.actsUpTo_of_length_le (Nat.le_add_left _ 7), actsUpTo_step, hflat, List.mapIdx_cons,
          List.flatten_cons]
        simp only [Nat.add_right_comm k 1, Nat.add_zero, Nat.add_assoc]
        rfl

/-- A step without an open block, or one whose block is that of the exec `e`. -/
def Opens (s : Step) (e : Exec) : Prop :=
  (∃ before, s.opening = before ++ [.present (.execBegin e)]) ∧ s.closing = [.present (.execEnd e)] ∧
    ∀ w ∈ s.block, ∀ a ∈ w, a.IsOfWord

theorem step_opens (index : UInt32) (w : Word) :
    (step stage words labels lastFull index w).closing = [] ∨
      ∃ e, Opens (step stage words labels lastFull index w) e := by
  rw [step_eq]
  rcases acts_cases stage words lastFull index w with ⟨l, -, -, hown, -, hend⟩ | ⟨-, -, -, hend⟩ | ⟨i, -, -, -, -, hend⟩
  · refine .inr ⟨l.resolve index,
      ⟨labelActs labels index ++ [.announce index w.opcode, .print (ownLine stage index w)], ?_⟩, hend,
      isOfWord_wordActs stage words lastFull w⟩
    rw [hown, List.append_assoc]
    rfl
  · exact .inl hend
  · exact .inl hend

theorem walk_opens (k : Nat) (ws : List Word) :
    ∀ s ∈ walk stage words labels lastFull k ws, s.closing = [] ∨ ∃ e, Opens s e := by
  induction ws generalizing lastFull k with
  | nil => intro s hs; cases hs
  | cons w ws ih =>
    intro s hs
    rcases List.mem_cons.mp hs with rfl | hs
    · exact step_opens stage words labels lastFull _ w
    · exact ih _ _ s hs

end Schedule

end ShaderMicrocode
