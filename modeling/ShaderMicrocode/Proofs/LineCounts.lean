import Mathlib.Data.List.Nodup
import ShaderMicrocode.Proofs.Cut
import ShaderMicrocode.Proofs.Steps
import ShaderMicrocode.Proofs.Targets
import ShaderMicrocode.Proofs.Walk
/-!
# The number of lines

A whole translation prints one line for each label inside the program, for each instruction of the program and for
each word of an exec that lies inside the microcode.
-/
namespace ShaderMicrocode

open ControlFlow Fetch

/-! Words. -/

/-- The numbers of the words of the block of `w` that lie inside the microcode. -/
def ControlFlow.Word.inside (words : Array UInt32) (w : Word) : List Nat :=
  match w.layout with
  | .exec l => (List.range l.count.toNat).filter fun j => 3 * (l.address.toNat + j) + 3 ≤ words.size
  | _ => []

theorem ControlFlow.Word.length_visits (words : Array UInt32) (w : Word) :
    (w.visits words).length = (w.inside words).length := by
  cases hl : w.layout with
  | exec l =>
    simp only [inside, hl]
    rw [w.visits_eq_filterMap words hl, List.length_filterMap_eq_countP, ← List.countP_eq_length_filter]
    refine List.countP_congr fun j _ => ?_
    rw [ExecLayout.isSome_visit?, InsideAt, decide_eq_true_eq]
  | _ =>
    rw [w.visits_of_not_exec words (by simp [hl]), inside, hl]
    rfl

/-- Both halves of a word share a line. -/
theorem Act.lines_ofHalves (address : UInt32) (p : Predicate) (halves : List (Except DecodeError Alu.Instruction)) :
    (ofHalves address p halves).filterMap line? =
      [instructionLine (wordOffset address) (p.column ++ " + ".intercalate (halves.map halfText))] := by
  have hcons (line : String) (as : List Act) :
      (Act.print line :: as).filterMap line? = line :: as.filterMap line? := rfl
  rw [ofHalves, wordLine, List.cons_append, hcons, List.cons.injEq, List.filterMap_eq_nil_iff]
  refine ⟨rfl, fun a ha => ?_⟩
  rcases List.mem_append.mp ha with ha | ha
  · obtain ⟨half, -, hact⟩ := List.mem_filterMap.mp ha
    cases half <;> cases hact
    rfl
  · obtain ⟨half, -, hact⟩ := List.mem_filterMap.mp ha
    cases half <;> cases hact
    rfl

private theorem Act.length_lines_ofVisit (stage : Stage) (last : Option VertexWord) (v : Visit) :
    ((Act.ofVisit stage last v).filterMap line?).length = 1 := by
  have hfetch {α : Type} (p : Predicate) (decoded : Except DecodeError α) (text : α → String) (event : α → Event) :
      ((ofFetch v.address p decoded text event).filterMap line?).length = 1 := by
    cases decoded <;> rfl
  unfold ofVisit
  split
  · split
    · exact hfetch _ _ _ _
    · exact hfetch _ _ _ _
  · exact congrArg List.length (lines_ofHalves _ _ _)

/-! The walk. -/

namespace Schedule

variable (stage : Stage) (words : Array UInt32) (labels : List UInt32) (last : Option VertexWord)

private theorem length_lines_ofVisits (vs : List Visit) :
    ((ofVisits stage last vs).flatten.filterMap Act.line?).length = vs.length := by
  induction vs generalizing last with
  | nil => rfl
  | cons v vs ih =>
    rw [ofVisits, List.flatten_cons, List.filterMap_append, List.length_append, Act.length_lines_ofVisit, ih,
      List.length_cons, Nat.add_comm]

theorem length_lines_step (index : UInt32) (w : Word) :
    ((step stage words labels last index w).acts.filterMap Act.line?).length =
      (if index ∈ labels then 1 else 0) + 1 + (w.visits words).length := by
  have hlabels : ((labelActs labels index).filterMap Act.line?).length = if index ∈ labels then 1 else 0 := by
    unfold labelActs
    split <;> rfl
  have hown : ([.announce index w.opcode, .print (ownLine stage index w), ownAct stage index w].filterMap
      Act.line?).length = 1 := by
    unfold ownAct
    cases w.resolve index stage <;> rfl
  have hwords : ((wordActs stage words last w).flatten.filterMap Act.line?).length = (w.visits words).length := by
    unfold wordActs
    cases hl : w.layout with
    | exec l =>
      have hfault : ((Block.read words l).fault?.map fun e => [Act.report (.undecodable e)]).toList.flatten.filterMap
          Act.line? = [] := by
        cases (Block.read words l).fault? <;> rfl
      rw [w.visits_of_exec words hl]
      dsimp only
      rw [ofBlock, List.flatten_append, List.filterMap_append, hfault, List.append_nil,
        length_lines_ofVisits]
    | _ => rw [w.visits_of_not_exec words (by simp [hl])]; rfl
  have hend : (endActs stage index w).filterMap Act.line? = [] := by
    unfold endActs
    split <;> rfl
  rw [step_eq, Step.acts]
  simp only [List.filterMap_append, List.length_append, hlabels, hown, hwords, hend, List.length_nil, Nat.add_zero]

theorem length_lines_walk (k : Nat) (ws : List Word) :
    (((walk stage words labels last k ws).flatMap Step.acts).filterMap Act.line?).length =
      ((List.range' k ws.length).countP fun j => UInt32.ofNat j ∈ labels) + ws.length +
        (ws.flatMap (Word.inside words)).length := by
  induction ws generalizing last k with
  | nil => rfl
  | cons w ws ih =>
    have hlabel : ((List.range' k (w :: ws).length).countP fun j => UInt32.ofNat j ∈ labels) =
        ((List.range' (k + 1) ws.length).countP fun j => UInt32.ofNat j ∈ labels) +
          if UInt32.ofNat k ∈ labels then 1 else 0 := by
      rw [List.length_cons, List.range'_succ, List.countP_cons]
      simp only [decide_eq_true_eq]
    rw [walk, List.flatMap_cons, List.filterMap_append, List.length_append, length_lines_step, ih, hlabel,
      w.length_visits, List.length_cons, List.flatMap_cons, List.length_append]
    omega

end Schedule

/-! Labels. -/

/-- The labels in front of the instructions `0` to `n - 1` are those below `n`. -/
private theorem countP_labels {labels : List UInt32} (h : labels.Nodup) {n : Nat} (hn : n ≤ UInt32.size) :
    ((List.range' 0 n).countP fun j => UInt32.ofNat j ∈ labels) = (labels.filter fun t => t.toNat < n).length := by
  have hindex {j : Nat} (hj : j < n) : (UInt32.ofNat j).toNat = j :=
    UInt32.toNat_ofNat_of_lt' (Nat.lt_of_lt_of_le hj hn)
  have hnodup : (((List.range' 0 n).filter fun j => UInt32.ofNat j ∈ labels).map UInt32.ofNat).Nodup := by
    refine List.Nodup.map_on (fun i hi j hj heq => ?_) (List.Nodup.filter _ List.nodup_range')
    have hi := (List.mem_range'_1.mp (List.mem_of_mem_filter hi)).2
    have hj := (List.mem_range'_1.mp (List.mem_of_mem_filter hj)).2
    rw [← hindex (by omega : i < n), heq, hindex (by omega)]
  have hmem (t : UInt32) : t ∈ ((List.range' 0 n).filter fun j => UInt32.ofNat j ∈ labels).map UInt32.ofNat ↔
      t ∈ labels.filter fun t => t.toNat < n := by
    rw [List.mem_map, List.mem_filter, decide_eq_true_eq]
    constructor
    · rintro ⟨j, hj, rfl⟩
      obtain ⟨hj, hlabel⟩ := List.mem_filter.mp hj
      have hlt := (List.mem_range'_1.mp hj).2
      rw [hindex (by omega)]
      exact ⟨of_decide_eq_true hlabel, by omega⟩
    · rintro ⟨hlabel, hlt⟩
      refine ⟨t.toNat, List.mem_filter.mpr ⟨List.mem_range'_1.mpr (by omega), ?_⟩, UInt32.ofNat_toNat⟩
      rw [UInt32.ofNat_toNat]
      exact decide_eq_true hlabel
  have hperm := (List.perm_ext_iff_of_nodup hnodup (h.filter _)).mpr hmem
  rw [List.countP_eq_length_filter, ← hperm.length_eq, List.length_map]

theorem Shader.length_lines_plan (shader : Shader) (h : (Program.read shader.words).length < UInt32.size) :
    let p := Program.read shader.words
    ((shader.plan.steps.flatMap Step.acts).filterMap Act.line?).length =
      (p.labels.filter fun t => t.toNat < p.length).length + p.length +
        (p.instructions.flatMap (Word.inside shader.words)).length := by
  intro p
  have hnodup : p.labels.Nodup := p.pairwise_labels.imp fun hlt => UInt32.ne_of_lt hlt
  rw [← countP_labels hnodup (Nat.le_of_lt h)]
  exact Schedule.length_lines_walk shader.stage shader.words p.labels none 0 p.instructions

end ShaderMicrocode
