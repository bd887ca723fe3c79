import ShaderMicrocode.Schedule
/-!
# Targets

Where the instructions of a program may send control. Labels are found on undecoded words; they are the targets that
the decoded instructions name, in ascending order and each of them once.
-/
namespace ShaderMicrocode

open ControlFlow

namespace ControlFlow

/-- The control flow index that a decoded instruction may send control to. -/
def Instruction.target? : Instruction → Option UInt32
  | .loopStart l => some l.skipTarget
  | .loopEnd l => some l.bodyTarget
  | .call c => some c.target
  | .jump j => some j.target
  | _ => none

private theorem Word.target?_eq (w : Word) (index : UInt32) (stage : Stage) :
    w.target? = (w.resolve index stage).toOption.bind Instruction.target? := by
  unfold target? resolve
  cases w.layout <;> rfl

end ControlFlow

/-! Labels. -/

private theorem pairwise_insertLabel (label : UInt32) {ls : List UInt32} (h : ls.Pairwise (· < ·)) :
    (insertLabel label ls).Pairwise (· < ·) := by
  induction ls with
  | nil => exact List.pairwise_singleton _ label
  | cons l rest ih =>
    have hrest : ∀ t ∈ rest, l < t := fun t ht => List.rel_of_pairwise_cons h ht
    unfold insertLabel
    split
    case isTrue hlt =>
      refine List.pairwise_cons.mpr ⟨fun t ht => ?_, h⟩
      rcases List.mem_cons.mp ht with rfl | ht
      · exact hlt
      · exact UInt32.lt_trans hlt (hrest t ht)
    case isFalse hnot =>
      split
      case isTrue => exact h
      case isFalse hne =>
        have hlt : l < label := by
          rcases UInt32.lt_or_lt_of_ne hne with hlt | hlt
          · exact absurd hlt hnot
          · exact hlt
        refine List.pairwise_cons.mpr ⟨fun t ht => ?_, ih h.of_cons⟩
        rcases mem_insertLabel.mp ht with rfl | ht
        · exact hlt
        · exact hrest t ht

namespace Program

variable (p : Program)

theorem pairwise_labels : p.labels.Pairwise (· < ·) := by
  unfold labels
  induction p.instructions.filterMap Word.target? with
  | nil => exact List.Pairwise.nil
  | cons t ts ih => exact pairwise_insertLabel t ih

theorem mem_labels_iff (target : UInt32) :
    target ∈ p.labels ↔ ∃ w ∈ p.instructions, w.target? = some target := by
  have hfold (ts : List UInt32) : target ∈ ts.foldr insertLabel [] ↔ target ∈ ts := by
    induction ts with
    | nil => rfl
    | cons t ts ih => rw [List.foldr_cons, mem_insertLabel, ih, List.mem_cons]
  rw [labels, hfold, List.mem_filterMap]

/-- Some instruction of the program, decoded at its index, names `target`. -/
def IsTarget (stage : Stage) (target : UInt32) : Prop :=
  ∃ (k : Nat) (w : Word) (i : Instruction), p.instructions[k]? = some w ∧
    w.resolve (UInt32.ofNat k) stage = .ok i ∧ i.target? = some target

theorem mem_labels_iff_isTarget (stage : Stage) (target : UInt32) : target ∈ p.labels ↔ p.IsTarget stage target := by
  rw [mem_labels_iff]
  constructor
  · rintro ⟨w, hw, htarget⟩
    obtain ⟨k, hk⟩ := List.mem_iff_getElem?.mp hw
    rw [w.target?_eq (UInt32.ofNat k) stage] at htarget
    obtain ⟨i, hi, hit⟩ := Option.bind_eq_some_iff.mp htarget
    refine ⟨k, w, i, hk, ?_, hit⟩
    cases hres : w.resolve (UInt32.ofNat k) stage <;> simp_all [Except.toOption]
  · rintro ⟨k, w, i, hk, hres, hit⟩
    refine ⟨w, List.mem_of_getElem? hk, ?_⟩
    rw [w.target?_eq (UInt32.ofNat k) stage, hres]
    exact hit

/-- `targets` are the targets at or beyond the end of the program, ascending and each once. -/
structure ListsPastEnd (stage : Stage) (targets : List UInt32) : Prop where
  ascending : targets.Pairwise (· < ·)
  mem_iff : ∀ target, target ∈ targets ↔ p.IsTarget stage target ∧ p.length ≤ target.toNat

/-- The labels that no instruction of the program stands at. -/
def labelsPastEnd : List UInt32 := p.labels.filter fun target => p.length ≤ target.toNat

theorem listsPastEnd_labelsPastEnd (stage : Stage) : p.ListsPastEnd stage p.labelsPastEnd where
  ascending := p.pairwise_labels.filter _
  mem_iff target := by
    rw [labelsPastEnd, List.mem_filter, p.mem_labels_iff_isTarget stage, decide_eq_true_iff]

end Program

end ShaderMicrocode
