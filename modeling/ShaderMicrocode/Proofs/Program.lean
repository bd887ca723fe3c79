import ShaderMicrocode.Program
/-!
# The size of programs

A program takes up three dwords for two instructions, and the first exec that names a word ends it at that word. So
however long the microcode is, only a bounded number of its instructions name any word.
-/
namespace ShaderMicrocode

open ControlFlow

/-! Execs. -/

theorem ControlFlow.Word.layout_exec {w : Word} {l : ExecLayout} (h : w.layout = .exec l) : l = .decode w := by
  unfold Word.layout at h
  split at h <;> simp_all

structure ControlFlow.ExecLayout.Fits (l : ExecLayout) : Prop where
  address_lt : l.address.toNat < 4096
  count_lt : l.count.toNat < 8

theorem ControlFlow.ExecLayout.fits_of_layout {w : Word} {l : ExecLayout} (h : w.layout = .exec l) : l.Fits := by
  rw [Word.layout_exec h]
  exact ⟨BitField.toNat_read_lt _ _, BitField.toNat_read_lt _ _⟩

/-- The highest dword that an exec can name. -/
def extentBound : Nat := 3 * 4095

private theorem ControlFlow.Word.le_of_extent? {w : Word} {n : Nat} (h : w.extent? = some n) : n ≤ extentBound := by
  unfold extent? at h
  split at h
  case h_1 l hl =>
    have haddress := (ExecLayout.fits_of_layout hl).address_lt
    split at h
    · cases h
    · cases h
      unfold extentBound
      omega
  case h_2 => cases h

/-- The word is a non-empty exec. -/
def ControlFlow.Word.namesWords (w : Word) : Bool := w.extent?.isSome

private theorem ControlFlow.Word.lower_le_of_namesWords {w : Word} (h : w.namesWords = true) (limit : Nat) :
    w.lower limit ≤ extentBound := by
  unfold namesWords at h
  unfold lower
  cases hn : w.extent? with
  | none => simp [hn] at h
  | some n => exact Nat.le_trans (Nat.min_le_right _ _) (le_of_extent? hn)

namespace Program

variable (words : Array UInt32)

theorem length_readFrom_inside (offset limit : Nat) (h : offset ≤ words.size) :
    2 * offset + 3 * (readFrom words offset limit).length ≤ 2 * words.size := by
  fun_induction readFrom words offset limit with
  | case1 offset limit hlt hat =>
    simp only [length, List.length_nil]
    omega
  | case2 offset limit hlt t hat a b hpair rest ih =>
    have hinside : ¬words.size < offset + 3 := by
      rw [← Triple.at?_eq_none_iff, hat]
      nofun
    have hrest : _ + 3 * rest.length ≤ _ := ih (by omega)
    show 2 * offset + 3 * (rest.length + 2) ≤ _
    omega
  | case3 offset limit hlt =>
    simp only [length, List.length_nil]
    omega

/-- Two instructions for each triple that is begun below the limit. -/
private theorem length_readFrom_le (offset limit : Nat) :
    (readFrom words offset limit).length ≤ 2 * ((limit - offset + 2) / 3) := by
  fun_induction readFrom words offset limit with
  | case1 offset limit hlt hat => exact Nat.zero_le _
  | case2 offset limit hlt t hat a b hpair rest ih =>
    have hle := Nat.le_trans (b.lower_le (a.lower limit)) (a.lower_le limit)
    have hrest : rest.length ≤ _ := ih
    show rest.length + 2 ≤ _
    omega
  | case3 offset limit hlt => exact Nat.zero_le _

/-- The first pair with a non-empty exec ends the program at a word that an exec can name, so at most that one pair lies
beyond these words. -/
theorem countP_readFrom_le (offset limit : Nat) :
    (readFrom words offset limit).instructions.countP Word.namesWords ≤
      2 + 2 * ((extentBound - (offset + 3) + 2) / 3) := by
  fun_induction readFrom words offset limit with
  | case1 offset limit hlt hat => exact Nat.zero_le _
  | case2 offset limit hlt t hat a b hpair rest ih =>
    by_cases hnames : a.namesWords = true ∨ b.namesWords = true
    · have hlimit : b.lower (a.lower limit) ≤ extentBound := by
        rcases hnames with ha | hb
        · exact Nat.le_trans (b.lower_le _) (a.lower_le_of_namesWords ha limit)
        · exact b.lower_le_of_namesWords hb _
      have hrest : rest.instructions.countP Word.namesWords ≤ rest.length := List.countP_le_length
      have hlength : rest.length ≤ _ := length_readFrom_le words (offset + 3) (b.lower (a.lower limit))
      have hfirst : [a, b].countP Word.namesWords ≤ 2 := List.countP_le_length
      calc (a :: b :: rest.instructions).countP Word.namesWords
          = [a, b].countP Word.namesWords + rest.instructions.countP Word.namesWords := by
            rw [← List.countP_append]
            rfl
        _ ≤ 2 + 2 * ((extentBound - (offset + 3) + 2) / 3) := by omega
    · rw [not_or] at hnames
      rw [List.countP_cons_of_neg hnames.1, List.countP_cons_of_neg hnames.2]
      have hrest : rest.instructions.countP Word.namesWords ≤ _ := ih
      omega
  | case3 offset limit hlt => exact Nat.zero_le _

/-- However long the microcode is, few of its control flow instructions name any word. -/
theorem countP_namesWords_le : (read words).instructions.countP Word.namesWords ≤ 8190 :=
  countP_readFrom_le words 0 words.size

end Program

end ShaderMicrocode
