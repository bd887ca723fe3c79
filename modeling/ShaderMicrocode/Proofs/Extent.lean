import ShaderMicrocode.Program
/-!
# The extent of programs

A program is read pair by pair until the first pair that the microcode cannot hold or that an exec read so far
claims for its words. So a program is the first pairs of its microcode, and what lies behind them does not matter.
-/
namespace ShaderMicrocode

open ControlFlow

/-- A non-empty exec whose words start at `address` or before it. -/
def ControlFlow.Word.EndsBy (address : Nat) (w : Word) : Prop :=
  ∃ e, w.layout = .exec e ∧ 0 < e.count ∧ e.address.toNat ≤ address

theorem ControlFlow.Word.lt_lower_iff (w : Word) (address limit : Nat) :
    3 * address < w.lower limit ↔ 3 * address < limit ∧ ¬w.EndsBy address := by
  unfold lower extent? EndsBy
  cases hl : w.layout with
  | exec e =>
    simp only [Layout.exec.injEq, exists_eq_left']
    by_cases hcount : e.count = 0
    · simp [hcount]
    · have hpos : 0 < e.count := UInt32.pos_iff_ne_zero.mpr hcount
      simp only [hcount, if_false, hpos, true_and]
      omega
  | _ => simp

namespace Program

variable (words : Array UInt32)

/-- The instructions of the first `n` triples, two of each. -/
def pairs (n : Nat) : List Word :=
  (List.range n).flatMap fun k =>
    ((Triple.at? words (3 * k)).map fun t => [(unpackPair t).1, (unpackPair t).2]).getD []

/-- Among the first `n` pairs is a non-empty exec whose words start at triple `n` or before it. -/
def EndedByExec (n : Nat) : Prop := ∃ w ∈ pairs words n, w.EndsBy n

/-- No pair can be read from triple `n`. -/
def Ends (n : Nat) : Prop := words.size < 3 * n + 3 ∨ EndedByExec words n

/-- `n` is the first triple from which no pair can be read. -/
structure IsExtent (n : Nat) : Prop where
  ends : Ends words n
  least : ∀ m < n, ¬Ends words m

variable {words}

theorem IsExtent.unique {m n : Nat} (hm : IsExtent words m) (hn : IsExtent words n) : m = n := by
  rcases Nat.lt_trichotomy m n with h | h | h
  · exact absurd hm.ends (hn.least m h)
  · exact h
  · exact absurd hn.ends (hm.least n h)

private theorem IsExtent.inside {n : Nat} (h : IsExtent words n) : 3 * n ≤ words.size := by
  cases n with
  | zero => exact Nat.zero_le _
  | succ n =>
    have hlast := h.least n (Nat.lt_succ_self n)
    unfold Ends at hlast
    omega

/-! Pairs. -/

theorem pairs_succ {n : Nat} {t : Triple} (h : Triple.at? words (3 * n) = some t) :
    pairs words (n + 1) = pairs words n ++ [(unpackPair t).1, (unpackPair t).2] := by
  rw [pairs, List.range_succ, List.flatMap_append, ← pairs]
  simp [h]

private theorem length_pairs {n : Nat} (h : 3 * n ≤ words.size) : (pairs words n).length = 2 * n := by
  induction n with
  | zero => rfl
  | succ n ih =>
    have hat : Triple.at? words (3 * n) ≠ none := by
      rw [Ne, Triple.at?_eq_none_iff]
      omega
    obtain ⟨t, ht⟩ := Option.ne_none_iff_exists'.mp hat
    rw [pairs_succ ht, List.length_append, ih (by omega)]
    rfl

/-- The bound that the first `n` pairs put on the program. -/
def limitAt (words : Array UInt32) (n : Nat) : Nat :=
  (pairs words n).foldl (fun limit w => w.lower limit) words.size

private theorem limitAt_succ {n : Nat} {t : Triple} (h : Triple.at? words (3 * n) = some t) :
    limitAt words (n + 1) = (unpackPair t).2.lower ((unpackPair t).1.lower (limitAt words n)) := by
  rw [limitAt, pairs_succ h, List.foldl_append]
  rfl

private theorem lt_foldl_lower_iff (ws : List Word) (address limit : Nat) :
    3 * address < ws.foldl (fun limit w => w.lower limit) limit ↔
      3 * address < limit ∧ ∀ w ∈ ws, ¬w.EndsBy address := by
  induction ws generalizing limit with
  | nil => simp
  | cons w ws ih => rw [List.foldl_cons, ih, w.lt_lower_iff, List.forall_mem_cons, and_assoc]

private theorem lt_limitAt_iff (n : Nat) : 3 * n < limitAt words n ↔ 3 * n < words.size ∧ ¬EndedByExec words n := by
  rw [limitAt, lt_foldl_lower_iff, EndedByExec]
  simp

/-! Reading. -/

/-- From pair `n` on the program runs to the next triple from which no pair can be read. -/
theorem readFrom_pairs (words : Array UInt32) (n : Nat) :
    ∃ m, n ≤ m ∧ Ends words m ∧ (∀ j, n ≤ j → j < m → ¬Ends words j) ∧
      pairs words n ++ (readFrom words (3 * n) (limitAt words n)).instructions = pairs words m ∧
      ∀ offset, (readFrom words (3 * n) (limitAt words n)).truncatedAt = some offset ↔
        offset = 3 * m ∧ 3 * m < words.size ∧ ¬EndedByExec words m := by
  have hnone (j : Nat) (hle : n ≤ j) (hlt : j < n) : ¬Ends words j := absurd hlt (Nat.not_lt.mpr hle)
  generalize hoffset : 3 * n = offset
  generalize hlimit : limitAt words n = limit
  fun_induction readFrom words offset limit generalizing n with
  | case1 offset limit hlt hat =>
    subst hoffset hlimit
    have hshort := (Triple.at?_eq_none_iff words (3 * n)).mp hat
    have hlast := lt_limitAt_iff n |>.mp hlt
    refine ⟨n, Nat.le_refl n, .inl hshort, hnone, List.append_nil _, fun offset => ?_⟩
    simp [hlast, eq_comm]
  | case2 offset limit hlt t hat a b hpair rest ih =>
    subst hoffset hlimit
    have ha : (unpackPair t).1 = a := congrArg Prod.fst hpair
    have hb : (unpackPair t).2 = b := congrArg Prod.snd hpair
    have hgoes : ¬Ends words n := by
      rintro (hshort | hexec)
      · rw [← Triple.at?_eq_none_iff, hat] at hshort
        cases hshort
      · exact (lt_limitAt_iff n |>.mp hlt).2 hexec
    have hlimit : limitAt words (n + 1) = b.lower (a.lower (limitAt words n)) := by rw [limitAt_succ hat, ha, hb]
    obtain ⟨m, hle, hends, hleast, hpairs, htruncated⟩ :=
      ih (n + 1) (fun j hle hlt => absurd hlt (Nat.not_lt.mpr hle)) rfl hlimit
    refine ⟨m, Nat.le_of_succ_le hle, hends, fun j hj hlt => ?_, ?_, htruncated⟩
    · rcases Nat.eq_or_lt_of_le hj with rfl | hj
      · exact hgoes
      · exact hleast j hj hlt
    · rw [← hpairs, pairs_succ hat, ha, hb, List.append_assoc]
      rfl
  | case3 offset limit hlt =>
    subst hoffset hlimit
    rw [lt_limitAt_iff] at hlt
    have hends : Ends words n := by
      by_cases hexec : EndedByExec words n
      · exact .inr hexec
      · exact .inl (by simp only [hexec, not_false_eq_true, and_true] at hlt; omega)
    refine ⟨n, Nat.le_refl n, hends, hnone, List.append_nil _, fun offset => ?_⟩
    simp [hlt]

theorem exists_isExtent (words : Array UInt32) : ∃ n, IsExtent words n := by
  obtain ⟨n, -, hends, hleast, -⟩ := readFrom_pairs words 0
  exact ⟨n, hends, fun m hm => hleast m (Nat.zero_le m) hm⟩

theorem read_of_isExtent {n : Nat} (h : IsExtent words n) :
    (read words).instructions = pairs words n ∧
      ∀ offset, (read words).truncatedAt = some offset ↔
        offset = 3 * n ∧ (words.size - 3 * n = 1 ∨ words.size - 3 * n = 2) ∧ ¬EndedByExec words n := by
  obtain ⟨m, -, hends, hleast, hpairs, htruncated⟩ := readFrom_pairs words 0
  have hm : IsExtent words m := ⟨hends, fun j hj => hleast j (Nat.zero_le j) hj⟩
  obtain rfl := hm.unique h
  refine ⟨hpairs, fun offset => (htruncated offset).trans (and_congr_right fun _ => ?_)⟩
  refine and_congr_left fun hexec => ?_
  have hshort : words.size < 3 * m + 3 := hends.resolve_right hexec
  omega

/-! Buffers that begin alike. -/

theorem at?_eq_some_iff (words : Array UInt32) (offset : Nat) (t : Triple) :
    Triple.at? words offset = some t ↔
      words[offset]? = some t.d0 ∧ words[offset + 1]? = some t.d1 ∧ words[offset + 2]? = some t.d2 := by
  unfold Triple.at?
  split
  case isTrue h =>
    have h0 : offset < words.size := by omega
    have h1 : offset + 1 < words.size := by omega
    rw [Array.getElem?_eq_getElem h0, Array.getElem?_eq_getElem h1, Array.getElem?_eq_getElem h]
    cases t
    simp
  case isFalse h =>
    rw [Array.getElem?_eq_none (i := offset + 2) (by omega)]
    simp

variable {other : Array UInt32} {n : Nat}

private theorem pairs_congr (h : ∀ i < 3 * n, other[i]? = words[i]?) {m : Nat} (hm : m ≤ n) :
    pairs other m = pairs words m := by
  have hat (k : Nat) (hk : k < m) : Triple.at? other (3 * k) = Triple.at? words (3 * k) := by
    apply Option.ext
    intro t
    rw [at?_eq_some_iff, at?_eq_some_iff, h (3 * k) (by omega), h (3 * k + 1) (by omega), h (3 * k + 2) (by omega)]
  unfold pairs
  rw [List.flatMap_def, List.flatMap_def]
  congr 1
  apply List.map_congr_left
  intro k hk
  rw [hat k (List.mem_range.mp hk)]

private theorem endedByExec_congr (h : ∀ i < 3 * n, other[i]? = words[i]?) {m : Nat} (hm : m ≤ n) :
    EndedByExec other m ↔ EndedByExec words m := by
  unfold EndedByExec
  rw [pairs_congr h hm]

private theorem isExtent_congr (h : ∀ i < 3 * n, other[i]? = words[i]?) (hn : IsExtent words n)
    (hinside : 3 * n ≤ other.size) (hends : Ends other n) : IsExtent other n := by
  refine ⟨hends, fun m hm => ?_⟩
  rintro (hshort | hexec)
  · omega
  · exact hn.least m hm (.inr ((endedByExec_congr h (Nat.le_of_lt hm)).mp hexec))

theorem read_congr (h : ∀ i < 3 * n, other[i]? = words[i]?) (hwords : IsExtent words n) (hother : IsExtent other n)
    (hsize : other.size = words.size ∨ EndedByExec words n) : read other = read words := by
  obtain ⟨hpairs, htruncated⟩ := read_of_isExtent hwords
  obtain ⟨hpairs', htruncated'⟩ := read_of_isExtent hother
  have hinstructions : (read other).instructions = (read words).instructions := by
    rw [hpairs, hpairs', pairs_congr h (Nat.le_refl n)]
  have hat : (read other).truncatedAt = (read words).truncatedAt := by
    apply Option.ext
    intro offset
    rw [htruncated, htruncated', endedByExec_congr h (Nat.le_refl n)]
    rcases hsize with hsize | hexec
    · rw [hsize]
    · simp [hexec]
  calc read other = ⟨(read other).instructions, (read other).truncatedAt⟩ := rfl
    _ = ⟨(read words).instructions, (read words).truncatedAt⟩ := by rw [hinstructions, hat]

/-- A program is the pairs before the first triple from which none can be read, whatever stands behind them. -/
theorem read_eq_pairs (words : Array UInt32) :
    ∃ n, IsExtent words n ∧ (read words).instructions = pairs words n ∧ (pairs words n).length = 2 * n ∧
      3 * n ≤ words.size ∧
      (∀ offset, (read words).truncatedAt = some offset ↔
        offset = 3 * n ∧ (words.size - 3 * n = 1 ∨ words.size - 3 * n = 2) ∧ ¬EndedByExec words n) ∧
      (∀ other : Array UInt32, other.size = words.size → (∀ i < 3 * n, other[i]? = words[i]?) →
        read other = read words) ∧
      (EndedByExec words n →
        ∀ other : Array UInt32, (∀ i < 3 * n, other[i]? = words[i]?) → read other = read words) := by
  obtain ⟨n, hn⟩ := exists_isExtent words
  have hinside := hn.inside
  obtain ⟨hpairs, htruncated⟩ := read_of_isExtent hn
  refine ⟨n, hn, hpairs, length_pairs hinside, hinside, htruncated, fun other hsize h => ?_, fun hexec other h => ?_⟩
  · have hends : Ends other n := by
      unfold Ends
      rw [hsize, endedByExec_congr h (Nat.le_refl n)]
      exact hn.ends
    exact read_congr h hn (isExtent_congr h hn (by omega) hends) (.inl hsize)
  · have hother : 3 * n ≤ other.size := by
      rcases Nat.eq_zero_or_pos n with rfl | hpos
      · exact Nat.zero_le _
      · have hlt : 3 * n - 1 < words.size := by omega
        have hlast := (h (3 * n - 1) (by omega)).trans (Array.getElem?_eq_getElem hlt)
        obtain ⟨hother, -⟩ := Array.getElem?_eq_some_iff.mp hlast
        omega
    have hends : Ends other n := .inr ((endedByExec_congr h (Nat.le_refl n)).mpr hexec)
    exact read_congr h hn (isExtent_congr h hn hother hends) (.inr hexec)

end Program

end ShaderMicrocode
