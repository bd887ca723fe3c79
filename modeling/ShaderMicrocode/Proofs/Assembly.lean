import ShaderMicrocode.Proofs.ControlFlowCodec
import ShaderMicrocode.Proofs.Extent
import ShaderMicrocode.Proofs.Program
/-!
# Assembled microcode

Microcode is assembled from control flow words, packed in pairs, and the ALU and fetch words behind them. Reading it
gives both back, provided that no exec claims a word of the pairs and that some exec claims the first word behind them.
-/
namespace ShaderMicrocode

open ControlFlow

/-! Triples laid end to end. -/

namespace Triple

private theorem length_concat (ts : List Triple) : (concat ts).length = 3 * ts.length := by
  induction ts with
  | nil => rfl
  | cons t ts ih =>
    show (t.d0 :: t.d1 :: t.d2 :: concat ts).length = 3 * (ts.length + 1)
    simp only [List.length_cons, ih]
    omega

private theorem at?_concat_cons (t : Triple) (ts : List Triple) (rest : List UInt32) (k : Nat) :
    at? (concat (t :: ts) ++ rest).toArray (3 * (k + 1)) = at? (concat ts ++ rest).toArray (3 * k) := by
  have hcons : concat (t :: ts) ++ rest = t.d0 :: t.d1 :: t.d2 :: (concat ts ++ rest) := rfl
  apply Option.ext
  intro u
  rw [Program.at?_eq_some_iff, Program.at?_eq_some_iff, hcons, Nat.mul_succ]
  simp only [List.getElem?_toArray]
  rfl

theorem at?_concat (ts : List Triple) (rest : List UInt32) {k : Nat} (hk : k < ts.length) :
    at? (concat ts ++ rest).toArray (3 * k) = some ts[k] := by
  induction ts generalizing k with
  | nil => exact absurd hk (Nat.not_lt_zero k)
  | cons t ts ih =>
    cases k with
    | zero =>
      rw [Program.at?_eq_some_iff]
      exact ⟨rfl, rfl, rfl⟩
    | succ k =>
      rw [at?_concat_cons]
      exact ih (Nat.lt_of_succ_lt_succ hk)

private theorem at?_concat_length_add (ts : List Triple) (rest : List UInt32) (j : Nat) :
    at? (concat ts ++ rest).toArray (3 * (ts.length + j)) = at? rest.toArray (3 * j) := by
  induction ts with
  | nil => rw [List.length_nil, Nat.zero_add]; rfl
  | cons t ts ih =>
    have hnext : (t :: ts).length + j = ts.length + j + 1 := Nat.add_right_comm ts.length 1 j
    rw [hnext, at?_concat_cons, ih]

end Triple

/-! Packed pairs. -/

namespace ControlFlow

/-- The triples that hold the words, two in each; a last word without a partner is left out. -/
def packPairs : List Word → List Triple
  | a :: b :: rest => packPair a b :: packPairs rest
  | _ => []

def unpackPairs (ts : List Triple) : List Word := ts.flatMap fun t => [(unpackPair t).1, (unpackPair t).2]

theorem unpackPairs_packPairs {n : Nat} {ws : List Word} (h : ws.length = 2 * n) :
    (packPairs ws).length = n ∧ unpackPairs (packPairs ws) = ws := by
  fun_induction packPairs ws generalizing n with
  | case1 a b rest ih =>
    have hrest : rest.length = 2 * (n - 1) := by
      simp only [List.length_cons] at h
      omega
    have hpos : n - 1 + 1 = n := by
      simp only [List.length_cons] at h
      omega
    obtain ⟨hlength, hwords⟩ := ih hrest
    refine ⟨by rw [List.length_cons, hlength, hpos], ?_⟩
    calc unpackPairs (packPair a b :: packPairs rest)
        = (unpackPair (packPair a b)).1 :: (unpackPair (packPair a b)).2 :: unpackPairs (packPairs rest) := rfl
      _ = a :: b :: rest := by rw [unpackPair_packPair, hwords]
  | case2 ws hws =>
    -- a list of even length without two words in front is empty
    match ws, hws with
    | [], _ =>
      have hn : 0 = n := by
        rw [List.length_nil] at h
        omega
      exact ⟨hn, rfl⟩
    | [_], _ =>
      simp only [List.length_singleton] at h
      omega
    | a :: b :: rest, hws => exact absurd rfl (hws a b rest)

end ControlFlow

/-! Assembling. -/

namespace Program

/-- Microcode that starts with the pairs of `ws` and goes on with `rest`. -/
def assemble (ws : List Word) (rest : List UInt32) : Array UInt32 := (Triple.concat (packPairs ws) ++ rest).toArray

/-- Control flow words that fill `n` triples and claim none of them. The words of the execs start right behind them,
if there is anything. -/
structure LeadsTo (n : Nat) (ws : List Word) (rest : List UInt32) : Prop where
  length : ws.length = 2 * n
  behind : ∀ w ∈ ws, ∀ e, w.layout = .exec e → 0 < e.count → n ≤ e.address.toNat
  claimed : rest = [] ∨ ∃ w ∈ ws, ∃ e, w.layout = .exec e ∧ 0 < e.count ∧ e.address.toNat = n

private theorem pairs_of_at? {words : Array UInt32} {ts : List Triple}
    (h : ∀ k (hk : k < ts.length), Triple.at? words (3 * k) = some ts[k]) {m : Nat} (hm : m ≤ ts.length) :
    pairs words m = unpackPairs (ts.take m) := by
  induction m with
  | zero => rfl
  | succ m ih =>
    have htake : ts.take (m + 1) = ts.take m ++ [ts[m]] := List.take_succ_eq_append_getElem hm
    rw [pairs_succ (h m hm), ih (Nat.le_of_succ_le hm), htake, unpackPairs, unpackPairs, List.flatMap_append]
    rfl

variable {n : Nat} {ws : List Word} {rest : List UInt32}

private theorem LeadsTo.size_assemble (h : LeadsTo n ws rest) : (assemble ws rest).size = 3 * n + rest.length := by
  rw [assemble, List.size_toArray, List.length_append, Triple.length_concat, (unpackPairs_packPairs h.length).1]

private theorem LeadsTo.pairs_assemble (h : LeadsTo n ws rest) {m : Nat} (hm : m ≤ n) :
    pairs (assemble ws rest) m = unpackPairs ((packPairs ws).take m) := by
  obtain ⟨hlength, -⟩ := unpackPairs_packPairs h.length
  refine pairs_of_at? (fun k hk => Triple.at?_concat _ _ hk) ?_
  rwa [hlength]

theorem LeadsTo.pairs_assemble_all (h : LeadsTo n ws rest) : pairs (assemble ws rest) n = ws := by
  obtain ⟨hlength, hwords⟩ := unpackPairs_packPairs h.length
  rw [h.pairs_assemble (Nat.le_refl n), ← hlength, List.take_length, hwords]

private theorem LeadsTo.mem_of_mem_pairs (h : LeadsTo n ws rest) {m : Nat} (hm : m ≤ n) {w : Word}
    (hw : w ∈ pairs (assemble ws rest) m) : w ∈ ws := by
  obtain ⟨-, hwords⟩ := unpackPairs_packPairs h.length
  rw [h.pairs_assemble hm] at hw
  obtain ⟨t, ht, hw⟩ := List.mem_flatMap.mp hw
  rw [← hwords]
  exact List.mem_flatMap.mpr ⟨t, List.mem_of_mem_take ht, hw⟩

theorem LeadsTo.endedByExec (h : LeadsTo n ws rest) (hrest : rest ≠ []) : EndedByExec (assemble ws rest) n := by
  obtain ⟨w, hw, e, he, hcount, haddress⟩ := h.claimed.resolve_left hrest
  refine ⟨w, ?_, e, he, hcount, Nat.le_of_eq haddress⟩
  rwa [h.pairs_assemble_all]

theorem LeadsTo.isExtent (h : LeadsTo n ws rest) : IsExtent (assemble ws rest) n := by
  have hsize := h.size_assemble
  constructor
  · by_cases hrest : rest = []
    · subst hrest
      rw [List.length_nil] at hsize
      exact .inl (by omega)
    · exact .inr (h.endedByExec hrest)
  · rintro m hm (hshort | ⟨w, hw, e, he, hcount, haddress⟩)
    · omega
    · have hbehind := h.behind w (h.mem_of_mem_pairs (Nat.le_of_lt hm) hw) e he hcount
      omega

/-- Reading gives back the control flow words and, behind them, the whole triples of `rest`. -/
theorem read_assemble (h : LeadsTo n ws rest) :
    (read (assemble ws rest)).instructions = ws ∧ (read (assemble ws rest)).truncatedAt = none ∧
      (∀ (address : UInt32) (j : Nat) (_ : address.toNat = n + j) (_ : 3 * j + 3 ≤ rest.length),
        wordAt (assemble ws rest) address = .ok ⟨rest[3 * j], rest[3 * j + 1], rest[3 * j + 2]⟩) ∧
      ∀ (address : UInt32) (j : Nat), address.toNat = n + j → rest.length < 3 * j + 3 →
        wordAt (assemble ws rest) address = .error (.instructionOutOfRange address (assemble ws rest).size) := by
  obtain ⟨hpairs, htruncated⟩ := read_of_isExtent h.isExtent
  have hsize := h.size_assemble
  have hat (j : Nat) : Triple.at? (assemble ws rest) (3 * (n + j)) = Triple.at? rest.toArray (3 * j) := by
    obtain ⟨hlength, -⟩ := unpackPairs_packPairs h.length
    have hbehind := Triple.at?_concat_length_add (packPairs ws) rest j
    rwa [hlength] at hbehind
  refine ⟨hpairs.trans h.pairs_assemble_all, ?_, fun address j haddress hj => ?_, fun address j haddress hj => ?_⟩
  · rw [Option.eq_none_iff_forall_ne_some]
    intro offset hoffset
    obtain ⟨-, hleft, hopen⟩ := (htruncated offset).mp hoffset
    have hrest : rest ≠ [] := by
      rintro rfl
      rw [List.length_nil] at hsize
      omega
    exact hopen (h.endedByExec hrest)
  · have hinside : 3 * j + 2 < rest.toArray.size := by
      rw [List.size_toArray]
      omega
    have hword : Triple.at? rest.toArray (3 * j) = some ⟨rest[3 * j], rest[3 * j + 1], rest[3 * j + 2]⟩ :=
      dif_pos hinside
    rw [wordAt, haddress, hat, hword]
  · have hnone : Triple.at? rest.toArray (3 * j) = none := by
      rw [Triple.at?_eq_none_iff, List.size_toArray]
      exact hj
    rw [wordAt, haddress, hat, hnone]

/-- An exec of the second pair claims the triple behind it, an exec of the first pair a later one, and an empty exec
none at all. -/
theorem read_assemble_of_late_claim :
    let ws : List Word := [⟨0x1003, 0x1000⟩, ⟨0, 0x1000⟩, ⟨0x1002, 0x2000⟩, ⟨0, 0⟩]
    let rest : List UInt32 := [10, 11, 12, 13, 14, 15, 16]
    LeadsTo 2 ws rest ∧ (read (assemble ws rest)).instructions = ws ∧ (read (assemble ws rest)).truncatedAt = none ∧
      wordAt (assemble ws rest) 3 = .ok ⟨13, 14, 15⟩ ∧
      wordAt (assemble ws rest) 4 = .error (.instructionOutOfRange 4 13) := by
  intro ws rest
  have h : LeadsTo 2 ws rest := by
    refine ⟨rfl, fun w hw e he hcount => ?_, .inr ⟨⟨0x1002, 0x2000⟩, by decide, _, rfl, by decide, by decide⟩⟩
    obtain rfl := Word.layout_exec he
    revert w
    decide
  obtain ⟨hinstructions, htruncated, hinside, houtside⟩ := read_assemble h
  exact ⟨h, hinstructions, htruncated, hinside 3 1 rfl (by decide), houtside 4 2 rfl (by decide)⟩

end Program

end ShaderMicrocode
