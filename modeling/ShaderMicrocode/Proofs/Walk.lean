import ShaderMicrocode.Schedule
import ShaderMicrocode.Proofs.Program
/-!
# The walk

The addresses of a block never wrap, so word `i` of an exec is the word at its address plus `i`, and once a word lies
outside the microcode so do all words behind it. Hence a walk that looks at the fetches only finds the fetches that
the full walk visits.
-/
namespace ShaderMicrocode

open ControlFlow

/-! Words. -/

theorem wordAt_ok_iff {words : Array UInt32} {address : UInt32} {t : Triple} :
    wordAt words address = .ok t ↔ Triple.at? words (3 * address.toNat) = some t := by
  unfold wordAt
  cases Triple.at? words (3 * address.toNat) <;> simp

theorem wordAt_error_iff {words : Array UInt32} {address : UInt32} {e : DecodeError} :
    wordAt words address = .error e ↔
      Triple.at? words (3 * address.toNat) = none ∧ e = .instructionOutOfRange address words.size := by
  unfold wordAt
  cases Triple.at? words (3 * address.toNat) <;> simp [eq_comm]

/-- Word `i` of an exec at `address` lies wholly inside the microcode. -/
def InsideAt (words : Array UInt32) (address : UInt32) (i : Nat) : Prop := 3 * (address.toNat + i) + 3 ≤ words.size

theorem insideAt_iff {words : Array UInt32} {address : UInt32} {i : Nat} :
    InsideAt words address i ↔ Triple.at? words (3 * (address.toNat + i)) ≠ none := by
  rw [Ne, Triple.at?_eq_none_iff, InsideAt, Nat.not_lt]

/-! Execs. -/

theorem ControlFlow.ExecLayout.Fits.toNat_address {l : ExecLayout} (h : l.Fits) {i : Nat} (hi : i < 8) :
    (l.address + UInt32.ofNat i).toNat = l.address.toNat + i := by
  have := h.address_lt
  rw [UInt32.toNat_add, UInt32.toNat_ofNat']
  omega

/-- What is left of the sequence in front of word `i`. -/
def ControlFlow.ExecLayout.sequenceAt (l : ExecLayout) : Nat → UInt32
  | 0 => l.sequence
  | i + 1 => l.sequenceAt i >>> 2

theorem ControlFlow.ExecLayout.toNat_sequenceAt (l : ExecLayout) (i : Nat) :
    (l.sequenceAt i).toNat = l.sequence.toNat >>> (2 * i) := by
  induction i with
  | zero => rfl
  | succ i ih =>
    have htwo : (2 : UInt32).toNat % 32 = 2 := rfl
    rw [sequenceAt, UInt32.toNat_shiftRight, htwo, ih, ← Nat.shiftRight_add, Nat.mul_succ]

/-- The lowest bit of what is left is the bit that says whether the word is a fetch. -/
theorem ControlFlow.ExecLayout.lowBit_sequenceAt (l : ExecLayout) (i : Nat) :
    (l.sequenceAt i &&& 1 == 1) = l.isFetch i := by
  have hone : (1 : UInt32).toNat = 1 := rfl
  rw [isFetch, Nat.testBit_eq_decide_div_mod_eq, ← Nat.shiftRight_eq_div_pow, ← toNat_sequenceAt, Bool.eq_iff_iff,
    decide_eq_true_iff, beq_iff_eq, ← UInt32.toNat_inj, UInt32.toNat_and, hone, Nat.and_one_is_mod]

/-! Both walks. -/

namespace Block

variable {words : Array UInt32} {l : ExecLayout}

theorem readFrom_succ (words : Array UInt32) (l : ExecLayout) (i n : Nat) :
    readFrom words l (l.sequenceAt i) i (n + 1) =
      match wordAt words (l.address + UInt32.ofNat i) with
      | .error fault => ⟨[], some fault⟩
      | .ok word =>
        let rest := readFrom words l (l.sequenceAt (i + 1)) (i + 1) n
        ⟨⟨l.address + UInt32.ofNat i, l.isFetch i, word⟩ :: rest.visits, rest.fault?⟩ := by
  rw [readFrom, l.lowBit_sequenceAt]
  rfl

private theorem fetchesFrom_eq_nil (hl : l.Fits) (n i : Nat) (hn : i + n ≤ 8) (h : ¬InsideAt words l.address i) :
    fetchesFrom words l i n = [] := by
  induction n generalizing i with
  | zero => rfl
  | succ n ih =>
    have hnext : ¬InsideAt words l.address (i + 1) := by
      unfold InsideAt at h ⊢
      omega
    unfold fetchesFrom
    rw [ih (i + 1) (by omega) hnext]
    split
    · have hat : Triple.at? words (3 * (l.address + UInt32.ofNat i).toNat) = none := by
        rw [insideAt_iff, Ne, Classical.not_not] at h
        rw [hl.toNat_address (by omega), h]
      have herror := wordAt_error_iff.mpr ⟨hat, rfl⟩
      simp only [herror]
    · rfl

private theorem fetchesFrom_eq_filter (hl : l.Fits) (n i : Nat) (hn : i + n ≤ 8) :
    fetchesFrom words l i n = (readFrom words l (l.sequenceAt i) i n).visits.filter Visit.isFetch := by
  induction n generalizing i with
  | zero => rfl
  | succ n ih =>
    rw [fetchesFrom, readFrom_succ]
    dsimp only
    cases hword : wordAt words (l.address + UInt32.ofNat i) with
    | error e =>
      -- a word that the walk for fetches skips ends the full walk, but there is no fetch behind it either
      have houtside : ¬InsideAt words l.address (i + 1) := by
        have hat := (wordAt_error_iff.mp hword).1
        rw [hl.toNat_address (by omega), Triple.at?_eq_none_iff] at hat
        unfold InsideAt
        omega
      split
      · rfl
      · exact fetchesFrom_eq_nil hl n (i + 1) (by omega) houtside
    | ok t =>
      dsimp only
      rw [ih (i + 1) (by omega)]
      by_cases hfetch : l.isFetch i
      · rw [if_pos hfetch, List.filter_cons, hfetch, if_pos rfl]
      · rw [if_neg hfetch, List.filter_cons, if_neg hfetch]

end Block

def ControlFlow.Word.visits (words : Array UInt32) (w : Word) : List Visit :=
  ((w.block? words).map Block.visits).getD []

theorem ControlFlow.Word.visits_of_exec (words : Array UInt32) {w : Word} {l : ExecLayout} (h : w.layout = .exec l) :
    w.visits words = (Block.read words l).visits := by
  simp [visits, block?, h]

theorem ControlFlow.Word.visits_of_not_exec (words : Array UInt32) {w : Word} (h : ∀ l, w.layout ≠ .exec l) :
    w.visits words = [] := by
  unfold visits block?
  cases hl : w.layout with
  | exec l => exact absurd hl (h l)
  | _ => rfl

theorem ControlFlow.Word.fetches_eq_filter (words : Array UInt32) (w : Word) :
    w.fetches words = (w.visits words).filter Visit.isFetch := by
  unfold fetches visits block?
  cases h : w.layout with
  | exec l =>
    have hfits := ExecLayout.fits_of_layout h
    have := hfits.count_lt
    exact Block.fetchesFrom_eq_filter hfits l.count.toNat 0 (by omega)
  | _ => rfl

/-- Word `j` of the block of `l`, if it lies inside the microcode. -/
def ControlFlow.ExecLayout.visit? (l : ExecLayout) (words : Array UInt32) (j : Nat) : Option Visit :=
  (Triple.at? words (3 * (l.address.toNat + j))).map fun t => ⟨l.address + UInt32.ofNat j, l.isFetch j, t⟩

theorem ControlFlow.ExecLayout.isSome_visit? {l : ExecLayout} {words : Array UInt32} {j : Nat} :
    (l.visit? words j).isSome = true ↔ InsideAt words l.address j := by
  rw [visit?, Option.isSome_map, insideAt_iff, Option.isSome_iff_ne_none]

theorem Block.visits_readFrom {words : Array UInt32} {l : ExecLayout} (hl : l.Fits) (n i : Nat) (hn : i + n ≤ 8) :
    (readFrom words l (l.sequenceAt i) i n).visits = (List.range' i n).filterMap (l.visit? words) := by
  induction n generalizing i with
  | zero => rfl
  | succ n ih =>
    have haddress : (l.address + UInt32.ofNat i).toNat = l.address.toNat + i := hl.toNat_address (by omega)
    rw [readFrom_succ]
    dsimp only
    cases hword : wordAt words (l.address + UInt32.ofNat i) with
    | error e =>
      have houtside : ¬InsideAt words l.address i := by
        rw [insideAt_iff, ← haddress, (wordAt_error_iff.mp hword).1]
        exact fun h => h rfl
      -- addresses ascend, so nothing behind a word outside the microcode lies inside
      refine (List.filterMap_eq_nil_iff.mpr fun j hj => ?_).symm
      have hle : i ≤ j := (List.mem_range'_1.mp hj).1
      rw [← Option.not_isSome_iff_eq_none, ExecLayout.isSome_visit?]
      unfold InsideAt at houtside ⊢
      omega
    | ok t =>
      have hvisit : l.visit? words i = some ⟨l.address + UInt32.ofNat i, l.isFetch i, t⟩ := by
        rw [ExecLayout.visit?, ← haddress, wordAt_ok_iff.mp hword]
        rfl
      dsimp only
      rw [ih (i + 1) (by omega), List.range'_succ, List.filterMap_cons_some hvisit]

theorem ControlFlow.Word.visits_eq_filterMap (words : Array UInt32) {w : Word} {l : ExecLayout}
    (h : w.layout = .exec l) : w.visits words = (List.range l.count.toNat).filterMap (l.visit? words) := by
  have hfits := ExecLayout.fits_of_layout h
  have hcount := hfits.count_lt
  rw [w.visits_of_exec words h, List.range_eq_range']
  exact Block.visits_readFrom hfits l.count.toNat 0 (by omega)

def Program.visits (words : Array UInt32) (p : Program) : List Visit := p.instructions.flatMap (Word.visits words)

/-- A walk that looks at the fetches only misses none of them. -/
theorem Program.fetches_eq_filter (words : Array UInt32) (p : Program) :
    p.fetches words = (p.visits words).filter Visit.isFetch := by
  unfold fetches visits
  rw [List.filter_flatMap]
  congr 1
  funext w
  exact w.fetches_eq_filter words

theorem Program.isFetch_of_mem_fetches {words : Array UInt32} {p : Program} {v : Visit} (h : v ∈ p.fetches words) :
    v.isFetch = true := by
  rw [fetches_eq_filter] at h
  exact (List.mem_filter.mp h).2

theorem Program.filterMap_fetches {β : Type} {f : Visit → Option β} (hf : ∀ v, ¬v.isFetch = true → f v = none)
    (words : Array UInt32) (p : Program) : (p.fetches words).filterMap f = (p.visits words).filterMap f := by
  rw [fetches_eq_filter, List.filterMap_filter]
  congr 1
  funext v
  by_cases hv : v.isFetch = true
  · rw [if_pos hv]
  · rw [if_neg hv, hf v hv]

private theorem Block.length_visits_readFrom_le (words : Array UInt32) (l : ExecLayout) (sequence : UInt32)
    (i n : Nat) : (readFrom words l sequence i n).visits.length ≤ n := by
  induction n generalizing sequence i with
  | zero => exact Nat.le_refl _
  | succ n ih =>
    unfold readFrom
    dsimp only
    split
    · exact Nat.zero_le _
    · exact Nat.succ_le_succ (ih (sequence >>> 2) (i + 1))

private theorem ControlFlow.Word.length_visits_le (words : Array UInt32) (w : Word) :
    (w.visits words).length ≤ if w.namesWords then 7 else 0 := by
  unfold visits block? namesWords extent?
  cases h : w.layout with
  | exec l =>
    have hlength := Block.length_visits_readFrom_le words l l.sequence 0 l.count.toNat
    have := (ExecLayout.fits_of_layout h).count_lt
    show (Block.read words l).visits.length ≤ _
    rw [Block.read]
    by_cases hcount : l.count = 0
    · simp only [hcount] at hlength ⊢
      exact hlength
    · simp only [hcount, if_false, Option.isSome_some, if_true]
      omega
  | _ => exact Nat.zero_le _

theorem Program.length_visits_le (words : Array UInt32) (p : Program) :
    (p.visits words).length ≤ 7 * p.instructions.countP Word.namesWords := by
  unfold visits
  induction p.instructions with
  | nil => exact Nat.le_refl _
  | cons w ws ih =>
    have hfirst := w.length_visits_le words
    have hstep : (if w.namesWords then 7 else 0) = 7 * if w.namesWords then 1 else 0 := by
      cases w.namesWords <;> rfl
    rw [List.flatMap_cons, List.length_append, List.countP_cons, Nat.mul_add, ← hstep, Nat.add_comm]
    exact Nat.add_le_add ih hfirst

theorem Program.length_visits_read_le (words : Array UInt32) : ((read words).visits words).length ≤ 57330 :=
  Nat.le_trans (length_visits_le words (read words)) (Nat.mul_le_mul_left 7 (countP_namesWords_le words))

/-- However long the microcode is, its words can be numbered. -/
theorem Program.length_visits_lt (words : Array UInt32) : ((read words).visits words).length < UInt32.size :=
  Nat.lt_of_le_of_lt (length_visits_read_le words) (by decide)

/-! State along the walk. -/

/-- What `f` makes of each visited word, given the full vertex fetch before it. -/
def collect {β : Type} (f : Option Fetch.VertexWord → Visit → List β) (last : Option Fetch.VertexWord) :
    List Visit → List β
  | [] => []
  | v :: vs => f last v ++ collect f (v.remember last) vs

def rememberAll (last : Option Fetch.VertexWord) (vs : List Visit) : Option Fetch.VertexWord :=
  vs.foldl (fun last v => v.remember last) last

section Collect

variable {β : Type} (f : Option Fetch.VertexWord → Visit → List β) (last : Option Fetch.VertexWord)

theorem collect_append (vs vs' : List Visit) :
    collect f last (vs ++ vs') = collect f last vs ++ collect f (rememberAll last vs) vs' := by
  induction vs generalizing last with
  | nil => rfl
  | cons v vs ih =>
    rw [List.cons_append, collect, collect, ih, List.append_assoc]
    rfl

theorem mem_collect {vs : List Visit} {x : β} (h : x ∈ collect f last vs) :
    ∃ before v after, vs = before ++ v :: after ∧ x ∈ f (rememberAll last before) v := by
  induction vs generalizing last with
  | nil => cases h
  | cons v vs ih =>
    rcases List.mem_append.mp h with h | h
    · exact ⟨[], v, vs, rfl, h⟩
    · obtain ⟨before, u, after, rfl, hu⟩ := ih _ h
      exact ⟨v :: before, u, after, rfl, hu⟩

theorem collect_eq_nil_iff (vs : List Visit) :
    collect f last vs = [] ↔ ∀ before v after, vs = before ++ v :: after → f (rememberAll last before) v = [] := by
  constructor
  · rintro h before v after rfl
    rw [collect_append, collect, List.append_eq_nil_iff, List.append_eq_nil_iff] at h
    exact h.2.1
  · intro h
    induction vs generalizing last with
    | nil => rfl
    | cons v vs ih =>
      have hfirst : f last v = [] := h [] v vs rfl
      have hrest : collect f (v.remember last) vs = [] :=
        ih _ fun before u after heq => h (v :: before) u after (congrArg (v :: ·) heq)
      rw [collect, hfirst, hrest, List.append_nil]

theorem collect_filterMap {γ : Type} (g : β → Option γ) (vs : List Visit) :
    (collect f last vs).filterMap g = collect (fun last v => (f last v).filterMap g) last vs := by
  induction vs generalizing last with
  | nil => rfl
  | cons v vs ih => rw [collect, List.filterMap_append, ih, collect]

theorem collect_toList (g : Visit → Option β) (vs : List Visit) :
    collect (fun _ v => (g v).toList) last vs = vs.filterMap g := by
  induction vs generalizing last with
  | nil => rfl
  | cons v vs ih =>
    rw [collect, ih, List.filterMap_cons]
    cases g v <;> rfl

variable {f} in
theorem length_collect_le {n : Nat} (hf : ∀ last v, (f last v).length ≤ n) (vs : List Visit) :
    (collect f last vs).length ≤ n * vs.length := by
  induction vs generalizing last with
  | nil => exact Nat.le_refl _
  | cons v vs ih =>
    rw [collect, List.length_append, List.length_cons, Nat.mul_succ, Nat.add_comm]
    exact Nat.add_le_add (ih (v.remember last)) (hf last v)

theorem filterMap_ofVisits (stage : Stage) (g : Act → Option β) (vs : List Visit) :
    (Schedule.ofVisits stage last vs).flatten.filterMap g =
      collect (fun last v => (Act.ofVisit stage last v).filterMap g) last vs := by
  induction vs generalizing last with
  | nil => rfl
  | cons v vs ih => rw [Schedule.ofVisits, List.flatten_cons, List.filterMap_append, ih, collect]

end Collect

end ShaderMicrocode
