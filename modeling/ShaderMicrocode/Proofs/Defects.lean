import ShaderMicrocode.Proofs.Steps
import ShaderMicrocode.Proofs.Walk
/-!
# Defects

What the walk over a program has to report, said of the words that it reaches: an instruction that cannot be decoded, a
fetch or a half of an ALU word that cannot be decoded, and the first word of a block that lies outside the microcode.
-/
namespace ShaderMicrocode

open ControlFlow Fetch

def defect? {α : Type} : Except DecodeError α → Option DecodeError
  | .ok _ => none
  | .error e => some e

/-- Why a visited word cannot be decoded: one reason for a fetch, one for each half of an ALU word. -/
def Visit.defects (stage : Stage) (last : Option VertexWord) (v : Visit) : List DecodeError :=
  if v.isFetch then
    if opcodeBits v.word = Opcode.vertexFetch.code then
      (defect? ((VertexWord.decode v.word).resolve last v.address)).toList
    else (defect? ((TextureWord.decode v.word).resolve v.address)).toList
  else ((Alu.Word.decode v.word).halves stage v.address).filterMap defect?

instance (words : Array UInt32) (address : UInt32) (i : Nat) : Decidable (InsideAt words address i) :=
  inferInstanceAs (Decidable (_ ≤ _))

/-- The first of the words `i` to `i + n - 1` of the block of `l` that does not lie inside the microcode. -/
def outside? (words : Array UInt32) (l : ExecLayout) (i n : Nat) : Option DecodeError :=
  ((List.range' i n).find? fun j => !decide (InsideAt words l.address j)).map fun j =>
    .instructionOutOfRange (l.address + UInt32.ofNat j) words.size

/-- What is wrong with a control flow word and the words of its block. -/
def ControlFlow.Word.defects (stage : Stage) (words : Array UInt32) (last : Option VertexWord) (w : Word) :
    List DecodeError :=
  match w.layout with
  | .markVsFetchDone => [.unimplementedControlFlow .markVsFetchDone]
  | .exec l => collect (Visit.defects stage) last (w.visits words) ++ (outside? words l 0 l.count.toNat).toList
  | _ => []

/-- The defects of control flow words, the full vertex fetch `last` being the one before them. -/
def defectsFrom (stage : Stage) (words : Array UInt32) (last : Option VertexWord) : List Word → List DecodeError
  | [] => []
  | w :: ws => w.defects stage words last ++ defectsFrom stage words (rememberAll last (w.visits words)) ws

def Program.defects (stage : Stage) (words : Array UInt32) (p : Program) : List DecodeError :=
  defectsFrom stage words none p.instructions

/-! Words. -/

private theorem diagnostics_ofFetch {α : Type} (address : UInt32) (p : Predicate) (decoded : Except DecodeError α)
    (text : α → String) (event : α → Event) :
    (Act.ofFetch address p decoded text event).filterMap Act.diagnostic? =
      (defect? decoded).toList.map .undecodable := by
  cases decoded <;> rfl

private theorem diagnostics_ofHalves (address : UInt32) (p : Predicate)
    (halves : List (Except DecodeError Alu.Instruction)) :
    (Act.ofHalves address p halves).filterMap Act.diagnostic? = (halves.filterMap defect?).map .undecodable := by
  rw [Act.ofHalves, List.cons_append, List.filterMap_cons_none rfl, List.filterMap_append, List.filterMap_filterMap,
    List.filterMap_filterMap, List.map_filterMap]
  refine Eq.trans ?_ (List.append_nil _)
  congr 1
  · congr 1
    funext half
    cases half <;> rfl
  · rw [List.filterMap_eq_nil_iff]
    intro half _
    cases half <;> rfl

theorem diagnostics_ofVisit (stage : Stage) (last : Option VertexWord) (v : Visit) :
    (Act.ofVisit stage last v).filterMap Act.diagnostic? = (v.defects stage last).map .undecodable := by
  unfold Act.ofVisit Visit.defects
  dsimp only
  split
  · split
    · exact diagnostics_ofFetch _ _ _ _ _
    · exact diagnostics_ofFetch _ _ _ _ _
  · exact diagnostics_ofHalves _ _ _

private theorem collect_map {β γ : Type} (f : Option VertexWord → Visit → List β) (g : β → γ) (last : Option VertexWord)
    (vs : List Visit) : collect (fun last v => (f last v).map g) last vs = (collect f last vs).map g := by
  induction vs generalizing last with
  | nil => rfl
  | cons v vs ih => rw [collect, collect, ih, List.map_append]

/-! Blocks. -/

private theorem Block.fault?_readFrom (words : Array UInt32) {l : ExecLayout} (hl : l.Fits) (sequence : UInt32)
    (n i : Nat) (hn : i + n ≤ 8) : (readFrom words l sequence i n).fault? = outside? words l i n := by
  induction n generalizing sequence i with
  | zero => rfl
  | succ n ih =>
    have haddress := hl.toNat_address (i := i) (by omega)
    unfold readFrom outside?
    rw [List.range'_succ, List.find?_cons]
    dsimp only
    split
    case h_1 e herror =>
      obtain ⟨hat, rfl⟩ := wordAt_error_iff.mp herror
      rw [haddress] at hat
      have houtside : ¬InsideAt words l.address i := fun h => insideAt_iff.mp h hat
      simp [houtside]
    case h_2 t hok =>
      have hat := wordAt_ok_iff.mp hok
      rw [haddress] at hat
      have hinside : InsideAt words l.address i := by
        rw [insideAt_iff, hat]
        nofun
      simp only [hinside, decide_true, Bool.not_true]
      exact ih (sequence >>> 2) (i + 1) (by omega)

theorem Block.fault?_read (words : Array UInt32) {w : Word} {l : ExecLayout} (h : w.layout = .exec l) :
    (Block.read words l).fault? = outside? words l 0 l.count.toNat := by
  have hfits := ExecLayout.fits_of_layout h
  have := hfits.count_lt
  exact fault?_readFrom words hfits l.sequence l.count.toNat 0 (by omega)

theorem outside?_eq_none_iff (words : Array UInt32) (l : ExecLayout) (n : Nat) :
    outside? words l 0 n = none ↔ ∀ i < n, InsideAt words l.address i := by
  rw [outside?, Option.map_eq_none_iff, List.find?_eq_none]
  simp [List.mem_range'_1]

namespace Schedule

variable (stage : Stage) (words : Array UInt32) (labels : List UInt32) (last : Option VertexWord)

theorem diagnostics_ofBlock (b : Block) :
    (ofBlock stage last b).flatten.filterMap Act.diagnostic? =
      (collect (Visit.defects stage) last b.visits ++ b.fault?.toList).map .undecodable := by
  have hvisits : (fun last v => (Act.ofVisit stage last v).filterMap Act.diagnostic?) =
      fun last v => (v.defects stage last).map Diagnostic.undecodable := by
    funext last v
    exact diagnostics_ofVisit stage last v
  rw [ofBlock, List.flatten_append, List.filterMap_append, filterMap_ofVisits, hvisits, collect_map, List.map_append]
  cases b.fault? <;> rfl

private theorem diagnostics_labelActs (index : UInt32) : (labelActs labels index).filterMap Act.diagnostic? = [] := by
  unfold labelActs
  split <;> rfl

theorem diagnostics_step (index : UInt32) (w : Word) :
    (step stage words labels last index w).acts.filterMap Act.diagnostic? =
      (w.defects stage words last).map .undecodable := by
  rw [step_eq, Step.acts]
  simp only [List.filterMap_append, diagnostics_labelActs]
  rcases acts_cases stage words last index w with
    ⟨l, hl, -, hown, hwords, hend⟩ | ⟨hl, hown, hwords, hend⟩ | ⟨i, hi, hne, hown, hwords, hend⟩
  · rw [hown, hwords, hend, diagnostics_ofBlock, Block.fault?_read words hl, Word.defects, hl,
      w.visits_of_exec words hl]
    exact List.append_nil _
  · rw [hown, hwords, hend, Word.defects, hl]
    rfl
  · have hlayout := Word.layout_ne_exec hi hne
    rw [hown, hwords, hend, Word.defects]
    cases hl : w.layout with
    | exec l => exact absurd hl (hlayout l)
    | markVsFetchDone => simp [Word.resolve, hl] at hi
    | _ => rfl

theorem diagnostics_walk (k : Nat) (ws : List Word) :
    ((walk stage words labels last k ws).flatMap Step.acts).filterMap Act.diagnostic? =
      (defectsFrom stage words last ws).map .undecodable := by
  induction ws generalizing last k with
  | nil => rfl
  | cons w ws ih =>
    rw [walk, List.flatMap_cons, List.filterMap_append, diagnostics_step, ih, defectsFrom, List.map_append]
    rfl

end Schedule

end ShaderMicrocode
