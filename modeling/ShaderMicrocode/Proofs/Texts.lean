import ShaderMicrocode.Schedule
/-!
# Texts

The characters that the texts of a disassembly are made of. No text of an instruction or of an error breaks a line, and
operands and results are single tokens.
-/
namespace ShaderMicrocode

open ControlFlow Fetch

/-- Every character of the text satisfies `p`. -/
def Over (p : Char → Bool) (s : String) : Prop := s.toList.all p = true

instance (p : Char → Bool) (s : String) : Decidable (Over p s) := inferInstanceAs (Decidable (_ = true))

section Over

variable {p : Char → Bool} {s t : String}

@[simp] theorem over_append : Over p (s ++ t) ↔ Over p s ∧ Over p t := by
  simp [Over]

@[simp] theorem over_ite {q : Prop} [Decidable q] : Over p (if q then s else t) ↔ (q → Over p s) ∧ (¬q → Over p t) := by
  split <;> simp_all

theorem over_iff : Over p s ↔ ∀ c ∈ s.toList, p c = true := List.all_eq_true

theorem over_join {ss : List String} (h : ∀ s ∈ ss, Over p s) : Over p (String.join ss) := by
  rw [over_iff]
  intro c hc
  rw [String.toList_join] at hc
  obtain ⟨s, hs, hc⟩ := List.mem_flatMap.mp hc
  exact over_iff.mp (h s hs) c hc

theorem over_intercalate {sep : String} {ss : List String} (hsep : Over p sep) (h : ∀ s ∈ ss, Over p s) :
    Over p (sep.intercalate ss) := by
  induction ss with
  | nil => exact List.all_nil
  | cons s ss ih =>
    have hs : Over p s := h s List.mem_cons_self
    have hrest : Over p (sep.intercalate ss) := ih fun t ht => h t (List.mem_cons_of_mem _ ht)
    cases ss with
    | nil => simpa using hs
    | cons t ss =>
      rw [String.intercalate_cons_cons]
      exact over_append.mpr ⟨over_append.mpr ⟨hs, hsep⟩, hrest⟩

theorem over_ofList {l : List Char} (h : ∀ c ∈ l, p c = true) : Over p (String.ofList l) := by
  rw [over_iff, String.toList_ofList]
  exact h

end Over

/-! Numerals. -/

section Numerals

variable {p : Char → Bool} (hp : ∀ c, c.isDigit = true → p c = true)

theorem isDigit_of_mem_repr {n : Nat} {c : Char} (h : c ∈ n.repr.toList) : c.isDigit = true := by
  rw [Nat.toList_repr] at h
  exact Nat.isDigit_of_mem_toDigits (by decide) (by decide) h

include hp

theorem over_repr (n : Nat) : Over p n.repr := over_iff.mpr fun c hc => hp c (isDigit_of_mem_repr hc)

theorem over_decimal (n : UInt32) : Over p (decimal n) := over_repr hp _

theorem over_signedDecimal (hsign : p '-' = true) (n : Int32) : Over p (signedDecimal n) := by
  have hdigits := over_repr hp n.toInt.natAbs
  unfold signedDecimal
  split
  · exact over_append.mpr ⟨by simpa [Over] using hsign, hdigits⟩
  · exact hdigits

theorem over_paddedDecimal (hblank : p ' ' = true) (width n : Nat) : Over p (paddedDecimal width n) := by
  refine over_append.mpr ⟨over_ofList fun c hc => ?_, over_repr hp n⟩
  rw [(List.mem_replicate.mp hc).2]
  exact hblank

end Numerals

/-! Tokens and lines. -/

def isLineChar (c : Char) : Bool := c != '\n'

def isTokenChar (c : Char) : Bool := c != ' ' && c != '\n'

abbrev IsLine (s : String) : Prop := Over isLineChar s

abbrev IsToken (s : String) : Prop := Over isTokenChar s

private theorem isTokenChar_of_isDigit (c : Char) (h : c.isDigit = true) : isTokenChar c = true := by
  unfold isTokenChar
  rw [Bool.and_eq_true, bne_iff_ne, bne_iff_ne]
  constructor
  all_goals
    rintro rfl
    exact absurd h (by decide)

private theorem isLineChar_of_isTokenChar {c : Char} (h : isTokenChar c = true) : isLineChar c = true :=
  (Bool.and_eq_true_iff.mp h).2

theorem IsToken.isLine {s : String} (h : IsToken s) : IsLine s :=
  over_iff.mpr fun c hc => isLineChar_of_isTokenChar (over_iff.mp h c hc)

@[simp] theorem isToken_repr (n : Nat) : IsToken n.repr := over_repr isTokenChar_of_isDigit n

@[simp] theorem isToken_decimal (n : UInt32) : IsToken (decimal n) := isToken_repr _

@[simp] theorem isLine_repr (n : Nat) : IsLine n.repr := (isToken_repr n).isLine

@[simp] theorem isLine_decimal (n : UInt32) : IsLine (decimal n) := isLine_repr _

@[simp] theorem isLine_signedDecimal (n : Int32) : IsLine (signedDecimal n) :=
  over_signedDecimal (fun c h => isLineChar_of_isTokenChar (isTokenChar_of_isDigit c h)) (by decide) n

private theorem isToken_letters (cs : List Component) : IsToken (String.ofList (cs.map Component.letter)) := by
  refine over_ofList fun c hc => ?_
  obtain ⟨component, -, rfl⟩ := List.mem_map.mp hc
  cases component <;> decide

private theorem Addressing.isToken_indexed (a : Addressing) {name : String} (h : IsToken name) (index : UInt32) :
    IsToken (a.indexed name index) := by
  cases a <;> simp +decide [indexed, suffix, h]

theorem Operand.isToken_text (o : Operand) : IsToken o.text := by
  have hname : IsToken o.source.letters := by cases o.source <;> decide
  have hindexed : IsToken (o.addressing.indexed o.source.letters o.index) := o.addressing.isToken_indexed hname o.index
  simp +decide [text, swizzleText, hindexed, isToken_letters, -List.map_take]

theorem Result.isToken_text (r : Result) : IsToken r.text := by
  have htarget : IsToken r.targetText := by
    have hindexed : IsToken (r.addressing.indexed "r" r.index) := r.addressing.isToken_indexed (by decide) r.index
    unfold targetText
    cases r.target <;> simp +decide [hindexed]
  have hletter (written : Bool) (c : Component) : isTokenChar (if written then c.letter else '_') = true := by
    cases written <;> cases c <;> decide
  have hletters : IsToken (String.ofList
      (List.zipWith (fun written c => if written then c.letter else '_') r.mask.toList r.swizzle.toList)) := by
    refine over_ofList fun c hc => ?_
    simp only [WriteMask.toList, Swizzle.toList, List.zipWith_cons_cons, List.zipWith_nil_left, List.mem_cons,
      List.not_mem_nil, or_false] at hc
    rcases hc with rfl | rfl | rfl | rfl <;> exact hletter _ _
  simp +decide [text, swizzleText, htarget, hletters]

private theorem isLine_operands (os : List Operand) : IsLine (String.join (os.map fun o => ", " ++ o.text)) := by
  refine over_join fun s hs => ?_
  obtain ⟨o, -, rfl⟩ := List.mem_map.mp hs
  exact over_append.mpr ⟨by decide, o.isToken_text.isLine⟩

@[simp] theorem Predicate.isLine_column (p : Predicate) : IsLine p.column := by
  obtain ⟨isPredicated, condition⟩ := p
  cases isPredicated <;> cases condition <;> decide

@[simp] theorem Predicate.isLine_blank : IsLine blank := by decide

/-! Instructions. -/

theorem Alu.Instruction.isLine_text {i : Instruction} (hname : IsLine i.name) : IsLine i.text := by
  have hresult : IsLine i.result.text := i.result.isToken_text.isLine
  have hoperands := isLine_operands i.operands
  unfold text
  cases i.half <;> simp +decide [hname, hresult, hoperands]

theorem Fetch.VertexFetch.isLine_text {f : VertexFetch} (hname : IsLine f.name) : IsLine f.text := by
  have hresult : IsLine f.result.text := f.result.isToken_text.isLine
  have hoperands := isLine_operands f.operands
  have hformat : IsLine f.format.name := by cases f.format <;> decide
  simp +decide [text, hname, hresult, hoperands, hformat]

theorem Fetch.Sampling.isLine_text (s : Sampling) : IsLine s.text := by
  simp +decide [text]

theorem Fetch.TextureFetch.isLine_text {f : TextureFetch} (hname : IsLine f.name) : IsLine f.text := by
  have hshown : IsLine (", ".intercalate
      ((if f.result.target = .nowhere then [] else [f.result.text]) ++ f.operands.map Operand.text)) := by
    refine over_intercalate (by decide) fun s hs => ?_
    rcases List.mem_append.mp hs with hs | hs
    · split at hs
      · exact absurd hs List.not_mem_nil
      · rw [List.mem_singleton.mp hs]
        exact f.result.isToken_text.isLine
    · obtain ⟨o, -, rfl⟩ := List.mem_map.mp hs
      exact o.isToken_text.isLine
  simp +decide [text, hname, hshown, f.sampling.isLine_text]

namespace ControlFlow

private theorem Guard.isLine_column (g : Guard) : IsLine g.column := by
  unfold column
  split <;> simp

private theorem Guard.isLine_branchText (g : Guard) {name conditionalName : String} (hname : IsLine name)
    (hconditional : IsLine conditionalName) (target : UInt32) : IsLine (g.branchText name conditionalName target) := by
  have hcolumn := g.isLine_column
  unfold branchText
  split <;> simp +decide [hcolumn, hname, hconditional, constantText]

theorem Exec.isLine_text {e : Exec} (hname : IsLine e.name) : IsLine e.text := by
  have hcolumn := e.guard.isLine_column
  unfold text
  split <;> simp +decide [hcolumn, hname, Guard.constantText]

private theorem ExecLayout.isLine_name (l : ExecLayout) : IsLine l.name := by
  simp +decide [name]

theorem Word.isLine_text {w : Word} {index : UInt32} {stage : Stage} {i : Instruction}
    (h : w.resolve index stage = .ok i) : IsLine i.text := by
  unfold resolve at h
  split at h <;> cases h
  case h_1 | h_6 => simp +decide [Instruction.text]
  case h_2 l _ => exact Exec.isLine_text l.isLine_name
  case h_3 | h_4 => simp +decide [Instruction.text, LoopStart.text, LoopEnd.text]
  case h_5 | h_7 => exact Guard.isLine_branchText _ (by decide) (by decide) _
  case h_8 a _ =>
    simp only [Instruction.text, Alloc.text]
    split <;> simp +decide

end ControlFlow

theorem DecodeError.isLine_placeholder (e : DecodeError) : IsLine e.placeholder := by
  have hname (op : ControlFlow.Opcode) : IsLine op.name := by cases op <;> decide
  have hstage (stage : Stage) : IsLine stage.name := by cases stage <;> decide
  have hnumber {text : String} (h : IsLine text) (n : Nat) : IsLine (text ++ n.repr) :=
    over_append.mpr ⟨h, isLine_repr n⟩
  have hmessage : IsLine e.message := by
    cases e with
    | unimplementedVectorOpcode n => exact hnumber (by decide +kernel) n.toNat
    | unimplementedScalarOpcode n => exact hnumber (by decide +kernel) n.toNat
    | unimplementedFetchOpcode n => exact hnumber (by decide +kernel) n.toNat
    | unimplementedControlFlow op => exact over_append.mpr ⟨by decide +kernel, hname op⟩
    | miniFetchWithoutFullFetch =>
      show IsLine "mini vertex fetch without a preceding full fetch"
      decide +kernel
    | invalidVertexFormat n => exact hnumber (by decide +kernel) n.toNat
    | invalidExportDestination dest stage =>
      have hdest : IsLine ("invalid export destination " ++ decimal dest) := hnumber (by decide +kernel) dest.toNat
      exact over_append.mpr ⟨over_append.mpr ⟨over_append.mpr ⟨hdest, by decide⟩, hstage stage⟩, by decide⟩
    | instructionOutOfRange address dwordCount =>
      have haddress : IsLine ("instruction " ++ decimal address) := hnumber (by decide +kernel) address.toNat
      have hcount : IsLine ("instruction " ++ decimal address ++ " lies outside the microcode (" ++ dwordCount.repr) :=
        hnumber (over_append.mpr ⟨haddress, by decide +kernel⟩) dwordCount
      exact over_append.mpr ⟨hcount, by decide⟩
    | truncatedControlFlow offset => exact hnumber (by decide +kernel) offset
  exact over_append.mpr ⟨over_append.mpr ⟨by decide, hmessage⟩, by decide⟩

theorem isLine_labelLine (index : UInt32) : IsLine (labelLine index) :=
  over_append.mpr ⟨by decide, isLine_decimal index⟩

theorem isLine_instructionLine (offset : Nat) {body : String} (h : IsLine body) :
    IsLine (instructionLine offset body) := by
  have hdigit (c : Char) (h : c.isDigit = true) : isLineChar c = true :=
    isLineChar_of_isTokenChar (isTokenChar_of_isDigit c h)
  have hpadded : IsLine (paddedDecimal 4 (offset / 3)) := over_paddedDecimal hdigit (by decide) _ _
  simp only [instructionLine, over_append]
  exact ⟨⟨⟨⟨⟨by decide, hpadded⟩, by decide⟩, isLine_repr _⟩, by decide⟩, h⟩

end ShaderMicrocode
