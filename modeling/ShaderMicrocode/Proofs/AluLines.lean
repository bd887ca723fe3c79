import ShaderMicrocode.Proofs.Lockstep
import ShaderMicrocode.Proofs.OperandTexts
/-!
# ALU lines

The line of an ALU word that can be decoded tells where the word stands and all that a backend is shown of it. A body is
a list of tokens: no token holds a blank, a lone plus stands between the halves only, and the tokens of a half are its
name, its destination and its operands.
-/
namespace ShaderMicrocode

/-! Lists of tokens. -/

theorem intercalate_injective {sep : Char} {ts ts' : List String} (hts : ∀ t ∈ ts, sep ∉ t.toList)
    (hts' : ∀ t ∈ ts', sep ∉ t.toList) (hne : ts ≠ []) (hne' : ts' ≠ [])
    (h : (String.singleton sep).intercalate ts = (String.singleton sep).intercalate ts') : ts = ts' := by
  have hsplit {ts : List String} (hts : ∀ t ∈ ts, sep ∉ t.toList) (hne : ts ≠ []) :
      ((String.singleton sep).intercalate ts).toList.splitOn sep = ts.map String.toList := by
    rw [String.toList_intercalate, String.toList_singleton]
    refine List.splitOn_intercalate sep (fun l hl => ?_) (by simpa using hne)
    obtain ⟨t, ht, rfl⟩ := List.mem_map.mp hl
    exact hts t ht
  refine List.map_injective_iff.mpr (fun _ _ => String.toList_inj.mp) ?_
  rw [← hsplit hts hne, h, hsplit hts' hne']

/-- The texts as they stand in a list: all but the last one end in a comma. -/
private def listed : List String → List String
  | [] => []
  | [t] => [t]
  | t :: u :: ts => (t ++ ",") :: listed (u :: ts)

private theorem listed_ne_nil (t : String) (ts : List String) : listed (t :: ts) ≠ [] := by
  cases ts <;> simp [listed]

private theorem listed_injective {ts ts' : List String} (h : listed ts = listed ts') : ts = ts' := by
  induction ts generalizing ts' with
  | nil =>
    cases ts' with
    | nil => rfl
    | cons t ts' => exact absurd h.symm (listed_ne_nil t ts')
  | cons t ts ih =>
    cases ts' with
    | nil => exact absurd h (listed_ne_nil t ts)
    | cons t' ts' =>
      cases ts with
      | nil =>
        cases ts' with
        | nil => exact h
        | cons u' ts' => exact absurd (List.cons.inj h).2.symm (listed_ne_nil u' ts')
      | cons u ts =>
        cases ts' with
        | nil => exact absurd (List.cons.inj h).2 (listed_ne_nil u ts)
        | cons u' ts' =>
          obtain ⟨hfirst, hrest⟩ := List.cons.inj h
          rw [(String.append_left_inj ",").mp hfirst, ih hrest]

private theorem mem_listed {s : String} {ts : List String} (h : s ∈ listed ts) : ∃ t ∈ ts, s = t ∨ s = t ++ "," := by
  induction ts with
  | nil => exact absurd h List.not_mem_nil
  | cons t ts ih =>
    cases ts with
    | nil => exact ⟨t, List.mem_cons_self, .inl (List.mem_singleton.mp h)⟩
    | cons u ts =>
      rcases List.mem_cons.mp h with rfl | h
      · exact ⟨t, List.mem_cons_self, .inr rfl⟩
      · obtain ⟨v, hv, hs⟩ := ih h
        exact ⟨v, List.mem_cons_of_mem _ hv, hs⟩

private theorem intercalate_listed (t : String) (ts : List String) :
    " ".intercalate (listed (t :: ts)) = t ++ String.join (ts.map fun u => ", " ++ u) := by
  induction ts generalizing t with
  | nil => simp [listed]
  | cons u ts ih =>
    have hcomma : "," ++ " " = ", " := by decide
    rw [listed, String.intercalate_cons_of_ne_nil (listed_ne_nil u ts), ih, List.map_cons, String.join_cons]
    simp only [String.append_assoc, ← hcomma]

namespace Alu.Instruction

variable {i j : Instruction}

/-- The name of an instruction, with the mark of a clamped result. -/
private def head (i : Instruction) : String := i.name ++ if i.result.isClamped then "_sat" else ""

private def tokens (i : Instruction) : List String :=
  match i.half with
  | .nop => ["nop"]
  | _ => i.head :: listed (i.result.text :: i.operands.map Operand.text)

private theorem tokens_ne_nil (i : Instruction) : i.tokens ≠ [] := by
  unfold tokens
  split <;> simp

private theorem text_eq (i : Instruction) : i.text = " ".intercalate i.tokens := by
  have htokens : " ".intercalate (i.head :: listed (i.result.text :: i.operands.map Operand.text)) =
      i.name ++ (if i.result.isClamped then "_sat" else "") ++ " " ++ i.result.text
        ++ String.join (i.operands.map fun o => ", " ++ o.text) := by
    rw [String.intercalate_cons_of_ne_nil (listed_ne_nil _ _), intercalate_listed, List.map_map, head]
    simp only [String.append_assoc]
    rfl
  unfold text tokens
  cases i.half with
  | nop => exact String.intercalate_singleton.symm
  | vector | scalar => exact htokens.symm

end Alu.Instruction

/-! Pieces. -/

private def isPlus (c : Char) : Bool := c == '+'

/-- A token of an instruction; the plus between two halves is none. -/
structure IsPiece (t : String) : Prop where
  isToken : IsToken t
  not_plus : ¬Over isPlus t

namespace IsPiece

variable {t u : String}

private theorem ne_plus (h : IsPiece t) : t ≠ "+" := by
  rintro rfl
  exact h.not_plus (by decide)

private theorem blank_not_mem (h : IsPiece t) : ' ' ∉ t.toList :=
  fun hmem => absurd (over_iff.mp h.isToken ' ' hmem) (by decide)

private theorem append (h : IsPiece t) (hu : IsToken u) : IsPiece (t ++ u) :=
  ⟨over_append.mpr ⟨h.isToken, hu⟩, fun hplus => h.not_plus (over_append.mp hplus).1⟩

end IsPiece

theorem Operand.isPiece_text (o : Operand) : IsPiece o.text := by
  refine ⟨o.isToken_text, fun h => ?_⟩
  have hletters : ¬Over isPlus o.source.letters := by cases o.source <;> decide
  rw [text_eq] at h
  exact hletters (over_append.mp (over_append.mp (over_append.mp h).2).2).1

theorem Result.isPiece_text (r : Result) : IsPiece r.text := by
  refine ⟨r.isToken_text, fun h => ?_⟩
  have hletters : ¬Over isPlus r.target.letters := by cases r.target <;> decide
  rw [text_eq] at h
  exact hletters (over_append.mp h).1

namespace Alu

private theorem Word.IsHalf.isPiece_name {op : Word} {stage : Stage} {address : UInt32} {i : Instruction}
    (h : op.IsHalf stage address i) : IsPiece i.name where
  isToken := h.name_of_tables (P := IsToken) (by decide) (by decide +kernel)
  not_plus := h.name_of_tables (P := fun name => ¬Over isPlus name) (by decide) (by decide +kernel)

namespace Instruction

variable {i : Instruction}

private theorem isPiece_of_mem_tokens (hname : IsPiece i.name) {t : String} (h : t ∈ i.tokens) : IsPiece t := by
  have hhead : IsPiece i.head := hname.append (by split <;> decide)
  have hplace {u : String} (hu : u ∈ i.result.text :: i.operands.map Operand.text) : IsPiece u := by
    rcases List.mem_cons.mp hu with rfl | hu
    · exact i.result.isPiece_text
    · obtain ⟨o, -, rfl⟩ := List.mem_map.mp hu
      exact o.isPiece_text
  unfold tokens at h
  split at h
  · rw [List.mem_singleton.mp h]
    exact ⟨by decide, by decide⟩
  · rcases List.mem_cons.mp h with rfl | h
    · exact hhead
    · obtain ⟨u, hu, rfl | rfl⟩ := mem_listed h
      · exact hplace hu
      · exact (hplace hu).append (by decide)

/-- The tokens of a body: those of its instructions, with a plus between two of them. -/
private def bodyTokens (is : List Instruction) : List String := ["+"].intercalate (is.map tokens)

private theorem bodyTokens_ne_nil {is : List Instruction} (h : is ≠ []) : bodyTokens is ≠ [] := by
  cases is with
  | nil => exact absurd rfl h
  | cons i is =>
    cases is with
    | nil => simpa [bodyTokens] using i.tokens_ne_nil
    | cons j is => simp [bodyTokens]

private theorem bodyTokens_cons_cons (i j : Instruction) (is : List Instruction) :
    bodyTokens (i :: j :: is) = i.tokens ++ ["+"] ++ bodyTokens (j :: is) := by
  simp [bodyTokens]

private theorem body_eq (is : List Instruction) :
    " + ".intercalate (is.map text) = " ".intercalate (bodyTokens is) := by
  induction is with
  | nil => rfl
  | cons i is ih =>
    cases is with
    | nil => simpa [bodyTokens] using i.text_eq
    | cons j is =>
      have htexts : (j :: is).map text ≠ [] := by simp
      have hrest : bodyTokens (j :: is) ≠ [] := bodyTokens_ne_nil nofun
      have hfirst : i.tokens ++ ["+"] ≠ [] := by simp
      have hone : ["+"] ≠ [] := List.cons_ne_nil _ _
      have hplus : " " ++ "+" ++ " " = " + " := by decide
      rw [List.map_cons, String.intercalate_cons_of_ne_nil htexts, ih, bodyTokens_cons_cons,
        String.intercalate_append_of_ne_nil hfirst hrest, String.intercalate_append_of_ne_nil i.tokens_ne_nil hone,
        String.intercalate_singleton, ← i.text_eq, ← hplus]
      simp only [String.append_assoc]

private theorem mem_bodyTokens {is : List Instruction} {t : String} (h : t ∈ bodyTokens is) :
    t = "+" ∨ ∃ i ∈ is, t ∈ i.tokens := by
  induction is with
  | nil => exact absurd h List.not_mem_nil
  | cons i is ih =>
    cases is with
    | nil => exact .inr ⟨i, List.mem_cons_self, by simpa [bodyTokens] using h⟩
    | cons j is =>
      rw [bodyTokens_cons_cons, List.mem_append, List.mem_append, List.mem_singleton] at h
      rcases h with (h | h) | h
      · exact .inr ⟨i, List.mem_cons_self, h⟩
      · exact .inl h
      · exact (ih h).imp id fun ⟨i', hi', ht⟩ => ⟨i', List.mem_cons_of_mem _ hi', ht⟩

/-- A body tells the tokens of each of its instructions. -/
private theorem tokens_of_body {is js : List Instruction} (his : ∀ i ∈ is, IsPiece i.name)
    (hjs : ∀ j ∈ js, IsPiece j.name)
    (hne : is ≠ []) (hne' : js ≠ []) (h : " + ".intercalate (is.map text) = " + ".intercalate (js.map text)) :
    is.map tokens = js.map tokens := by
  have hblank {is : List Instruction} (his : ∀ i ∈ is, IsPiece i.name) : ∀ t ∈ bodyTokens is, ' ' ∉ t.toList := by
    intro t ht
    rcases mem_bodyTokens ht with rfl | ⟨i, hi, ht⟩
    · decide
    · exact (isPiece_of_mem_tokens (his i hi) ht).blank_not_mem
  have hsplit {is : List Instruction} (his : ∀ i ∈ is, IsPiece i.name) (hne : is ≠ []) :
      (bodyTokens is).splitOn "+" = is.map tokens := by
    refine List.splitOn_intercalate "+" (fun ts hts hplus => ?_) (by simpa using hne)
    obtain ⟨i, hi, rfl⟩ := List.mem_map.mp hts
    exact (isPiece_of_mem_tokens (his i hi) hplus).ne_plus rfl
  have htokens : bodyTokens is = bodyTokens js := by
    refine intercalate_injective (hblank his) (hblank hjs) (bodyTokens_ne_nil hne) (bodyTokens_ne_nil hne') ?_
    rw [body_eq, body_eq] at h
    exact h
  rw [← hsplit his hne, htokens, hsplit hjs hne']

end Instruction

/-! Names. -/

private theorem OpcodeTable.lt_length_of_get? {t : OpcodeTable} {opcode : UInt32} {info : OpcodeInfo}
    (h : t.get? opcode = some info) : opcode.toNat < t.entries.length :=
  (List.getElem?_eq_some_iff.mp (Option.join_eq_some_iff.mp h)).1

theorem Vector.opcode_of_name {n m : UInt32} {info info' : OpcodeInfo} (h : opcodes.get? n = some info)
    (h' : opcodes.get? m = some info') (hname : info.name = info'.name) : n = m := by
  have hall : ∀ i < 32, ∀ j < 32,
      opcodes.entries[i]?.join.map OpcodeInfo.name = opcodes.entries[j]?.join.map OpcodeInfo.name → i = j := by
    decide +kernel
  apply UInt32.toNat_inj.mp
  apply hall _ (OpcodeTable.lt_length_of_get? h) _ (OpcodeTable.lt_length_of_get? h')
  show (opcodes.get? n).map OpcodeInfo.name = (opcodes.get? m).map OpcodeInfo.name
  rw [h, h', Option.map_some, Option.map_some, hname]

/-- A scalar operation on a constant and a register has two opcodes of one name. -/
theorem Scalar.opcode_of_name {n m : UInt32} {info info' : OpcodeInfo} (h : opcodes.get? n = some info)
    (h' : opcodes.get? m = some info') (hname : info.name = info'.name) :
    info = info' ∧ (n = m ∨ info.argumentCount = 2 ∧ n.toNat / 2 = m.toNat / 2) := by
  have hentry : ∀ i < 64, ∀ j < 64,
      opcodes.entries[i]?.join.map OpcodeInfo.name = opcodes.entries[j]?.join.map OpcodeInfo.name →
        opcodes.entries[i]?.join = opcodes.entries[j]?.join := by
    decide +kernel
  have hcode : ∀ i < 64, ∀ j < 64,
      opcodes.entries[i]?.join.map OpcodeInfo.name = opcodes.entries[j]?.join.map OpcodeInfo.name →
        opcodes.entries[i]?.join.map OpcodeInfo.argumentCount = none ∨ i = j ∨
          opcodes.entries[i]?.join.map OpcodeInfo.argumentCount = some 2 ∧ i / 2 = j / 2 := by
    decide +kernel
  have hnames : (opcodes.get? n).map OpcodeInfo.name = (opcodes.get? m).map OpcodeInfo.name := by
    rw [h, h', Option.map_some, Option.map_some, hname]
  have hlt := OpcodeTable.lt_length_of_get? h
  have hlt' := OpcodeTable.lt_length_of_get? h'
  have hinfo : opcodes.get? n = opcodes.get? m := hentry _ hlt _ hlt' hnames
  have hcodes : (opcodes.get? n).map OpcodeInfo.argumentCount = none ∨ n.toNat = m.toNat ∨
      (opcodes.get? n).map OpcodeInfo.argumentCount = some 2 ∧ n.toNat / 2 = m.toNat / 2 := hcode _ hlt _ hlt' hnames
  rw [h, h'] at hinfo
  rw [h] at hcodes
  refine ⟨Option.some.inj hinfo, ?_⟩
  rcases hcodes with hnone | hcodes
  · cases hnone
  · exact hcodes.imp UInt32.toNat_inj.mp (And.imp Option.some.inj id)

theorem vectorName_ne_scalarName {n m : UInt32} {info info' : OpcodeInfo} (h : Vector.opcodes.get? n = some info)
    (h' : Scalar.opcodes.get? m = some info') : info.name ≠ info'.name := by
  have hall : ∀ entry ∈ Vector.opcodes.entries, ∀ info ∈ entry, ∀ entry' ∈ Scalar.opcodes.entries, ∀ info' ∈ entry',
      info.name ≠ info'.name := by decide +kernel
  exact hall _ (OpcodeTable.mem_of_get? h) info rfl _ (OpcodeTable.mem_of_get? h') info' rfl

/-- No name ends in the mark of a clamped result. -/
private theorem Word.IsHalf.not_clamped_name {op : Word} {stage : Stage} {address : UInt32} {i : Instruction}
    (h : op.IsHalf stage address i) : ¬"_sat".toList <:+ i.name.toList :=
  h.name_of_tables (P := fun name => ¬"_sat".toList <:+ name.toList) (by decide) (by decide +kernel)

/-! Instructions. -/

private theorem Word.packedRegister_mod_two (op : Word) : op.packedRegister.toNat % 2 = op.scalarOpcode.toNat % 2 := by
  have hor (x y : Nat) : (x ||| y) % 2 = x % 2 ||| y % 2 := Nat.or_mod_two_pow (n := 1)
  have hmiddle (x : Nat) : x * 4 % 4294967296 % 2 = 0 := by omega
  have hflag (x : Nat) : x * 2 % 4294967296 % 2 = 0 := by omega
  have hlow : (op.scalarOpcode % 2).toNat % 2 = op.scalarOpcode.toNat % 2 := by
    rw [UInt32.toNat_mod]
    exact Nat.mod_mod _ _
  rw [packedRegister, UInt32.toNat_or, UInt32.toNat_or, UInt32.toNat_shiftLeft, UInt32.toNat_shiftLeft, hor, hor, hlow]
  simp only [UInt32.reduceToNat, Nat.reduceMod, Nat.shiftLeft_eq, Nat.reducePow]
  rw [hmiddle, hflag, Nat.zero_or, Nat.zero_or]

namespace Instruction

variable {stage : Stage} {i j : Instruction}

/-- `i` and `j` are the same in all that their texts and predicate columns tell. -/
structure Agrees (i j : Instruction) : Prop where
  half : i.half = j.half
  name : i.name = j.name
  result : i.result = j.result
  operands : i.operands = j.operands
  isPredicated : i.predicate.isPredicated = j.predicate.isPredicated
  condition : i.predicate.isPredicated = true → i.predicate.condition = j.predicate.condition
  vectorOpcode : i.half = .vector → i.vectorOpcode = j.vectorOpcode
  scalarOpcode : i.half = .scalar → i.scalarOpcode = j.scalarOpcode

private theorem IsSound.isAluResult (h : i.IsSound stage) (hhalf : i.half ≠ .nop) : i.result.IsAluResult stage := by
  cases h with
  | nop h => exact absurd h hhalf
  | vector _ hresult => exact hresult
  | scalar _ hresult => exact hresult

private theorem IsSound.isWide (h : i.IsSound stage) : ∀ o ∈ i.operands, o.IsAluOperand ∧ o.IsWide := by
  intro o ho
  cases h with
  | nop _ _ hoperands =>
    rw [hoperands] at ho
    exact absurd ho List.not_mem_nil
  | vector _ _ _ hoperands => exact (hoperands o ho).imp id fun h => .inr (.inr h)
  | scalar _ _ _ hoperands => exact (hoperands o ho).imp id fun h => h.imp id .inl

theorem operands_injective {os os' : List Operand} (hos : ∀ o ∈ os, o.IsAluOperand ∧ o.IsWide)
    (hos' : ∀ o ∈ os', o.IsAluOperand ∧ o.IsWide) (h : os.map Operand.text = os'.map Operand.text) : os = os' := by
  induction os generalizing os' with
  | nil => exact (List.map_eq_nil_iff.mp h.symm).symm
  | cons o os ih =>
    cases os' with
    | nil => cases h
    | cons o' os' =>
      obtain ⟨htext, hrest⟩ := List.cons.inj h
      obtain ⟨ho, hos⟩ := List.forall_mem_cons.mp hos
      obtain ⟨ho', hos'⟩ := List.forall_mem_cons.mp hos'
      rw [Operand.text_injective ho.1 ho'.1 ho.2 ho'.2 htext, ih hos hos' hrest]

private theorem head_injective (hname : ¬"_sat".toList <:+ i.name.toList) (hname' : ¬"_sat".toList <:+ j.name.toList)
    (h : i.head = j.head) : i.name = j.name ∧ i.result.isClamped = j.result.isClamped := by
  have hends (s : String) : "_sat".toList <:+ (s ++ "_sat").toList := by
    rw [String.toList_append]
    exact List.suffix_append _ _
  unfold head at h
  cases hi : i.result.isClamped with
  | false =>
    cases hj : j.result.isClamped with
    | false => exact ⟨by simpa [hi, hj] using h, rfl⟩
    | true =>
      refine absurd ?_ hname
      rw [hi, hj, if_neg Bool.false_ne_true, if_pos rfl, String.append_empty] at h
      rw [h]
      exact hends _
  | true =>
    cases hj : j.result.isClamped with
    | false =>
      refine absurd ?_ hname'
      rw [hi, hj, if_neg Bool.false_ne_true, if_pos rfl, String.append_empty] at h
      rw [← h]
      exact hends _
    | true => exact ⟨by simpa [hi, hj] using h, rfl⟩

private theorem tokens_of_ne_nop (h : i.half ≠ .nop) :
    i.tokens = i.head :: listed (i.result.text :: i.operands.map Operand.text) := by
  unfold tokens
  split
  case h_1 hnop => exact absurd hnop h
  case h_2 => rfl

private theorem parts_of_tokens (hi : i.IsSound stage) (hj : j.IsSound stage) (hhalf : i.half ≠ .nop)
    (hhalf' : j.half ≠ .nop)
    (hname : ¬"_sat".toList <:+ i.name.toList) (hname' : ¬"_sat".toList <:+ j.name.toList) (h : i.tokens = j.tokens) :
    i.name = j.name ∧ i.result = j.result ∧ i.operands = j.operands := by
  rw [tokens_of_ne_nop hhalf, tokens_of_ne_nop hhalf'] at h
  obtain ⟨hhead, hlisted⟩ := List.cons.inj h
  obtain ⟨hresult, hoperands⟩ := List.cons.inj (listed_injective hlisted)
  obtain ⟨hnames, hclamp⟩ := head_injective hname hname' hhead
  exact ⟨hnames, Result.text_injective (hi.isAluResult hhalf) (hj.isAluResult hhalf') hclamp hresult,
    operands_injective hi.isWide hj.isWide hoperands⟩

end Instruction

namespace Word

variable {op op' : Word} {stage : Stage} {address address' : UInt32} {i j : Instruction}

/-- Of two opcodes of one name the text of the packed register tells which one it is. -/
private theorem scalarOpcode_of_operands {info : OpcodeInfo} (hcount : info.argumentCount = 2)
    (hcode : op.scalarOpcode.toNat / 2 = op'.scalarOpcode.toNat / 2)
    (h : op.scalarOperands info = op'.scalarOperands info) : op.scalarOpcode = op'.scalarOpcode := by
  have hoperands (op : Word) : op.scalarOperands info = op.constantAndRegister := by
    rw [scalarOperands, hcount, if_neg (by decide), if_neg (by decide)]
  rw [hoperands, hoperands] at h
  simp only [constantAndRegister, List.cons.injEq, Operand.mk.injEq] at h
  have hregister : op.packedRegister = op'.packedRegister := h.2.1.2.1
  have hbit := op.packedRegister_mod_two
  rw [hregister, op'.packedRegister_mod_two] at hbit
  apply UInt32.toNat_inj.mp
  omega

/-- Two halves of the same tokens agree once the predicates of their words do. -/
theorem IsHalf.agrees (hi : op.IsHalf stage address i) (hj : op'.IsHalf stage address' j) (hop : op.InRange)
    (hop' : op'.InRange) (hpredicated : op.predicate.isPredicated = op'.predicate.isPredicated)
    (hcondition : op.predicate.isPredicated = true → op.predicate.condition = op'.predicate.condition)
    (h : i.tokens = j.tokens) : i.Agrees j := by
  have hparts (hhalf : i.half ≠ .nop) (hhalf' : j.half ≠ .nop) :=
    Instruction.parts_of_tokens (hi.isSound hop) (hj.isSound hop') hhalf hhalf' hi.not_clamped_name hj.not_clamped_name
      h
  have hnop (i : Instruction) (hhalf : i.half ≠ .nop) : ["nop"] ≠ i.tokens := by
    rw [Instruction.tokens_of_ne_nop hhalf]
    exact fun heq => listed_ne_nil _ _ (List.cons.inj heq).2.symm
  cases hi with
  | nop =>
    cases hj with
    | nop => exact ⟨rfl, rfl, rfl, rfl, hpredicated, hcondition, nofun, nofun⟩
    | vector | scalar => exact absurd h (hnop _ nofun)
  | vector info r hinfo hresult =>
    cases hj with
    | nop => exact absurd h.symm (hnop _ nofun)
    | vector info' r' hinfo' hresult' =>
      obtain ⟨hname, hr, hoperands⟩ := hparts nofun nofun
      have hcode : op.vectorOpcode = op'.vectorOpcode := Vector.opcode_of_name hinfo hinfo' hname
      exact ⟨rfl, hname, hr, hoperands, hpredicated, hcondition, fun _ => hcode, nofun⟩
    | scalar info' r' hinfo' hresult' => exact absurd (hparts nofun nofun).1 (vectorName_ne_scalarName hinfo hinfo')
  | scalar info r hinfo hresult =>
    cases hj with
    | nop => exact absurd h.symm (hnop _ nofun)
    | vector info' r' hinfo' hresult' =>
      exact absurd (hparts nofun nofun).1.symm (vectorName_ne_scalarName hinfo' hinfo)
    | scalar info' r' hinfo' hresult' =>
      obtain ⟨hname, hr, hoperands⟩ := hparts nofun nofun
      obtain ⟨rfl, hcodes⟩ := Scalar.opcode_of_name hinfo hinfo' hname
      refine ⟨rfl, hname, hr, hoperands, hpredicated, hcondition, nofun, fun _ => ?_⟩
      rcases hcodes with hcode | ⟨hcount, hcode⟩
      · exact hcode
      · exact scalarOpcode_of_operands hcount hcode hoperands

end Word

end Alu

/-! Lines. -/

theorem Predicate.column_injective {p p' : Predicate} (h : p.column = p'.column) :
    p.isPredicated = p'.isPredicated ∧ (p.isPredicated = true → p.condition = p'.condition) := by
  have hall : ∀ a b a' b', column ⟨a, b⟩ = column ⟨a', b'⟩ → a = a' ∧ (a = true → b = b') := by decide
  exact hall _ _ _ _ h

private theorem Predicate.length_column (p : Predicate) : p.column.toList.length = 6 := by
  have hall : ∀ a b, (column ⟨a, b⟩).toList.length = 6 := by decide
  exact hall p.isPredicated p.condition

private theorem tag_append_injective {n n' : UInt32} {s s' : String} (h : tag n.toNat 0 ++ s = tag n'.toNat 0 ++ s') :
    n = n' ∧ s = s' := by
  have hblanks (k : Nat) : Over (· == ' ') (String.ofList (List.replicate k ' ')) :=
    over_ofList fun c hc => by rw [(List.mem_replicate.mp hc).2]; rfl
  have hnumeral (n : UInt32) (t : String) : StopsAt (· == ' ') (decimal n ++ t) := by
    refine stopsAt_append (stopsAt_decimal (fun c hc => ?_) n) (decimal_ne_empty n)
    rw [beq_eq_false_iff_ne]
    rintro rfl
    exact absurd hc (by decide)
  have hdot (t : String) : StopsAt Char.isDigit ("." ++ t) := stopsAt_append (by decide) (by decide)
  simp only [tag, paddedDecimal, String.append_assoc] at h
  rw [String.append_right_inj] at h
  obtain ⟨-, h⟩ := append_inj_of_stop (hblanks _) (hblanks _) (hnumeral n _) (hnumeral n' _) h
  obtain ⟨hn, h⟩ := append_inj_of_stop (isDigit_decimal n) (isDigit_decimal n') (hdot _) (hdot _) h
  rw [String.append_right_inj, String.append_right_inj, String.append_right_inj] at h
  exact ⟨decimal_injective hn, h⟩

theorem lineOfWord_injective {n n' : UInt32} {p p' : Predicate} {body body' : String}
    (h : lineOfWord n p body = lineOfWord n' p' body') : n = n' ∧ p.column = p'.column ∧ body = body' := by
  obtain ⟨hn, h⟩ := tag_append_injective h
  have hlist := congrArg String.toList h
  rw [String.toList_append, String.toList_append] at hlist
  obtain ⟨hcolumn, hbody⟩ := List.append_inj hlist (p.length_column.trans p'.length_column.symm)
  exact ⟨hn, String.toList_inj.mp hcolumn, String.toList_inj.mp hbody⟩

/-! Words. -/

namespace Act

/-- The ALU instruction that an act shows. -/
def alu? : Act → Option Alu.Instruction
  | present (.alu i) => some i
  | _ => none

private theorem alus_ofHalves (address : UInt32) (p : Predicate) (halves : List (Except DecodeError Alu.Instruction)) :
    (ofHalves address p halves).filterMap alu? = halves.filterMap Except.toOption := by
  rw [ofHalves, wordLine, List.cons_append, List.filterMap_cons_none rfl, List.filterMap_append,
    List.filterMap_filterMap, List.filterMap_filterMap, ← List.nil_append (halves.filterMap Except.toOption)]
  congr 1
  · rw [List.filterMap_eq_nil_iff]
    intro half _
    cases half <;> rfl
  · congr 1
    funext half
    cases half <;> rfl

/-- Without a diagnostic all halves are shown. -/
private theorem halves_of_diagnostics {address : UInt32} {p : Predicate}
    {halves : List (Except DecodeError Alu.Instruction)} (h : (ofHalves address p halves).filterMap diagnostic? = []) :
    halves = ((ofHalves address p halves).filterMap alu?).map .ok := by
  have hno (e : DecodeError) : .error e ∉ halves := by
    intro herror
    have hreport : report (.undecodable e) ∈ ofHalves address p halves := by
      refine List.mem_append_left _ (List.mem_cons_of_mem _ ?_)
      exact List.mem_filterMap.mpr ⟨_, herror, rfl⟩
    have hmem : .undecodable e ∈ (ofHalves address p halves).filterMap diagnostic? :=
      List.mem_filterMap.mpr ⟨_, hreport, rfl⟩
    rw [h] at hmem
    exact absurd hmem List.not_mem_nil
  rw [alus_ofHalves, List.map_filterMap]
  symm
  calc halves.filterMap (fun half => half.toOption.map .ok)
      = halves.filterMap some := by
        refine List.filterMap_congr fun half hhalf => ?_
        cases half with
        | ok i => rfl
        | error e => exact absurd hhalf (hno e)
    _ = halves := List.filterMap_some

private theorem ofVisit_of_alu (stage : Stage) (last : Option Fetch.VertexWord) {v : Visit} (h : v.isFetch = false) :
    let op := Alu.Word.decode v.word
    ofVisit stage last v = ofHalves v.address op.predicate (op.halves stage v.address) := by
  rw [ofVisit, if_neg (by rw [h]; exact Bool.false_ne_true)]

end Act

private theorem forall₂_of_map_eq {α β : Type} {f : α → β} {R : α → α → Prop} {xs ys : List α} (h : xs.map f = ys.map f)
    (hR : ∀ x ∈ xs, ∀ y ∈ ys, f x = f y → R x y) : List.Forall₂ R xs ys := by
  induction xs generalizing ys with
  | nil =>
    rw [List.map_eq_nil_iff.mp h.symm]
    exact .nil
  | cons x xs ih =>
    cases ys with
    | nil => cases h
    | cons y ys =>
      obtain ⟨hfirst, hrest⟩ := List.cons.inj h
      refine .cons (hR x List.mem_cons_self y List.mem_cons_self hfirst) (ih hrest fun x' hx' y' hy' => ?_)
      exact hR x' (List.mem_cons_of_mem _ hx') y' (List.mem_cons_of_mem _ hy')

namespace Visit

variable {stage : Stage} {v v' : Visit} {last last' : Option Fetch.VertexWord}

/-- What a backend is shown of an ALU word that can be decoded, and the line of the word. -/
theorem line_of_alus (hv : v.isFetch = false) (hok : (Act.ofVisit stage last v).filterMap Act.diagnostic? = []) :
    let op := Alu.Word.decode v.word
    let shown := (Act.ofVisit stage last v).filterMap Act.alu?
    shown ≠ [] ∧ (∀ i ∈ shown, op.IsHalf stage v.address i) ∧ (Act.ofVisit stage last v).filterMap Act.line? =
      [lineOfWord v.address op.predicate (" + ".intercalate (shown.map Alu.Instruction.text))] := by
  intro op shown
  have hacts := Act.ofVisit_of_alu stage last hv
  rw [hacts] at hok
  have hhalves := Act.halves_of_diagnostics hok
  rw [← hacts] at hhalves
  have hshown : op.halves stage v.address = shown.map .ok := hhalves
  refine ⟨fun hnil => ?_, fun i hi => ?_, ?_⟩
  · have hlength := (op.length_halves stage v.address).1
    rw [hshown, hnil] at hlength
    exact absurd hlength (by decide)
  · apply Alu.Word.isHalf_of_mem
    rw [hshown]
    exact List.mem_map_of_mem hi
  · rw [hacts, Act.lines_ofHalves, instructionLine_wordOffset]
    show [lineOfWord v.address op.predicate (" + ".intercalate ((op.halves stage v.address).map Act.halfText))] = _
    rw [hshown, List.map_map]
    rfl

/-- Two ALU words that are decoded without an error and have the same line stand at the same address, and what is shown
of them is the same in all but the fields that do not matter to it. -/
theorem alu_line_lossless (hv : v.isFetch = false) (hv' : v'.isFetch = false)
    (hok : (Act.ofVisit stage last v).filterMap Act.diagnostic? = [])
    (hok' : (Act.ofVisit stage last' v').filterMap Act.diagnostic? = [])
    (h : (Act.ofVisit stage last v).filterMap Act.line? = (Act.ofVisit stage last' v').filterMap Act.line?) :
    v.address = v'.address ∧ List.Forall₂ Alu.Instruction.Agrees ((Act.ofVisit stage last v).filterMap Act.alu?)
      ((Act.ofVisit stage last' v').filterMap Act.alu?) := by
  obtain ⟨hne, hhalf, hline⟩ := line_of_alus hv hok
  obtain ⟨hne', hhalf', hline'⟩ := line_of_alus hv' hok'
  rw [hline, hline', List.singleton_inj] at h
  obtain ⟨haddress, hcolumn, hbody⟩ := lineOfWord_injective h
  obtain ⟨hpredicated, hcondition⟩ := Predicate.column_injective hcolumn
  have htokens := Alu.Instruction.tokens_of_body (fun i hi => (hhalf i hi).isPiece_name)
    (fun j hj => (hhalf' j hj).isPiece_name) hne hne' hbody
  refine ⟨haddress, forall₂_of_map_eq htokens fun i hi j hj hij => ?_⟩
  have hop := Alu.Word.inRange_decode v.word
  have hop' := Alu.Word.inRange_decode v'.word
  exact (hhalf i hi).agrees (hhalf' j hj) hop hop' hpredicated hcondition hij

theorem alu_line_lossless_of_unused_field :
    let v : Visit := ⟨1, false, ⟨0xA8F00000, 0, 0⟩⟩
    let v' : Visit := ⟨1, false, ⟨0xA8F00005, 0, 0⟩⟩
    v ≠ v' ∧ List.Forall₂ Alu.Instruction.Agrees ((Act.ofVisit .vertex none v).filterMap Act.alu?)
      ((Act.ofVisit .vertex none v').filterMap Act.alu?) := by
  intro v v'
  have hok : (Act.ofVisit .vertex none v).filterMap Act.diagnostic? = [] := by decide +kernel
  have hok' : (Act.ofVisit .vertex none v').filterMap Act.diagnostic? = [] := by decide +kernel
  have h : (Act.ofVisit .vertex none v).filterMap Act.line? = (Act.ofVisit .vertex none v').filterMap Act.line? := by
    decide +kernel
  exact ⟨by decide, (alu_line_lossless rfl rfl hok hok' h).2⟩

end Visit

end ShaderMicrocode
