import ShaderMicrocode.Proofs.Payloads
import ShaderMicrocode.Proofs.Texts
/-!
# Reading operands

The text of an operand or of a result tells all of it. Each part of a text stops where a character that it cannot hold
begins the next one, so the parts are found one after the other.
-/
namespace ShaderMicrocode

/-! Parts of a text. -/

/-- The text is empty or begins with a character outside `p`. -/
def StopsAt (p : Char → Bool) (s : String) : Prop := s.toList.head?.any p = false

instance (p : Char → Bool) (s : String) : Decidable (StopsAt p s) := inferInstanceAs (Decidable (_ = false))

section Parts

variable {p : Char → Bool} {s s' t t' : String}

theorem stopsAt_append (hs : StopsAt p s) (hne : s ≠ "") : StopsAt p (s ++ t) := by
  have hlist : s.toList ≠ [] := fun hnil => hne (String.toList_eq_nil_iff.mp hnil)
  rw [StopsAt, String.toList_append, List.head?_append_of_ne_nil _ hlist]
  exact hs

private theorem StopsAt.append (hs : StopsAt p s) (ht : StopsAt p t) : StopsAt p (s ++ t) := by
  by_cases hne : s = ""
  · rwa [hne, String.empty_append]
  · exact stopsAt_append hs hne

private theorem takeWhile_append (hs : Over p s) (ht : StopsAt p t) : (s ++ t).toList.takeWhile p = s.toList := by
  have hrest : t.toList.takeWhile p = [] := by
    cases hlist : t.toList with
    | nil => rfl
    | cons c l =>
      have hc : p c = false := by simpa [StopsAt, hlist] using ht
      exact List.takeWhile_cons_of_neg (by simp [hc])
  rw [String.toList_append, List.takeWhile_append_of_pos (over_iff.mp hs), hrest, List.append_nil]

/-- A part over `p` ends where the rest stops at `p`. -/
theorem append_inj_of_stop (hs : Over p s) (hs' : Over p s') (ht : StopsAt p t) (ht' : StopsAt p t')
    (h : s ++ t = s' ++ t') : s = s' ∧ t = t' := by
  have hfirst : s = s' := by
    rw [← String.toList_inj, ← takeWhile_append hs ht, h, takeWhile_append hs' ht']
  subst hfirst
  exact ⟨rfl, (String.append_right_inj s).mp h⟩

/-- A mark that the rest cannot begin with is there or is not. -/
private theorem mark_append_inj {mark : Char} {b b' : Bool} (ht : t.toList.head? ≠ some mark)
    (ht' : t'.toList.head? ≠ some mark)
    (h : (if b then String.singleton mark else "") ++ t = (if b' then String.singleton mark else "") ++ t') :
    b = b' ∧ t = t' := by
  have hmarked (b : Bool) (u : String) :
      ((if b then String.singleton mark else "") ++ u).toList = if b then mark :: u.toList else u.toList := by
    cases b <;> simp
  have hlist := congrArg String.toList h
  rw [hmarked, hmarked] at hlist
  cases b with
  | false =>
    cases b' with
    | false => exact ⟨rfl, String.toList_inj.mp hlist⟩
    | true => exact absurd (congrArg List.head? hlist) ht
  | true =>
    cases b' with
    | false => exact absurd (congrArg List.head? hlist).symm ht'
    | true => exact ⟨rfl, String.toList_inj.mp (List.cons.inj hlist).2⟩

/-- Components stand behind a dot or are left out. -/
private theorem suffix_cases {q q' : Prop} [Decidable q] [Decidable q']
    (h : (if q then "" else "." ++ t) = if q' then "" else "." ++ t') : q ∧ q' ∨ ¬q ∧ ¬q' ∧ t = t' := by
  have hdot (t : String) : "" ≠ "." ++ t := by simp
  by_cases hq : q
  · by_cases hq' : q'
    · exact .inl ⟨hq, hq'⟩
    · rw [if_pos hq, if_neg hq'] at h
      exact absurd h (hdot t')
  · by_cases hq' : q'
    · rw [if_neg hq, if_pos hq'] at h
      exact absurd h.symm (hdot t)
    · rw [if_neg hq, if_neg hq', String.append_right_inj] at h
      exact .inr ⟨hq, hq', h⟩

end Parts

/-! Numerals. -/

theorem decimal_injective {n n' : UInt32} (h : decimal n = decimal n') : n = n' := by
  have hdigits : Nat.toDigits 10 n.toNat = Nat.toDigits 10 n'.toNat := by
    rw [← Nat.toList_repr, ← Nat.toList_repr]
    exact congrArg String.toList h
  have hvalue := congrArg (fun ds => Nat.ofDigitChars 10 ds 0) hdigits
  simp only [Nat.ofDigitChars_toDigits (b := 10) (by decide) (by decide)] at hvalue
  exact UInt32.toNat_inj.mp hvalue

theorem isDigit_decimal (n : UInt32) : Over Char.isDigit (decimal n) := over_repr (fun _ h => h) _

theorem decimal_ne_empty (n : UInt32) : decimal n ≠ "" := by
  intro h
  have hlist : (decimal n).toList = [] := String.toList_eq_nil_iff.mpr h
  rw [decimal, Nat.toList_repr] at hlist
  exact absurd hlist Nat.toDigits_ne_nil

/-- Where a numeral begins, everything without digits ends. -/
theorem stopsAt_decimal {p : Char → Bool} (hp : ∀ c, c.isDigit = true → p c = false) (n : UInt32) :
    StopsAt p (decimal n) := by
  unfold StopsAt
  cases hfirst : (decimal n).toList.head? with
  | none => rfl
  | some c => exact hp c (isDigit_of_mem_repr (List.mem_of_mem_head? hfirst))

/-! Places. -/

namespace Addressing

/-- An index as it stands behind the letters of its register file. -/
def indexText (a : Addressing) (index : UInt32) : String :=
  match a with
  | absolute => decimal index
  | _ => "[" ++ (decimal index ++ (a.suffix ++ "]"))

private theorem indexed_eq (a : Addressing) (name : String) (index : UInt32) :
    a.indexed name index = name ++ a.indexText index := by
  cases a <;> simp only [indexed, indexText, String.append_assoc]

theorem suffix_injective {a a' : Addressing} (h : a.suffix = a'.suffix) : a = a' := by
  cases a <;> cases a' <;> first | rfl | exact absurd h (by decide)

theorem indexText_injective {a a' : Addressing} {index index' : UInt32} (h : a.indexText index = a'.indexText index') :
    a = a' ∧ index = index' := by
  have hbracket (n : UInt32) (t : String) : decimal n ≠ "[" ++ t := by
    intro heq
    have hmem : '[' ∈ (decimal n).toList := by simp [heq]
    exact absurd (isDigit_of_mem_repr hmem) (by decide)
  have hoffset {n n' : UInt32} {b b' : Addressing} (hb : StopsAt Char.isDigit (b.suffix ++ "]"))
      (hb' : StopsAt Char.isDigit (b'.suffix ++ "]"))
      (heq : "[" ++ (decimal n ++ (b.suffix ++ "]")) = "[" ++ (decimal n' ++ (b'.suffix ++ "]"))) :
      b = b' ∧ n = n' := by
    rw [String.append_right_inj] at heq
    obtain ⟨hn, hrest⟩ := append_inj_of_stop (isDigit_decimal n) (isDigit_decimal n') hb hb' heq
    exact ⟨suffix_injective ((String.append_left_inj _).mp hrest), decimal_injective hn⟩
  cases a with
  | absolute =>
    cases a' with
    | absolute => exact ⟨rfl, decimal_injective h⟩
    | addressRegister | loopCounter => exact absurd h (hbracket _ _)
  | addressRegister | loopCounter =>
    cases a' with
    | absolute => exact absurd h.symm (hbracket _ _)
    | addressRegister | loopCounter => exact hoffset (by decide) (by decide) h

/-- Letters end where an index begins. -/
private theorem stopsAt_indexText (a : Addressing) (index : UInt32) : StopsAt Char.isAlpha (a.indexText index) := by
  have hdigit (c : Char) (h : c.isDigit = true) : c.isAlpha = false := by
    change (decide (48 ≤ c.val) && decide (c.val ≤ 57)) = true at h
    change (decide (65 ≤ c.val ∧ c.val ≤ 90) || decide (97 ≤ c.val) && decide (c.val ≤ 122)) = false
    grind
  cases a with
  | absolute => exact stopsAt_decimal hdigit index
  | addressRegister | loopCounter => exact stopsAt_append (by decide) (by decide)

end Addressing

theorem Swizzle.toList_injective {s s' : Swizzle} (h : s.toList = s'.toList) : s = s' := by
  simp only [toList, List.cons.injEq, and_true] at h
  cases s
  cases s'
  simpa only [mk.injEq] using h

theorem Component.letters_injective {cs cs' : List Component}
    (h : String.ofList (cs.map letter) = String.ofList (cs'.map letter)) : cs = cs' := by
  refine List.map_injective_iff.mpr (fun _ _ => letter_injective) ?_
  rw [← String.toList_ofList (l := cs.map letter), h, String.toList_ofList]

theorem Source.letters_injective {s s' : Source} (h : s.letters = s'.letters) : s = s' := by
  cases s <;> cases s' <;> first | rfl | exact absurd h (by decide)

namespace Operand

variable {o o' : Operand}

/-- An operand of an ALU instruction reads one, two or four components. -/
def IsWide (o : Operand) : Prop := o.count = 1 ∨ o.count = 2 ∨ o.count = 4

private theorem IsWide.count_ne_zero (h : o.IsWide) : o.count ≠ 0 := by
  rcases h with h | h | h <;> rw [h] <;> decide

private theorem IsWide.length_take (h : o.IsWide) : (o.swizzle.toList.take o.count.toNat).length = o.count.toNat := by
  have hle : o.count.toNat ≤ 4 := by
    rcases h with h | h | h <;> rw [h] <;> decide
  rw [List.length_take]
  exact Nat.min_eq_left hle

private theorem standard_iff (h : o.IsWide) : o.isStandardSwizzle = true ↔ o.count = 4 ∧ o.swizzle = .identity := by
  simp [isStandardSwizzle, h.count_ne_zero]

theorem swizzleText_injective (hwide : o.IsWide) (hwide' : o'.IsWide) (hreads : o.swizzle.Reads o.count.toNat)
    (hreads' : o'.swizzle.Reads o'.count.toNat) (h : o.swizzleText = o'.swizzleText) :
    o.count = o'.count ∧ o.swizzle = o'.swizzle := by
  rcases suffix_cases h with ⟨hstandard, hstandard'⟩ | ⟨-, -, hletters⟩
  · obtain ⟨hcount, hswizzle⟩ := (standard_iff hwide).mp hstandard
    obtain ⟨hcount', hswizzle'⟩ := (standard_iff hwide').mp hstandard'
    exact ⟨hcount.trans hcount'.symm, hswizzle.trans hswizzle'.symm⟩
  · have htake := Component.letters_injective hletters
    have hcount : o.count.toNat = o'.count.toNat := by
      rw [← hwide.length_take, htake, hwide'.length_take]
    refine ⟨UInt32.toNat_inj.mp hcount, Swizzle.toList_injective ?_⟩
    rw [← List.take_append_drop o.count.toNat o.swizzle.toList, htake, hreads.identity, hcount, ← hreads'.identity,
      List.take_append_drop]

/-- The characters of an index; bars and the dot in front of components end it. -/
private def isIndexChar (c : Char) : Bool := c != '|' && c != '.'

private theorem over_indexText (a : Addressing) (index : UInt32) : Over isIndexChar (a.indexText index) := by
  have hdigits : Over isIndexChar (decimal index) := by
    refine over_decimal (fun c hc => ?_) index
    rw [isIndexChar, Bool.and_eq_true, bne_iff_ne, bne_iff_ne]
    constructor <;> rintro rfl <;> exact absurd hc (by decide)
  cases a with
  | absolute => exact hdigits
  | addressRegister | loopCounter => exact over_append.mpr ⟨by decide, over_append.mpr ⟨hdigits, by decide⟩⟩

private theorem indexText_ne_empty (a : Addressing) (index : UInt32) : a.indexText index ≠ "" := by
  cases a with
  | absolute => exact decimal_ne_empty index
  | addressRegister | loopCounter => simp [Addressing.indexText]

/-- What stands behind the index. -/
def tail (o : Operand) : String := (if o.isAbsolute then "|" else "") ++ o.swizzleText

private theorem stopsAt_tail (o : Operand) : StopsAt isIndexChar o.tail := by
  have hswizzle : StopsAt isIndexChar o.swizzleText := by
    unfold swizzleText
    split
    · decide
    · exact stopsAt_append (by decide) (by decide)
  unfold tail
  split
  · exact stopsAt_append (by decide) (by decide)
  · rwa [String.empty_append]

theorem text_eq (o : Operand) : o.text = (if o.isNegated then String.singleton '-' else "") ++
    ((if o.isAbsolute then String.singleton '|' else "") ++
      (o.source.letters ++ (o.addressing.indexText o.index ++ o.tail))) := by
  have hminus : String.singleton '-' = "-" := by decide
  have hbar : String.singleton '|' = "|" := by decide
  simp only [text, tail, Addressing.indexed_eq, hminus, hbar, String.append_assoc]

private theorem head_letters_ne (s : Source) (t : String) {mark : Char} (h : mark.isAlpha = false) :
    (s.letters ++ t).toList.head? ≠ some mark := by
  intro heq
  have hletters : Over Char.isAlpha s.letters ∧ s.letters.toList ≠ [] := by cases s <;> decide
  rw [String.toList_append, List.head?_append_of_ne_nil _ hletters.2] at heq
  rw [over_iff.mp hletters.1 mark (List.mem_of_mem_head? heq)] at h
  cases h

/-- The text of an operand of an ALU instruction tells all of it. -/
theorem text_injective (ho : o.IsAluOperand) (ho' : o'.IsAluOperand) (hwide : o.IsWide) (hwide' : o'.IsWide)
    (h : o.text = o'.text) : o = o' := by
  have hsign (o : Operand) (t : String) :
      ((if o.isAbsolute then String.singleton '|' else "") ++ (o.source.letters ++ t)).toList.head? ≠ some '-' := by
    cases o.isAbsolute with
    | false => simpa using head_letters_ne o.source t (by decide)
    | true => simp
  have hletters (s : Source) : Over Char.isAlpha s.letters := by cases s <;> decide
  have hindex (o : Operand) : StopsAt Char.isAlpha (o.addressing.indexText o.index ++ o.tail) :=
    stopsAt_append (o.addressing.stopsAt_indexText o.index) (indexText_ne_empty _ _)
  rw [text_eq, text_eq] at h
  obtain ⟨hnegated, h⟩ := mark_append_inj (hsign o _) (hsign o' _) h
  obtain ⟨habsolute, h⟩ :=
    mark_append_inj (head_letters_ne o.source _ (by decide)) (head_letters_ne o'.source _ (by decide)) h
  obtain ⟨hsource, h⟩ := append_inj_of_stop (hletters _) (hletters _) (hindex o) (hindex o') h
  obtain ⟨hplace, h⟩ :=
    append_inj_of_stop (over_indexText _ _) (over_indexText _ _) o.stopsAt_tail o'.stopsAt_tail h
  obtain ⟨haddressing, hnumber⟩ := Addressing.indexText_injective hplace
  rw [tail, tail, habsolute, String.append_right_inj] at h
  obtain ⟨hcount, hswizzle⟩ := swizzleText_injective hwide hwide' ho.reads ho'.reads h
  cases o
  cases o'
  rw [mk.injEq]
  exact ⟨Source.letters_injective hsource, hnumber, haddressing, hnegated, habsolute, hcount, hswizzle⟩

end Operand

/-! Results. -/

/-- What the text of a destination begins with. -/
def Target.letters : Target → String
  | nowhere => "_"
  | register => "r"
  | interpolator => "o"
  | position => "oPos"
  | pointSize => "oPts"
  | colorTarget => "oC"
  | depth => "oDepth"
  | exportAddress => "eA"
  | exportData => "eM"

theorem Target.letters_injective {t t' : Target} (h : t.letters = t'.letters) : t = t' := by
  cases t <;> cases t' <;> first | rfl | exact absurd h (by decide)

private theorem Target.isAlpha_letters {t : Target} (h : t ≠ .nowhere) : Over Char.isAlpha t.letters := by
  cases t <;> first | exact absurd rfl h | decide

namespace Result

variable {stage : Stage} {r r' : Result}

/-- The index of a destination, for those that show one. -/
def placeText (r : Result) : String :=
  match r.target with
  | .register => r.addressing.indexText r.index
  | .interpolator | .colorTarget | .exportData => decimal r.index
  | _ => ""

theorem text_eq (r : Result) : r.text = r.target.letters ++ (r.placeText ++ r.swizzleText) := by
  have htarget : r.targetText = r.target.letters ++ r.placeText := by
    unfold targetText placeText
    cases r.target <;> simp only [Target.letters, Addressing.indexed_eq, String.append_empty]
  rw [text, htarget, String.append_assoc]

private theorem over_placeText (r : Result) : Over Operand.isIndexChar r.placeText := by
  unfold placeText
  split
  · exact Operand.over_indexText _ _
  all_goals first | exact Operand.over_indexText .absolute r.index | decide

private theorem stopsAt_placeText (r : Result) : StopsAt Char.isAlpha r.placeText := by
  unfold placeText
  split
  · exact Addressing.stopsAt_indexText _ _
  all_goals first | exact Addressing.stopsAt_indexText .absolute r.index | decide

private theorem stopsAt_swizzleText {p : Char → Bool} (hp : p '.' = false) (r : Result) : StopsAt p r.swizzleText := by
  have hdot : StopsAt p "." := by simpa [StopsAt] using hp
  unfold swizzleText
  split
  · simp [StopsAt]
  · exact stopsAt_append hdot (by decide)

private theorem IsAluPlace.target_ne (h : r.IsAluPlace stage) : r.target ≠ .nowhere := by
  intro hnowhere
  cases h with
  | register htarget => rw [htarget] at hnowhere; cases hnowhere
  | exported hexport =>
    rw [hnowhere] at hexport
    cases hexport

/-- Destinations that show no index have none. -/
theorem place_injective (h : r.IsAluPlace stage) (h' : r'.IsAluPlace stage) (htarget : r.target = r'.target)
    (hplace : r.placeText = r'.placeText) : r.index = r'.index ∧ r.addressing = r'.addressing := by
  unfold placeText at hplace
  cases h with
  | register hregister =>
    cases h' with
    | register hregister' =>
      rw [hregister, hregister'] at hplace
      exact (Addressing.indexText_injective hplace).symm
    | exported hexport =>
      rw [← htarget, hregister] at hexport
      cases hexport
  | exported hexport haddressing =>
    cases h' with
    | register hregister' =>
      rw [htarget, hregister'] at hexport
      cases hexport
    | exported hexport' haddressing' =>
      refine ⟨?_, haddressing.trans haddressing'.symm⟩
      rw [htarget] at hexport hplace
      generalize r.index = index at *
      generalize r'.index = index' at *
      generalize r'.target = target at *
      cases hexport <;> cases hexport' <;> first | rfl | exact decimal_injective hplace

private theorem standard_iff (h : r.swizzle = .identity) : r.isStandardSwizzle = true ↔ r.mask = .full := by
  simp [isStandardSwizzle, h]

private theorem written_of_letter {b b' : Bool} {c : Char} (hc : c ≠ '_')
    (h : (if b then c else '_') = if b' then c else '_') : b = b' := by
  cases b with
  | false =>
    cases b' with
    | false => rfl
    | true => exact absurd h.symm hc
  | true =>
    cases b' with
    | false => exact absurd h hc
    | true => rfl

private theorem mask_of_swizzleText (hr : r.swizzle = .identity) (hr' : r'.swizzle = .identity)
    (h : r.swizzleText = r'.swizzleText) : r.mask = r'.mask := by
  rcases suffix_cases h with ⟨hfull, hfull'⟩ | ⟨-, -, hletters⟩
  · exact ((standard_iff hr).mp hfull).trans ((standard_iff hr').mp hfull').symm
  · rw [hr, hr'] at hletters
    have hlist := congrArg String.toList hletters
    simp only [String.toList_ofList, WriteMask.toList, Swizzle.toList, Swizzle.identity, List.zipWith_cons_cons,
      List.zipWith_nil_left, List.cons.injEq, and_true] at hlist
    obtain ⟨hx, hy, hz, hw⟩ := hlist
    generalize r.mask = m at *
    generalize r'.mask = m' at *
    cases m
    cases m'
    rw [WriteMask.mk.injEq]
    exact ⟨written_of_letter (by decide) hx, written_of_letter (by decide) hy, written_of_letter (by decide) hz,
      written_of_letter (by decide) hw⟩

/-- The text of the destination of an ALU instruction tells all of it but the clamp, which stands with the name. -/
theorem text_injective (hr : r.IsAluResult stage) (hr' : r'.IsAluResult stage) (hclamp : r.isClamped = r'.isClamped)
    (h : r.text = r'.text) : r = r' := by
  have hletters {r : Result} (hr : r.IsAluResult stage) : Over Char.isAlpha r.target.letters :=
    Target.isAlpha_letters hr.place.target_ne
  have hplaces (r : Result) : StopsAt Char.isAlpha (r.placeText ++ r.swizzleText) :=
    r.stopsAt_placeText.append (r.stopsAt_swizzleText (by decide))
  rw [text_eq, text_eq] at h
  obtain ⟨htarget, h⟩ := append_inj_of_stop (hletters hr) (hletters hr') (hplaces r) (hplaces r') h
  obtain ⟨hplace, hswizzle⟩ := append_inj_of_stop r.over_placeText r'.over_placeText
    (r.stopsAt_swizzleText (by decide)) (r'.stopsAt_swizzleText (by decide)) h
  have htarget := Target.letters_injective htarget
  obtain ⟨hindex, haddressing⟩ := place_injective hr.place hr'.place htarget hplace
  have hmask := mask_of_swizzleText hr.swizzle hr'.swizzle hswizzle
  have hidentity := hr.swizzle.trans hr'.swizzle.symm
  cases r
  cases r'
  rw [mk.injEq]
  exact ⟨htarget, hindex, haddressing, hmask, hidentity, hclamp⟩

end Result

end ShaderMicrocode
