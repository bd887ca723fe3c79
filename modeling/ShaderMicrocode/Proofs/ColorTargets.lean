import ShaderMicrocode.Proofs.Decoded
import ShaderMicrocode.Proofs.Entries
/-!
# Render targets

The render targets that a view names are at any moment those of the ALU instructions shown so far. So none is named
before its instruction is shown, none is taken back, and without an abort they are those of the words that are reached.
-/
namespace ShaderMicrocode

open ControlFlow

/-! Flags. -/

namespace ColorTargets

private theorem contains_none (i : Nat) : none.contains i = false := by
  unfold contains none
  by_cases h : i < 4 <;> simp [h]

private theorem eq_none_of_not_contains {c : ColorTargets} (h : ∀ i < 4, ¬c.contains i = true) : c = none := by
  obtain ⟨flags⟩ := c
  unfold none
  congr 1
  apply Vector.ext
  intro i hi
  have hflag := h i hi
  simp only [contains, Vector.getElem?_eq_getElem hi, Option.getD_some, Bool.not_eq_true] at hflag
  rw [hflag, Vector.getElem_replicate]

end ColorTargets

/-! Visited words. -/

private theorem Program.mem_visits {words : Array UInt32} {p : Program} {v : Visit} :
    v ∈ p.visits words ↔
      ∃ w ∈ p.instructions, ∃ l, w.layout = .exec l ∧ ∃ j < l.count.toNat, l.visit? words j = some v := by
  rw [visits, List.mem_flatMap]
  constructor
  · rintro ⟨w, hw, hv⟩
    cases hl : w.layout with
    | exec l =>
      rw [w.visits_eq_filterMap words hl] at hv
      obtain ⟨j, hj, hvisit⟩ := List.mem_filterMap.mp hv
      exact ⟨w, hw, l, hl, j, List.mem_range.mp hj, hvisit⟩
    | _ => simp [w.visits_of_not_exec words (by simp [hl])] at hv
  · rintro ⟨w, hw, l, hl, j, hj, hvisit⟩
    refine ⟨w, hw, ?_⟩
    rw [w.visits_eq_filterMap words hl]
    exact List.mem_filterMap.mpr ⟨j, List.mem_range.mpr hj, hvisit⟩

/-! Exports. -/

theorem Event.colorTarget?_eq_some_iff {e : Event} {i : Nat} :
    e.colorTarget? = some i ↔ ∃ shown, e = .alu shown ∧ shown.result.target = .colorTarget ∧
      shown.result.index.toNat = i := by
  cases e with
  | alu shown =>
    rw [colorTarget?, ite_eq_iff]
    simp
  | _ => simp [colorTarget?]

namespace Alu

theorem exportTarget?_eq_colorTarget_iff {stage : Stage} {dest index : UInt32} :
    exportTarget? stage dest = some (.colorTarget, index) ↔ stage = .pixel ∧ dest ≤ 3 ∧ dest = index := by
  have hshared : exportTarget?.shared dest ≠ some (.colorTarget, index) := by
    unfold exportTarget?.shared
    split
    · simp
    · split <;> simp
  cases stage with
  | vertex =>
    unfold exportTarget?
    dsimp only
    split
    · simp
    split
    · simp
    split
    · simp
    · simp [hshared]
  | pixel =>
    unfold exportTarget?
    dsimp only
    split
    case isTrue h => simp [h]
    case isFalse h =>
      split
      · simp [h]
      · simp [h, hshared]

/-- The word sends its results to render target `i`. -/
def Word.ExportsColor (op : Word) (i : Nat) : Prop := op.exportData = true ∧ op.vectorDest.toNat = i

namespace Word

variable {op : Word} {stage : Stage} {address : UInt32} {i : Nat}

private theorem exportsColor_of_result {reg mask : UInt32} {isRelative isClamped : Bool} {r : Result}
    (h : op.result stage reg isRelative mask isClamped = .ok r) (htarget : r.target = .colorTarget) :
    stage = .pixel ∧ op.ExportsColor r.index.toNat := by
  rcases ok_result h with ⟨target, index, hexport, hdest, rfl⟩ | ⟨-, rfl⟩
  · obtain rfl : target = .colorTarget := htarget
    obtain ⟨rfl, -, rfl⟩ := exportTarget?_eq_colorTarget_iff.mp hdest
    exact ⟨rfl, hexport, rfl⟩
  · cases htarget

/-- Whatever the masks are and whether or not there is a scalar half, the vector half shows where a word exports to. -/
private theorem exists_half_of_exportsColor (address : UInt32) (hcode : op.vectorOpcode.toNat < 32) (hi : i < 4)
    (h : op.ExportsColor i) :
    ∃ shown, .ok shown ∈ op.halves .pixel address ∧ (Event.alu shown).colorTarget? = some i := by
  obtain ⟨hexport, hdest⟩ := h
  have hle : op.vectorDest ≤ 3 := by
    rw [UInt32.le_iff_toNat_le, hdest]
    exact Nat.le_of_lt_succ hi
  have htarget : exportTarget? .pixel op.vectorDest = some (.colorTarget, op.vectorDest) :=
    exportTarget?_eq_colorTarget_iff.mpr ⟨rfl, hle, rfl⟩
  obtain ⟨info, hinfo⟩ := Option.isSome_iff_exists.mp (isSome_vectorOpcode hcode)
  let r : Result :=
    { Result.storing .colorTarget op.vectorDest .absolute with
      mask := .ofBits op.vectorWriteMask, isClamped := op.vectorClamp }
  have hresult : op.vectorResult .pixel = .ok r := by
    rw [vectorResult, result, if_pos hexport, htarget]
  let shown := op.instruction .vector address info.name r (op.vectorOperands info)
  have hvector : op.vector Vector.opcodes .pixel address = .ok shown :=
    ok_vector_iff.mpr ⟨info, r, hinfo, hresult, rfl⟩
  refine ⟨shown, ?_, Event.colorTarget?_eq_some_iff.mpr ⟨shown, rfl, rfl, hdest⟩⟩
  rw [← hvector]
  have hhas : op.hasVectorOp = true := by simp [hasVectorOp, hexport]
  unfold halves
  rw [hhas]
  cases op.hasScalarOp <;> simp

theorem exportsColor_of_halves {shown : Instruction} (h : .ok shown ∈ op.halves stage address)
    (htarget : shown.result.target = .colorTarget) : stage = .pixel ∧ op.ExportsColor shown.result.index.toNat := by
  cases isHalf_of_mem h with
  | nop => cases htarget
  | vector info r hinfo hresult => exact exportsColor_of_result hresult htarget
  | scalar info r hinfo hresult => exact exportsColor_of_result hresult htarget

end Word

end Alu

/-! Requests. -/

/-- Some ALU instruction shown in `requests` stores to render target `i`. -/
def IsWrittenIn (requests : List Request) (i : Nat) : Prop :=
  ∃ shown view, .call (.event (.alu shown) view) ∈ requests ∧ shown.result.target = .colorTarget ∧
    shown.result.index.toNat = i

private theorem IsWrittenIn.mono {qs qs' : List Request} {i : Nat} (h : IsWrittenIn qs i) (hsub : qs ⊆ qs') :
    IsWrittenIn qs' i := by
  obtain ⟨shown, view, hcall, htarget⟩ := h
  exact ⟨shown, view, hsub hcall, htarget⟩

private theorem IsWrittenIn.extend {before : List Request} {q : Request} {i : Nat} (h : IsWrittenIn (before ++ [q]) i)
    (after : List Request) : IsWrittenIn (before ++ q :: after) i := by
  rw [List.append_cons]
  exact h.mono (List.subset_append_left _ _)

private theorem isWrittenIn_iff {qs : List Request} {i : Nat} :
    IsWrittenIn qs i ↔ ∃ e, .event e ∈ qs.map Request.notice ∧ e.colorTarget? = some i := by
  constructor
  · rintro ⟨shown, view, hcall, htarget⟩
    refine ⟨.alu shown, Request.event_mem_map_notice.mpr ⟨view, hcall⟩, ?_⟩
    exact Event.colorTarget?_eq_some_iff.mpr ⟨shown, rfl, htarget⟩
  · rintro ⟨e, he, hcolor⟩
    obtain ⟨shown, rfl, htarget⟩ := Event.colorTarget?_eq_some_iff.mp hcolor
    obtain ⟨view, hcall⟩ := Request.event_mem_map_notice.mp he
    exact ⟨shown, view, hcall, htarget⟩

private theorem Call.event_eq_notice_iff {c : Call} {e : Event} : .event e = c.notice ↔ e ∈ c.event?.toList := by
  cases c <;> simp [notice, event?]

namespace Shader

variable {σ : Type} {shader : Shader} {b : Backend σ} {settings : TranslatorSettings} {s : σ} {as : List Act}

theorem Entry.contains_iff {before : List Request} {c : Call} {done : List Act} (h : Entry as before c done) {i : Nat}
    (hi : i < 4) : c.view.colorTargets.contains i = true ↔ IsWrittenIn (before ++ [.call c]) i := by
  have hnotices : (before ++ [Request.call c]).map Request.notice =
      .reset :: (done.filterMap Act.notice? ++ [c.notice]) := by
    rw [List.map_append, h.notices]
    rfl
  have hshown (e : Event) : Notice.event e ∈ (before ++ [Request.call c]).map Request.notice ↔
      e ∈ done.filterMap Act.event? ++ c.event?.toList := by
    rw [hnotices, List.mem_cons, List.mem_append, List.mem_append, List.mem_singleton, Act.mem_events,
      Act.event_mem_notices, Call.event_eq_notice_iff]
    simp
  rw [h.colorTargets, ColorTargets.contains_afterEvents, isWrittenIn_iff]
  simp only [ColorTargets.contains_none, Bool.false_eq_true, false_or, hi, true_and, hshown]

theorem colorTargets_translate :
    (shader.translate b settings s).shader.colorTargets = (shader.walked b settings s).session.view.colorTargets := by
  show (shader.closed b settings s).view.colorTargets = _
  rw [closed, Session.view_recordObjections]

private theorem contains_of_requests {before after : List Request} {c : Call}
    (h : shader.requests b settings s = before ++ .call c :: after) {i : Nat} (hi : i < 4) :
    c.view.colorTargets.contains i = true ↔ IsWrittenIn (before ++ [.call c]) i := by
  obtain ⟨as, hperforms⟩ := shader.performs b settings s
  obtain ⟨done, hentry⟩ := hperforms.entry h
  exact hentry.contains_iff hi

theorem contains_translate {i : Nat} (hi : i < 4) :
    (shader.translate b settings s).shader.colorTargets.contains i = true ↔
      IsWrittenIn (shader.requests b settings s) i := by
  have hlast := contains_of_requests (shader.requests_eq b settings s) hi
  rw [← requests_eq] at hlast
  rw [colorTargets_translate]
  exact hlast

theorem isPixel_of_isWrittenIn {i : Nat} (h : IsWrittenIn (shader.requests b settings s) i) :
    shader.stage = .pixel ∧ ∃ v ∈ (Program.read shader.words).visits shader.words, v.isFetch = false ∧
      (Alu.Word.decode v.word).ExportsColor i := by
  obtain ⟨shown, view, hcall, htarget, hindex⟩ := h
  have hnotice : .event (.alu shown) ∈ shader.notices b settings s :=
    Request.event_mem_map_notice.mpr ⟨view, hcall⟩
  cases isShown_of_mem_notices hnotice rfl with
  | alu v _ hv hfetch hhalf =>
    obtain ⟨hstage, hexports⟩ := Alu.Word.exportsColor_of_halves hhalf htarget
    exact ⟨hstage, v, hv, hfetch, hindex ▸ hexports⟩

private theorem isWrittenIn_of_visit (hn : shader.NeverAborts b settings s) (hstage : shader.stage = .pixel) {v : Visit}
    (hv : v ∈ (Program.read shader.words).visits shader.words) (hfetch : v.isFetch = false) {i : Nat} (hi : i < 4)
    (hexports : (Alu.Word.decode v.word).ExportsColor i) : IsWrittenIn (shader.requests b settings s) i := by
  obtain ⟨shown, hhalf, htarget⟩ :=
    Alu.Word.exists_half_of_exportsColor v.address (Alu.Word.inRange_decode v.word).vectorOpcode hi hexports
  obtain ⟨before, after, hvisits⟩ := List.append_of_mem hv
  let last := rememberAll none before
  have htold : .alu shown ∈ (v.told shader.stage last).filterMap Notice.wordEvent? := by
    rw [v.told_of_alu _ _ (Bool.not_eq_true _ ▸ hfetch), hstage]
    refine List.mem_filterMap.mpr ⟨.event (.alu shown), List.mem_append_right _ ?_, rfl⟩
    exact List.mem_filterMap.mpr ⟨_, hhalf, rfl⟩
  have hseen : .alu shown ∈ shader.visitsSeen Notice.wordEvent? := by
    rw [visitsSeen, Schedule.seenOf, hvisits, collect_append]
    exact List.mem_append_right _ (List.mem_append_left _ htold)
  rw [← shader.seen_eq b settings s Notice.seesWordsOnly_wordEvent? hn] at hseen
  obtain ⟨n, hnotice, hevent⟩ := List.mem_filterMap.mp hseen
  obtain ⟨rfl, -⟩ := Notice.wordEvent?_eq_some_iff.mp hevent
  exact isWrittenIn_iff.mpr ⟨.alu shown, hnotice, htarget⟩

private theorem contains_after {before after : List Request} {c c' : Call}
    (h : shader.requests b settings s = before ++ .call c :: after) (hafter : .call c' ∈ after) {i : Nat} (hi : i < 4)
    (hc : c.view.colorTargets.contains i = true) : c'.view.colorTargets.contains i = true := by
  obtain ⟨mid, rest, hsplit⟩ := exists_split_of_mem h hafter
  rw [contains_of_requests h hi] at hc
  rw [contains_of_requests hsplit hi]
  exact (hc.extend mid).mono (List.subset_append_left _ _)

private theorem requests_eq_start_cons (shader : Shader) (b : Backend σ) (settings : TranslatorSettings) (s : σ) :
    ∃ view rest, shader.requests b settings s = .reset :: .call (.event .start view) :: rest ∧
      view.colorTargets = .none := by
  obtain ⟨as, h⟩ := shader.performs b settings s
  exact ⟨_, _, h.requests, rfl⟩

/-- The flags of every view, and those that a translation leaves, are the render targets of the ALU instructions shown
up to then. A vertex shader has none, and a pixel shader whose translation is not aborted has those that the ALU words
of its execs export to. -/
theorem colorTargets_exact (shader : Shader) (b : Backend σ) (settings : TranslatorSettings) (s : σ) :
    let requests := shader.requests b settings s
    let left := (shader.translate b settings s).shader.colorTargets
    (∃ view rest, requests = .reset :: .call (.event .start view) :: rest ∧ view.colorTargets = .none) ∧
      (∀ before c after, requests = before ++ .call c :: after → ∀ i < 4,
        (c.view.colorTargets.contains i = true ↔ IsWrittenIn (before ++ [.call c]) i) ∧
          (c.view.colorTargets.contains i = true →
            left.contains i = true ∧ ∀ c', .call c' ∈ after → c'.view.colorTargets.contains i = true)) ∧
      (∀ i < 4, left.contains i = true ↔ IsWrittenIn requests i) ∧
      (shader.stage = .vertex → left = .none ∧ ∀ c, .call c ∈ requests → c.view.colorTargets = .none) ∧
      (shader.stage = .pixel → shader.NeverAborts b settings s → ∀ i < 4,
        (left.contains i = true ↔ ∃ w ∈ (Program.read shader.words).instructions, ∃ l, w.layout = .exec l ∧
          ∃ j < l.count.toNat, l.isFetch j = false ∧ ∃ t, Triple.at? shader.words (3 * (l.address.toNat + j)) = some t ∧
            (Alu.Word.decode t).ExportsColor i)) := by
  intro requests left
  refine ⟨requests_eq_start_cons shader b settings s, ?_, fun i hi => contains_translate hi, fun hstage => ?_,
    fun hstage hn i hi => ?_⟩
  · intro before c after hsplit i hi
    refine ⟨contains_of_requests hsplit hi, fun hc => ⟨?_, fun c' hafter => contains_after hsplit hafter hi hc⟩⟩
    have hwritten : IsWrittenIn requests i := hsplit ▸ ((contains_of_requests hsplit hi).mp hc).extend after
    exact (contains_translate hi).mpr hwritten
  · have hnone (i : Nat) : ¬IsWrittenIn requests i := fun h => by
      cases hstage.symm.trans (isPixel_of_isWrittenIn h).1
    refine ⟨ColorTargets.eq_none_of_not_contains fun i hi h => hnone i ((contains_translate hi).mp h), fun c hc => ?_⟩
    obtain ⟨before, after, hsplit⟩ := List.append_of_mem hc
    refine ColorTargets.eq_none_of_not_contains fun i hi h => hnone i ?_
    exact hsplit ▸ ((contains_of_requests hsplit hi).mp h).extend after
  · rw [contains_translate hi]
    constructor
    · intro h
      obtain ⟨-, v, hv, hfetch, hexports⟩ := isPixel_of_isWrittenIn h
      obtain ⟨w, hw, l, hl, j, hj, hvisit⟩ := Program.mem_visits.mp hv
      obtain ⟨t, ht, rfl⟩ := Option.map_eq_some_iff.mp hvisit
      exact ⟨w, hw, l, hl, j, hj, hfetch, t, ht, hexports⟩
    · rintro ⟨w, hw, l, hl, j, hj, hfetch, t, ht, hexports⟩
      have hv : ⟨l.address + UInt32.ofNat j, l.isFetch j, t⟩ ∈ (Program.read shader.words).visits shader.words :=
        Program.mem_visits.mpr ⟨w, hw, l, hl, j, hj, Option.map_eq_some_iff.mpr ⟨t, ht, rfl⟩⟩
      exact isWrittenIn_of_visit hn hstage hv hfetch hi hexports

theorem colorTargets_of_half_export :
    let shader := Shader.new .pixel #[0x1001, 0x2000, 0, 0xF0008001, 0, 0xE1000000]
    let requests := shader.requests .silent ⟨.proceed, false⟩ ()
    let left := (shader.translate .silent ⟨.proceed, false⟩ ()).shader.colorTargets
    shader.NeverAborts .silent ⟨.proceed, false⟩ () ∧ left.contains 1 = true ∧ IsWrittenIn requests 1 ∧
      (∃ w ∈ (Program.read shader.words).instructions, ∃ l, w.layout = .exec l ∧
        ∃ j < l.count.toNat, l.isFetch j = false ∧ ∃ t, Triple.at? shader.words (3 * (l.address.toNat + j)) = some t ∧
          (Alu.Word.decode t).ExportsColor 1) ∧
      left.contains 0 = false ∧ ¬IsWrittenIn requests 0 := by
  intro shader requests left
  have hn : shader.NeverAborts .silent ⟨.proceed, false⟩ () := shader.neverAborts_silent false
  have hset : left.contains 1 = true := by decide +kernel
  have hunset : left.contains 0 = false := by decide +kernel
  obtain ⟨-, -, hwritten, -, hpixel⟩ := colorTargets_exact shader .silent ⟨.proceed, false⟩ ()
  refine ⟨hn, hset, (hwritten 1 (by decide)).mp hset, (hpixel rfl hn 1 (by decide)).mp hset, hunset, fun h => ?_⟩
  exact absurd ((hwritten 0 (by decide)).mpr h) (by rw [hunset]; decide)

end Shader

end ShaderMicrocode
