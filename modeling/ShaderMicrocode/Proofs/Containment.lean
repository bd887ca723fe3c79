import ShaderMicrocode.Proofs.Accounting
import ShaderMicrocode.Proofs.Errors
/-!
# Containment

A run looks for an abort only before a control flow instruction and before a word of a block. So the acts that follow
an abort are those that were left of the word or the opening where it happened, and the end of the open block.
-/
namespace ShaderMicrocode

open ControlFlow Fetch

/-! Where a run is aborted. -/

namespace Run

variable {σ : Type} (b : Backend σ)

/-- The run from `r` on is aborted by the act `a`, after the acts `before`. -/
structure AbortsAt (r : Run σ) (before : List Act) (a : Act) : Prop where
  notYet : (r.acts b before).isAborted = false
  now : (r.acts b (before ++ [a])).isAborted = true

theorem exists_abortsAt {r : Run σ} {as : List Act} (h : r.isAborted = false)
    (has : (r.acts b as).isAborted = true) : ∃ before a after, as = before ++ a :: after ∧ r.AbortsAt b before a := by
  induction as generalizing r with
  | nil => exact absurd (h.symm.trans has) nofun
  | cons x as ih =>
    by_cases hx : (r.act b x).isAborted = true
    · exact ⟨[], x, as, rfl, h, hx⟩
    · obtain ⟨before, a, after, rfl, hat⟩ := ih (Bool.not_eq_true _ ▸ hx) has
      exact ⟨x :: before, a, after, rfl, hat.notYet, hat.now⟩

namespace AbortsAt

variable {b} {r : Run σ} {before : List Act} {a : Act}

private theorem from_append {front : List Act} (h : r.AbortsAt b (front ++ before) a) :
    (r.acts b front).AbortsAt b before a := by
  refine ⟨?_, ?_⟩
  · rw [← acts_append]
    exact h.notYet
  · rw [← acts_append, ← List.append_assoc]
    exact h.now

private theorem isAborted (h : r.AbortsAt b before a) (after : List Act) :
    (r.acts b (before ++ a :: after)).isAborted = true := by
  rw [← List.singleton_append, ← List.append_assoc, acts_append]
  exact isAborted_acts b after h.now

/-- An act that tells the backend nothing aborts nothing. -/
theorem tells (h : r.AbortsAt b before a) : a.notice? ≠ none := by
  intro hnone
  have hsame : ((r.acts b before).act b a).isAborted = (r.acts b before).isAborted := by
    cases a with
    | announce k op => rfl
    | print line => simp [act, Run.isAborted, Session.view_print]
    | report d => cases hnone
    | present e => cases hnone
  have hnow := h.now
  rw [acts_append, acts_cons, acts_nil, hsame, h.notYet] at hnow
  cases hnow

end AbortsAt

private theorem AbortsAt.traced {b : Backend σ} {r : Run (Traced σ)} {before : List Act} {a : Act}
    (h : r.untraced.AbortsAt b before a) : r.AbortsAt b.traced before a := by
  refine ⟨?_, ?_⟩
  · rw [← untraced_isAborted, untraced_acts]
    exact h.notYet
  · rw [← untraced_isAborted, untraced_acts]
    exact h.now

/-- Whatever is asked of the backend of an aborted run, it sees the abort. -/
private theorem calls_of_isAborted {r : Run (Traced σ)} (h : r.isAborted = true) (as : List Act) :
    ∃ later, (r.acts b.traced as).state.requests = r.state.requests ++ later ∧
      later.map Request.notice = as.filterMap Act.notice? ∧
      ∀ c, .call c ∈ later → c.view.isAborted = true := by
  induction as generalizing r with
  | nil => exact ⟨[], (List.append_nil _).symm, rfl, fun c hc => absurd hc List.not_mem_nil⟩
  | cons a as ih =>
    obtain ⟨later, hrequests, hnotices, hviews⟩ := ih (isAborted_act b.traced a h)
    have hview {c : Call} (hc : r.request? a = some (.call c)) : c.view.isAborted = true := by
      unfold isAborted at h
      cases a with
      | announce k op => cases hc
      | print line => cases hc
      | report d =>
        cases hc
        simp [Call.view, Session.view_record, h]
      | present e =>
        cases hc
        simp [Call.view, Session.view_markColorTarget, h]
    refine ⟨(r.request? a).toList ++ later, ?_, ?_, fun c hc => ?_⟩
    · rw [acts_cons, hrequests, requests_act, List.append_assoc]
    · rw [List.map_append, hnotices, List.filterMap_cons, ← notice_request? r]
      cases r.request? a <;> rfl
    · rcases List.mem_append.mp hc with hc | hc
      · exact hview (Option.mem_toList.mp hc)
      · exact hviews c hc

end Run

/-! What is left of a step. -/

section Split

variable {α : Type} {before after : List α} {a : α}

theorem append_eq_append_cons {xs ys : List α} (h : xs ++ ys = before ++ a :: after) :
    (∃ rest, xs = before ++ a :: rest ∧ after = rest ++ ys) ∨
      ∃ done, before = xs ++ done ∧ ys = done ++ a :: after := by
  rcases List.append_eq_append_iff.mp h with ⟨done, hbefore, hys⟩ | ⟨rest, hxs, hrest⟩
  · exact .inr ⟨done, hbefore, hys⟩
  · rcases List.cons_eq_append_iff.mp hrest with ⟨rfl, hys⟩ | ⟨rest, rfl, hafter⟩
    · exact .inr ⟨[], by rw [hxs, List.append_nil, List.append_nil], hys⟩
    · exact .inl ⟨rest, hxs, hafter⟩

private theorem flatten_eq_append_cons {ls : List (List α)} (h : ls.flatten = before ++ a :: after) :
    ∃ front done rest back, ls = front ++ (done ++ a :: rest) :: back ∧ before = front.flatten ++ done ∧
      after = rest ++ back.flatten := by
  induction ls generalizing before with
  | nil => simp at h
  | cons l ls ih =>
    rw [List.flatten_cons] at h
    rcases append_eq_append_cons h with ⟨rest, rfl, rfl⟩ | ⟨done, rfl, hrest⟩
    · exact ⟨[], before, rest, ls, rfl, rfl, rfl⟩
    · obtain ⟨front, done, rest, back, rfl, rfl, rfl⟩ := ih hrest
      exact ⟨l :: front, done, rest, back, rfl, by rw [List.flatten_cons, List.append_assoc], rfl⟩

end Split

/-- The acts `left` remain of the step `s` once a run is aborted by the act `a`, after the acts `done` of the step. -/
inductive Step.Leaves (s : Step) : List Act → Act → List Act → Prop
  | opening {done : List Act} {a : Act} {rest : List Act} (h : s.opening = done ++ a :: rest) :
      Leaves s done a (rest ++ s.closing)
  | word (m : Nat) {word done : List Act} {a : Act} {rest : List Act} (hm : s.block[m]? = some word)
      (h : word = done ++ a :: rest) : Leaves s (s.opening ++ (s.block.take m).flatten ++ done) a (rest ++ s.closing)
  | closing (n : Nat) {done : List Act} {a : Act} {rest : List Act} (h : s.closing = done ++ a :: rest) :
      Leaves s (s.opening ++ (s.block.take n).flatten ++ done) a rest

namespace Run

variable {σ : Type} {b : Backend σ} {r : Run σ} {before after : List Act} {a : Act}

theorem Walks.leaves {s : Step} {n : Nat} (h : r.Walks b s n) (hat : r.AbortsAt b before a)
    (hacts : s.actsUpTo n = before ++ a :: after) : s.Leaves before a after := by
  -- no word is begun once the run is aborted
  have hlast {m : Nat} (ha : (r.acts b (s.opening ++ (s.block.take m).flatten)).isAborted = true) : n ≤ m :=
    Nat.le_of_not_lt fun hm => absurd ((h.word m hm).symm.trans ha) nofun
  unfold Step.actsUpTo at hacts
  rcases append_eq_append_cons hacts with ⟨rest, hwords, rfl⟩ | ⟨done, rfl, hclosing⟩
  · rcases append_eq_append_cons hwords with ⟨rest, hopening, rfl⟩ | ⟨done, rfl, hblock⟩
    · have hzero : n = 0 := by
        refine Nat.le_zero.mp (hlast ?_)
        rw [List.take_zero, List.flatten_nil, List.append_nil, hopening]
        exact hat.isAborted rest
      rw [hzero, List.take_zero, List.flatten_nil, List.append_nil]
      exact .opening hopening
    · obtain ⟨front, done, rest, back, htake, rfl, rfl⟩ := flatten_eq_append_cons hblock
      have hsplit : s.block = front ++ (done ++ a :: rest) :: (back ++ s.block.drop n) := by
        rw [← List.cons_append, ← List.append_assoc, ← htake, List.take_append_drop]
      have hfront : s.block.take front.length = front := by
        rw [hsplit, List.take_left]
      have hword : s.block[front.length]? = some (done ++ a :: rest) := by
        rw [hsplit, List.getElem?_append_right (Nat.le_refl _), Nat.sub_self]
        rfl
      have hn : n ≤ front.length + 1 := by
        refine hlast ?_
        rw [List.take_add_one, hfront, hword, Option.toList_some, List.flatten_append, List.flatten_singleton,
          ← List.append_assoc, ← List.append_assoc, List.append_assoc s.opening]
        exact hat.isAborted rest
      have hback : back = [] := by
        have hlength := congrArg List.length htake
        rw [List.length_take, List.length_append, List.length_cons] at hlength
        exact List.length_eq_zero_iff.mp (by omega)
      have hleaves := Step.Leaves.word (s := s) front.length hword rfl
      rw [hfront, List.append_assoc] at hleaves
      rw [hback, List.flatten_nil, List.append_nil]
      exact hleaves
  · exact .closing n hclosing

/-- The step in which a run is aborted, and what remains of it. Nothing remains of the steps behind it. -/
theorem Takes.leaves {ss : List Step} {as : List Act} (h : Takes b r ss as) (hat : r.AbortsAt b before a)
    (has : as = before ++ a :: after) :
    ∃ k s done, ss[k]? = some s ∧ before = (ss.take k).flatMap Step.acts ++ done ∧ s.Leaves done a after := by
  -- an abort within the first step leaves nothing of the others; any other one is an abort of the run behind that step
  induction h generalizing before with
  | finished r => simp at has
  | stopped ss h => simp at has
  | @step r s ss as n h hrest ih =>
    rcases append_eq_append_cons has with ⟨rest, hacts, rfl⟩ | ⟨before, rfl, hlater⟩
    · have ha : (r.acts b (s.actsUpTo n)).isAborted = true := by
        rw [hacts]
        exact hat.isAborted rest
      rw [hrest.eq_nil_of_isAborted ha, List.append_nil]
      exact ⟨0, s, before, rfl, rfl, h.leaves hat hacts⟩
    · have hgoes : ¬(r.acts b (s.actsUpTo n)).isAborted = true := fun ha => by
        have hbefore := isAborted_acts b before ha
        rw [← acts_append, hat.notYet] at hbefore
        cases hbefore
      have hwhole : s.actsUpTo n = s.acts := Step.actsUpTo_of_length_le (Nat.le_of_eq (h.rest.resolve_left hgoes).symm)
      obtain ⟨k, s', done, hk, rfl, hleaves⟩ := ih hat.from_append hlater
      refine ⟨k + 1, s', done, hk, ?_, hleaves⟩
      rw [hwhole, List.take_succ_cons, List.flatMap_cons, List.append_assoc]

end Run

/-! What is left of an instruction. -/

namespace Schedule

section Walk

variable (stage : Stage) (words : Array UInt32) (labels : List UInt32) (last : Option VertexWord)

theorem walk_getElem? (k : Nat) (ws : List Word) (j : Nat) :
    (walk stage words labels last k ws)[j]? = ws[j]?.map fun w =>
      step stage words labels (rememberAll last ((ws.take j).flatMap (Word.visits words))) (UInt32.ofNat (k + j))
        w := by
  induction ws generalizing last k j with
  | nil => rfl
  | cons w ws ih =>
    cases j with
    | zero => rfl
    | succ j =>
      have hlast : rememberAll last (((w :: ws).take (j + 1)).flatMap (Word.visits words)) =
          rememberAll (rememberBlock words w last) ((ws.take j).flatMap (Word.visits words)) := by
        rw [List.take_succ_cons, List.flatMap_cons, rememberAll, List.foldl_append]
        rfl
      rw [walk, List.getElem?_cons_succ, List.getElem?_cons_succ, ih, hlast, Nat.add_right_comm]
      rfl

private theorem ofVisits_getElem? (vs : List Visit) (m : Nat) :
    (ofVisits stage last vs)[m]? = vs[m]?.map (Act.ofVisit stage (rememberAll last (vs.take m))) := by
  induction vs generalizing last m with
  | nil => rfl
  | cons v vs ih =>
    cases m with
    | zero => rfl
    | succ m =>
      rw [ofVisits, List.getElem?_cons_succ, List.getElem?_cons_succ, ih]
      rfl

end Walk

/-- An act of the halves of an ALU word behind its line: the report of one that cannot be decoded, or the show of one
that can. -/
def IsOfHalf (halves : List (Except DecodeError Alu.Instruction)) (a : Act) : Prop :=
  (∃ e, .error e ∈ halves ∧ a = .report (.undecodable e)) ∨ ∃ i, .ok i ∈ halves ∧ a = .present (.alu i)

section Abort

variable (stage : Stage) (words : Array UInt32) (p : Program) (last : Option VertexWord) (index : UInt32) (w : Word)

/-- The acts of the control flow word `w` before word `m` of its block. -/
def actsBefore (m : Nat) : List Act :=
  (step stage words p.labels last index w).opening ++ ((wordActs stage words last w).take m).flatten

/-- The acts of `v`, word `m` of the block of `w`. -/
def actsOfWord (m : Nat) (v : Visit) : List Act := Act.ofVisit stage (rememberAll last ((w.visits words).take m)) v

/-- Of the control flow word `w` of index `index`, whose block comes after the full vertex fetch `last`, the acts `left`
remain once its act `a` has aborted the run; the acts `done` went before it. -/
inductive Remains : (done : List Act) → (a : Act) → (left : List Act) → Prop
  | label (h : p.IsTarget stage index) :
      Remains [.print (labelLine index)] (.present (.label index))
        (.announce index w.opcode :: .print (ownLine stage index w) :: ownAct stage index w :: endActs stage index w)
  | own :
      Remains (labelActs p.labels index ++ [.announce index w.opcode, .print (ownLine stage index w)])
        (ownAct stage index w) (endActs stage index w)
  | fetch (m : Nat) (v : Visit) (line : String) (a : Act) (hv : (w.visits words)[m]? = some v)
      (hfetch : v.isFetch = true) (h : actsOfWord stage words last w m v = [.print line, a]) :
      Remains (actsBefore stage words p last index w m ++ [.print line]) a (endActs stage index w)
  | alu (m : Nat) (v : Visit) (line : String) (shown : List Act) (a : Act) (rest : List Act)
      (hv : (w.visits words)[m]? = some v) (halu : v.isFetch = false)
      (h : actsOfWord stage words last w m v = .print line :: shown ++ a :: rest)
      (hrest : ∀ x ∈ rest, IsOfHalf ((Alu.Word.decode v.word).halves stage v.address) x) :
      Remains (actsBefore stage words p last index w m ++ (.print line :: shown)) a (rest ++ endActs stage index w)
  | outside (m : Nat) (l : ExecLayout) (e : DecodeError) (hl : w.layout = .exec l)
      (he : outside? words l 0 l.count.toNat = some e) :
      Remains (actsBefore stage words p last index w m) (.report (.undecodable e)) (endActs stage index w)
  | closing (m : Nat) (e : Exec) (h : w.resolve index stage = .ok (.exec e)) :
      Remains (actsBefore stage words p last index w m) (.present (.execEnd e)) []

end Abort

/-- A word of a block is a visited word, or the first one outside the microcode. -/
private theorem wordActs_cases {stage : Stage} {words : Array UInt32} {last : Option VertexWord} {w : Word} {m : Nat}
    {word : List Act} (h : (wordActs stage words last w)[m]? = some word) :
    (∃ v, (w.visits words)[m]? = some v ∧
        word = actsOfWord stage words last w m v) ∨
      ∃ l e, w.layout = .exec l ∧ outside? words l 0 l.count.toNat = some e ∧ word = [.report (.undecodable e)] := by
  unfold wordActs at h
  unfold actsOfWord
  cases hl : w.layout with
  | exec l =>
    simp only [hl, ofBlock] at h
    rw [w.visits_of_exec words hl]
    by_cases hm : m < (ofVisits stage last (Block.read words l).visits).length
    · rw [List.getElem?_append_left hm, ofVisits_getElem?] at h
      obtain ⟨v, hv, rfl⟩ := Option.map_eq_some_iff.mp h
      exact .inl ⟨v, hv, rfl⟩
    · rw [List.getElem?_append_right (Nat.le_of_not_lt hm), Block.fault?_read words hl] at h
      have hmem := List.mem_of_getElem? h
      obtain ⟨e, he, rfl⟩ := Option.map_eq_some_iff.mp (Option.mem_toList.mp hmem)
      exact .inr ⟨l, e, rfl, he, rfl⟩
  | _ => simp [hl] at h

section Remains

variable {x a : Act} {xs done rest : List Act}

private theorem of_silent_cons (h : x :: xs = done ++ a :: rest) (hx : x.notice? = none) (ha : a.notice? ≠ none) :
    ∃ done', done = x :: done' ∧ xs = done' ++ a :: rest := by
  cases done with
  | nil =>
    cases h
    exact absurd hx ha
  | cons y done =>
    cases h
    exact ⟨done, rfl, rfl⟩

private theorem of_singleton (h : [x] = done ++ a :: rest) : done = [] ∧ a = x ∧ rest = [] := by
  cases done with
  | nil =>
    cases h
    exact ⟨rfl, rfl, rfl⟩
  | cons y done => simp at h

private theorem ofVisit_of_isFetch (stage : Stage) (last : Option VertexWord) {v : Visit} (h : v.isFetch = true) :
    ∃ line x, Act.ofVisit stage last v = [.print line, x] := by
  have hfetch {α : Type} (p : Predicate) (decoded : Except DecodeError α) (text : α → String) (event : α → Event) :
      ∃ line x, Act.ofFetch v.address p decoded text event = [.print line, x] := by
    cases decoded with
    | ok f => exact ⟨_, _, rfl⟩
    | error e => exact ⟨_, _, rfl⟩
  unfold Act.ofVisit
  rw [if_pos h]
  split
  · exact hfetch _ _ _ _
  · exact hfetch _ _ _ _

private theorem ofVisit_of_not_isFetch (stage : Stage) (last : Option VertexWord) {v : Visit} (h : v.isFetch = false) :
    ∃ line shown, Act.ofVisit stage last v = .print line :: shown ∧
      ∀ x ∈ shown, IsOfHalf ((Alu.Word.decode v.word).halves stage v.address) x := by
  unfold Act.ofVisit
  rw [if_neg (by rw [h]; exact Bool.false_ne_true)]
  refine ⟨_, _, rfl, fun x hx => ?_⟩
  rcases List.mem_append.mp hx with hx | hx
  · obtain ⟨half, hhalf, heq⟩ := List.mem_filterMap.mp hx
    cases half with
    | ok i => cases heq
    | error e =>
      cases heq
      exact .inl ⟨e, hhalf, rfl⟩
  · obtain ⟨half, hhalf, heq⟩ := List.mem_filterMap.mp hx
    cases half with
    | ok i =>
      cases heq
      exact .inr ⟨i, hhalf, rfl⟩
    | error e => cases heq

private theorem remains_of_opening {stage : Stage} {words : Array UInt32} {p : Program} {last : Option VertexWord}
    {index : UInt32} {w : Word} (ha : a.notice? ≠ none)
    (h : labelActs p.labels index ++ [.announce index w.opcode, .print (ownLine stage index w), ownAct stage index w] =
      done ++ a :: rest) :
    Remains stage words p last index w done a (rest ++ endActs stage index w) := by
  rcases append_eq_append_cons h with ⟨rest, hlabel, rfl⟩ | ⟨done, rfl, hown⟩
  · unfold labelActs at hlabel
    split at hlabel
    case isTrue htarget =>
      obtain ⟨done, rfl, hpresent⟩ := of_silent_cons hlabel rfl ha
      obtain ⟨rfl, rfl, rfl⟩ := of_singleton hpresent
      exact .label ((p.mem_labels_iff_isTarget stage index).mp htarget)
    case isFalse => simp at hlabel
  · obtain ⟨done, rfl, hprint⟩ := of_silent_cons hown rfl ha
    obtain ⟨done, rfl, hlast⟩ := of_silent_cons hprint rfl ha
    obtain ⟨rfl, rfl, rfl⟩ := of_singleton hlast
    exact .own

/-- What remains of a step is what remains of its instruction. -/
theorem remains_of_leaves {stage : Stage} {words : Array UInt32} {p : Program} {last : Option VertexWord}
    {index : UInt32} {w : Word} {left : List Act} (ha : a.notice? ≠ none)
    (h : (step stage words p.labels last index w).Leaves done a left) :
    Remains stage words p last index w done a left := by
  have hstep := step_eq stage words p.labels last index w
  have hblock : (step stage words p.labels last index w).block = wordActs stage words last w := by rw [hstep]
  have hclosing : (step stage words p.labels last index w).closing = endActs stage index w := by rw [hstep]
  cases h with
  | opening h =>
    rw [hstep] at h
    rw [hclosing]
    exact remains_of_opening ha h
  | word m hm h =>
    rw [hblock] at hm ⊢
    rw [hclosing]
    rcases wordActs_cases hm with ⟨v, hv, rfl⟩ | ⟨l, e, hl, he, rfl⟩
    · cases hfetch : v.isFetch with
      | true =>
        obtain ⟨line, x, hacts⟩ := ofVisit_of_isFetch stage (rememberAll last ((w.visits words).take m)) hfetch
        rw [actsOfWord, hacts] at h
        obtain ⟨done, rfl, hlast⟩ := of_silent_cons h rfl ha
        obtain ⟨rfl, rfl, rfl⟩ := of_singleton hlast
        exact .fetch m v line a hv hfetch hacts
      | false =>
        obtain ⟨line, shown, hacts, hshown⟩ :=
          ofVisit_of_not_isFetch stage (rememberAll last ((w.visits words).take m)) hfetch
        rw [actsOfWord, hacts] at h
        obtain ⟨done, rfl, rfl⟩ := of_silent_cons h rfl ha
        exact .alu m v line done a _ hv hfetch hacts fun x hx =>
          hshown x (List.mem_append_right _ (List.mem_cons_of_mem _ hx))
    · obtain ⟨rfl, rfl, rfl⟩ := of_singleton h
      rw [List.append_nil]
      exact .outside m l e hl he
  | closing n h =>
    rw [hclosing] at h
    rw [hblock]
    unfold endActs at h
    split at h
    case h_1 e he =>
      obtain ⟨rfl, rfl, rfl⟩ := of_singleton h
      rw [List.append_nil]
      exact .closing n e he
    case h_2 => simp at h

end Remains

end Schedule

/-! The translation. -/

namespace Shader

variable {σ : Type}

/-- The act `a` aborts the translation, which performed the acts `before` until then and performs `after` from then
on. The backend sees the abort in every call that follows. -/
structure AbortsAt (shader : Shader) (b : Backend σ) (settings : TranslatorSettings) (s : σ) (before : List Act)
    (a : Act) (after : List Act) : Prop where
  run : (shader.opened b settings s).AbortsAt b before a
  calls : ∃ earlier current later, shader.requests b settings s = earlier ++ current ++ later ∧
    (∀ c, .call c ∈ earlier → c.view.isAborted = false) ∧
    current.map Request.notice = a.notice?.toList ∧
    later.map Request.notice = after.filterMap Act.notice? ++ [.complete] ∧
    ∀ c, .call c ∈ later → c.view.isAborted = true
  disassembly : (shader.translate b settings s).shader.disassembly =
    (Listing.ofLines ((before ++ a :: after).filterMap Act.line?)).text
  errors : (shader.translate b settings s).shader.errors.filter Diagnostic.isFound =
    (before ++ a :: after).filterMap Act.diagnostic?

variable {shader : Shader} {b : Backend σ} {settings : TranslatorSettings} {s : σ}
variable {as before after : List Act} {a : Act}

private theorem Performs.calls (h : shader.Performs b settings s as)
    (hat : (shader.opened b settings s).AbortsAt b before a) (has : shader.plan.opening ++ as = before ++ a :: after) :
    ∃ earlier current later, shader.requests b settings s = earlier ++ current ++ later ∧
      (∀ c, .call c ∈ earlier → c.view.isAborted = false) ∧
      current.map Request.notice = a.notice?.toList ∧
      later.map Request.notice = after.filterMap Act.notice? ++ [.complete] ∧
      ∀ c, .call c ∈ later → c.view.isAborted = true := by
  let r := shader.opened b.traced settings (.new s)
  have hat' : r.AbortsAt b.traced before a := Run.AbortsAt.traced hat
  have hnow := hat'.now
  rw [Run.acts_append, Run.acts_cons, Run.acts_nil] at hnow
  obtain ⟨later, hrequests, hnotices, hviews⟩ := Run.calls_of_isAborted b hnow after
  have hwalked : (shader.walked b settings s).isAborted = true := by
    rw [Run.isAborted, h.view, has]
    exact hat.isAborted after
  refine ⟨(r.acts b.traced before).state.requests, ((r.acts b.traced before).request? a).toList,
    later ++ [.call (.complete (shader.walked b settings s).session.view)], ?_, fun c hc => ?_, ?_, ?_, fun c hc => ?_⟩
  · have hstate : (shader.walked b.traced settings (.new s)).state =
        (((r.acts b.traced before).act b.traced a).acts b.traced after).state := by
      rw [h.trace, has, Run.acts_append, Run.acts_cons]
    rw [requests_eq, hstate, hrequests, Run.requests_act, List.append_assoc]
  · have hseen := (Run.seen_acts b before (shader.seen_opened b settings s)).2 c hc
    rw [← Bool.not_eq_true]
    exact fun ha => Bool.false_ne_true (hat'.notYet.symm.trans (hseen.2 ha))
  · rw [← Run.notice_request? (r.acts b.traced before)]
    cases (r.acts b.traced before).request? a <;> rfl
  · rw [List.map_append, hnotices]
    rfl
  · rcases List.mem_append.mp hc with hc | hc
    · exact hviews c hc
    · cases List.mem_singleton.mp hc
      exact hwalked

theorem Performs.abortsAt (h : shader.Performs b settings s as)
    (hat : (shader.opened b settings s).AbortsAt b before a)
    (has : shader.plan.opening ++ as = before ++ a :: after) : shader.AbortsAt b settings s before a after where
  run := hat
  calls := h.calls hat has
  disassembly := by
    rw [← has, List.filterMap_append, Schedule.lines_opening]
    exact h.disassembly
  errors := by
    rw [h.filter_errors fun _ => rfl, ← has, List.filterMap_append, Schedule.diagnostics_opening, List.filter_eq_self]
    exact fun d hd => shader.isFound_of_cut h.cut hd

private theorem pending_of_opening (h : shader.plan.opening = before ++ a :: after) :
    ∃ pending : List Diagnostic, after = pending.map .report := by
  unfold Schedule.opening at h
  cases before with
  | nil =>
    cases h
    exact ⟨_, rfl⟩
  | cons x before =>
    obtain ⟨hx, hreports⟩ := List.cons.inj h
    obtain ⟨front, back, -, -, hback⟩ := List.map_eq_append_iff.mp hreports
    obtain ⟨d, pending, -, -, hpending⟩ := List.map_eq_cons_iff.mp hback
    exact ⟨pending, hpending.symm⟩

/-- When a translation is aborted, an act of it is the first after which it is. If that comes before the walk, then the
faults of the program that are pending are still reported, nothing is printed, and all of the faults are recorded. If it
comes at a control flow instruction, then everything before that instruction was done, and of what follows only what
remains of the instruction is. -/
theorem abort_is_contained (shader : Shader) (b : Backend σ) (settings : TranslatorSettings) (s : σ) :
    let p := Program.read shader.words
    let faults := p.faults shader.words p.labelsPastEnd
    let translated := (shader.translate b settings s).shader
    shader.NeverAborts b settings s ∨
      ∃ before a after, shader.AbortsAt b settings s before a after ∧
        ((∃ pending : List Diagnostic, .present .start :: faults.map .report = before ++ a :: after ∧
            after = pending.map .report ∧ translated.disassembly = "" ∧
            translated.errors.filter Diagnostic.isFound = faults) ∨
          ∃ k w done, p.instructions[k]? = some w ∧
            before = shader.plan.opening ++ (shader.plan.steps.take k).flatMap Step.acts ++ done ∧
            Schedule.Remains shader.stage shader.words p
              (rememberAll none ((p.instructions.take k).flatMap (Word.visits shader.words))) (UInt32.ofNat k) w
              done a after) := by
  intro p faults translated
  have hfaults : shader.plan.faults = faults := shader.faults_plan
  obtain ⟨as, hperforms, htakes⟩ := shader.performs_takes b settings s
  by_cases hn : shader.NeverAborts b settings s
  · exact .inl hn
  have hwalked : ((shader.opened b settings s).acts b (shader.plan.opening ++ as)).isAborted = true := by
    rw [neverAborts_iff, Bool.not_eq_false, Run.isAborted, hperforms.view] at hn
    exact hn
  obtain ⟨before, a, after, has, hat⟩ := Run.exists_abortsAt b (r := shader.opened b settings s) rfl hwalked
  have hat' : (shader.opened b.traced settings (.new s)).AbortsAt b.traced before a := Run.AbortsAt.traced hat
  have habort := hperforms.abortsAt hat has
  refine .inr ⟨before, a, after, habort, ?_⟩
  rcases append_eq_append_cons has with ⟨rest, hopening, rfl⟩ | ⟨before, rfl, hlater⟩
  · have hnil : as = [] := by
      refine htakes.eq_nil_of_isAborted ?_
      rw [hopening]
      exact hat'.isAborted rest
    subst hnil
    rw [List.append_nil] at habort ⊢
    obtain ⟨pending, hpending⟩ := pending_of_opening hopening
    refine .inl ⟨pending, ?_, hpending, hperforms.disassembly, ?_⟩
    · rw [← hfaults]
      exact hopening
    · rw [← hfaults, ← Schedule.diagnostics_opening, hopening]
      exact habort.errors
  · obtain ⟨k, step, done, hk, rfl, hleaves⟩ := htakes.leaves hat'.from_append hlater
    have hstep := Schedule.walk_getElem? shader.stage shader.words p.labels none 0 p.instructions k
    rw [show (Schedule.walk shader.stage shader.words p.labels none 0 p.instructions)[k]? = some step from hk] at hstep
    obtain ⟨w, hw, rfl⟩ := Option.map_eq_some_iff.mp hstep.symm
    rw [Nat.zero_add] at hleaves
    refine .inr ⟨k, w, done, hw, (List.append_assoc ..).symm, Schedule.remains_of_leaves hat.tells hleaves⟩

end Shader

end ShaderMicrocode
