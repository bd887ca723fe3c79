import Mathlib.Data.List.Induction
import ShaderMicrocode.Proofs.Decoded
import ShaderMicrocode.Proofs.Entries
import ShaderMicrocode.Proofs.LineCounts
import ShaderMicrocode.Proofs.Texts
/-!
# The listing

Whenever a backend is shown something, the last line of the disassembly is the one that tells of it. The disassembly is
a list of lines to which lines are only added, and without an abort each label, each control flow instruction and each
word has exactly one.
-/
namespace ShaderMicrocode

open ControlFlow Fetch

/-! Lines. -/

/-- The comment in front of the instruction that starts at dword `half` of triple `n`. -/
def tag (n half : Nat) : String := "/* " ++ paddedDecimal 4 n ++ "." ++ half.repr ++ " */ "

private theorem instructionLine_eq (offset : Nat) (body : String) :
    instructionLine offset body = tag (offset / 3) (offset % 3) ++ body := rfl

theorem instructionLine_controlFlowOffset (index : UInt32) (body : String) :
    instructionLine (controlFlowOffset index) body = tag (index.toNat / 2) (index.toNat % 2) ++ body := by
  have hpair : controlFlowOffset index / 3 = index.toNat / 2 := by
    rw [controlFlowOffset]
    omega
  have hhalf : controlFlowOffset index % 3 = index.toNat % 2 := by
    rw [controlFlowOffset]
    omega
  rw [instructionLine_eq, hpair, hhalf]

theorem instructionLine_wordOffset (address : UInt32) (body : String) :
    instructionLine (wordOffset address) body = tag address.toNat 0 ++ body := by
  have htriple : wordOffset address / 3 = address.toNat := Nat.mul_div_cancel_left _ (by decide)
  have hhalf : wordOffset address % 3 = 0 := Nat.mul_mod_right 3 _
  rw [instructionLine_eq, htriple, hhalf]

/-- The line of the instruction `i` of index `k`. -/
def controlFlowLine (k : UInt32) (i : ControlFlow.Instruction) : String := tag (k.toNat / 2) (k.toNat % 2) ++ i.text

/-- The line of the ALU or fetch word at `address`. -/
def lineOfWord (address : UInt32) (p : Predicate) (body : String) : String := tag address.toNat 0 ++ (p.column ++ body)

/-- `body` is the text of `i`, alone or together with that of the other half of its word, vector first. -/
inductive Alu.Instruction.IsPartOf (i : Alu.Instruction) : String → Prop
  | alone : IsPartOf i i.text
  | first (other : Except DecodeError Alu.Instruction) (h : i.half = .vector)
      (hother : ∀ j, other = .ok j → j.half = .scalar) : IsPartOf i (i.text ++ " + " ++ Act.halfText other)
  | second (other : Except DecodeError Alu.Instruction) (h : i.half = .scalar)
      (hother : ∀ j, other = .ok j → j.half = .vector) : IsPartOf i (Act.halfText other ++ " + " ++ i.text)

/-- The line `last` tells of the event. The start and the end of a block have no line of their own. -/
def Event.IsToldBy (last : Option String) : Event → Prop
  | start | execEnd _ => True
  | label k => last = some ("                label L" ++ decimal k)
  | nop k => last = some (controlFlowLine k (.nop k))
  | execBegin e => last = some (controlFlowLine e.index (.exec e))
  | loopStart l => last = some (controlFlowLine l.index (.loopStart l))
  | loopEnd l => last = some (controlFlowLine l.index (.loopEnd l))
  | call c => last = some (controlFlowLine c.index (.call c))
  | ret k => last = some (controlFlowLine k (.ret k))
  | jump j => last = some (controlFlowLine j.index (.jump j))
  | alloc a => last = some (controlFlowLine a.index (.alloc a))
  | vertexFetch f => last = some (lineOfWord f.address f.predicate f.text)
  | textureFetch f => last = some (lineOfWord f.address f.predicate f.text)
  | alu i => ∃ body, last = some (lineOfWord i.address i.predicate body) ∧ i.IsPartOf body

/-! Lists of acts. -/

/-- Behind a listing with the last line `last`, the acts print whole lines and show nothing but what the line before it
tells of. -/
def IsInStep (last : Option String) : List Act → Prop
  | [] => True
  | .print line :: as => IsLine line ∧ IsInStep (some line) as
  | .present e :: as => e.IsToldBy last ∧ IsInStep last as
  | .announce _ _ :: as => IsInStep last as
  | .report _ :: as => IsInStep last as

/-- The last line of a listing once `as` has been performed. -/
def lastLine (last : Option String) (as : List Act) : Option String := (as.filterMap Act.line?).getLast?.or last

private theorem lastLine_print_cons (last : Option String) (line : String) (as : List Act) :
    lastLine last (.print line :: as) = lastLine (some line) as := by
  have hcons : (Act.print line :: as).filterMap Act.line? = line :: as.filterMap Act.line? := rfl
  rw [lastLine, hcons, List.getLast?_cons, lastLine]
  cases (as.filterMap Act.line?).getLast? <;> rfl

theorem isInStep_append {last : Option String} {as as' : List Act} :
    IsInStep last (as ++ as') ↔ IsInStep last as ∧ IsInStep (lastLine last as) as' := by
  induction as generalizing last with
  | nil => simp [IsInStep, lastLine]
  | cons a as ih =>
    cases a with
    | print line => rw [List.cons_append, IsInStep, IsInStep, ih, lastLine_print_cons, and_assoc]
    | present e =>
      rw [List.cons_append, IsInStep, IsInStep, ih, and_assoc]
      rfl
    | announce k op => exact ih
    | report d => exact ih

theorem IsInStep.isLine {last : Option String} {as : List Act} (h : IsInStep last as) :
    ∀ line ∈ as.filterMap Act.line?, IsLine line := by
  induction as generalizing last with
  | nil => exact List.forall_mem_nil _
  | cons a as ih =>
    cases a with
    | print line => exact List.forall_mem_cons.mpr ⟨h.1, ih h.2⟩
    | present e => exact ih h.2
    | announce k op => exact ih h
    | report d => exact ih h

/-- In step behind any listing. -/
def StaysInStep (as : List Act) : Prop := ∀ last, IsInStep last as

private theorem staysInStep_nil : StaysInStep [] := fun _ => trivial

private theorem StaysInStep.append {as as' : List Act} (h : StaysInStep as) (h' : StaysInStep as') :
    StaysInStep (as ++ as') :=
  fun last => isInStep_append.mpr ⟨h last, h' _⟩

private theorem StaysInStep.flatten {ls : List (List Act)} (h : ∀ l ∈ ls, StaysInStep l) : StaysInStep ls.flatten := by
  induction ls with
  | nil => exact staysInStep_nil
  | cons l ls ih =>
    rw [List.flatten_cons]
    exact (h l List.mem_cons_self).append (ih fun l' hl' => h l' (List.mem_cons_of_mem _ hl'))

private theorem isInStep_of_told {last : Option String} {as : List Act}
    (h : ∀ a ∈ as, (∃ d, a = .report d) ∨ ∃ e : Event, a = .present e ∧ e.IsToldBy last) : IsInStep last as := by
  induction as with
  | nil => trivial
  | cons a as ih =>
    have hrest : IsInStep last as := ih fun a' ha' => h a' (List.mem_cons_of_mem _ ha')
    rcases h a List.mem_cons_self with ⟨d, rfl⟩ | ⟨e, rfl, he⟩
    · exact hrest
    · exact ⟨he, hrest⟩

private theorem staysInStep_report (d : Diagnostic) : StaysInStep [.report d] := fun _ => trivial

/-- What keeps in step in each part of each step does so in a cut of the steps. -/
theorem Schedule.Cut.staysInStep {isAborted : Bool} {ss : List Step} {as : List Act} (h : Cut isAborted ss as)
    (hss : ∀ s ∈ ss, StaysInStep s.opening ∧ (∀ word ∈ s.block, StaysInStep word) ∧ StaysInStep s.closing) :
    StaysInStep as := by
  induction h with
  | finished => exact staysInStep_nil
  | stopped ss _ => exact staysInStep_nil
  | within s ss n _ =>
    obtain ⟨hopening, hblock, hclosing⟩ := hss s List.mem_cons_self
    have hwords : StaysInStep (s.block.take n).flatten :=
      StaysInStep.flatten fun word hword => hblock word (List.mem_of_mem_take hword)
    exact (hopening.append hwords).append hclosing
  | whole s _ ih =>
    obtain ⟨hopening, hblock, hclosing⟩ := hss s List.mem_cons_self
    have hacts : StaysInStep s.acts := (hopening.append (StaysInStep.flatten hblock)).append hclosing
    exact hacts.append (ih fun s' hs' => hss s' (List.mem_cons_of_mem _ hs'))

/-! Words. -/

namespace Act

variable {address : UInt32} {p : Predicate}

private theorem wordLine_eq (body : String) :
    Act.wordLine address p body = .print (lineOfWord address p body) :=
  congrArg Act.print (instructionLine_wordOffset address _)

private theorem isLine_lineOfWord {body : String} (h : IsLine body) : IsLine (lineOfWord address p body) := by
  rw [lineOfWord, ← instructionLine_wordOffset]
  exact isLine_instructionLine _ (over_append.mpr ⟨p.isLine_column, h⟩)

private theorem staysInStep_ofFetch {α : Type} {decoded : Except DecodeError α} {text : α → String} {event : α → Event}
    (htext : ∀ f, decoded = .ok f → IsLine (text f))
    (hevent : ∀ f, decoded = .ok f → (event f).IsToldBy (some (lineOfWord address p (text f)))) :
    StaysInStep (ofFetch address p decoded text event) := by
  intro last
  cases decoded with
  | ok f =>
    rw [ofFetch, wordLine_eq]
    exact ⟨isLine_lineOfWord (htext f rfl), hevent f rfl, trivial⟩
  | error e =>
    rw [ofFetch, wordLine_eq]
    exact ⟨isLine_lineOfWord e.isLine_placeholder, trivial⟩

end Act

namespace Alu

namespace Word

variable {op : Word} {stage : Stage} {address : UInt32}

private theorem isLine_halfText {half : Except DecodeError Instruction} (h : half ∈ op.halves stage address) :
    IsLine (Act.halfText half) := by
  cases half with
  | error e => exact e.isLine_placeholder
  | ok i =>
    apply i.isLine_text
    exact (isHalf_of_mem h).name_of_tables (P := IsLine) (by decide) (by decide +kernel)

private theorem IsHalf.place {i : Instruction} (h : op.IsHalf stage address i) :
    i.address = address ∧ i.predicate = op.predicate := by
  cases h <;> exact ⟨rfl, rfl⟩

private theorem half_of_vector {i : Instruction} (h : op.vector Vector.opcodes stage address = .ok i) :
    i.half = .vector := by
  obtain ⟨info, r, -, -, rfl⟩ := ok_vector_iff.mp h
  rfl

private theorem half_of_scalar {i : Instruction} (h : op.scalar Scalar.opcodes stage address = .ok i) :
    i.half = .scalar := by
  obtain ⟨info, r, -, -, rfl⟩ := ok_scalar_iff.mp h
  rfl

private theorem isPartOf_of_mem {i : Instruction} (h : .ok i ∈ op.halves stage address) :
    i.IsPartOf (" + ".intercalate ((op.halves stage address).map Act.halfText)) := by
  unfold halves at h ⊢
  split at h
  · rcases List.mem_cons.mp h with h | h
    · rw [← h]
      exact .first _ (half_of_vector h.symm) fun j hj => half_of_scalar hj
    · rw [List.mem_singleton] at h
      rw [← h]
      exact .second _ (half_of_scalar h.symm) fun j hj => half_of_vector hj
  all_goals
    rw [List.mem_singleton] at h
    rw [← h]
    exact .alone

end Word

end Alu

/-! Visits. -/

private theorem Fetch.Opcode.isLine_textureName (o : Opcode) (d : Dimension) : IsLine (o.textureName d) := by
  cases o <;> cases d <;> decide

private theorem Act.staysInStep_ofHalves (op : Alu.Word) (stage : Stage) (address : UInt32) :
    StaysInStep (ofHalves address op.predicate (op.halves stage address)) := by
  intro last
  have hbody : IsLine (" + ".intercalate ((op.halves stage address).map halfText)) := by
    refine over_intercalate (by decide) fun text htext => ?_
    obtain ⟨half, hhalf, rfl⟩ := List.mem_map.mp htext
    exact Alu.Word.isLine_halfText hhalf
  rw [ofHalves, wordLine_eq]
  refine ⟨isLine_lineOfWord hbody, isInStep_of_told fun a ha => ?_⟩
  rcases List.mem_append.mp ha with ha | ha
  · obtain ⟨half, -, hact⟩ := List.mem_filterMap.mp ha
    cases half with
    | ok i => cases hact
    | error e => exact .inl ⟨_, (Option.some.inj hact).symm⟩
  · obtain ⟨half, hhalf, hact⟩ := List.mem_filterMap.mp ha
    cases half with
    | ok i =>
      refine .inr ⟨.alu i, (Option.some.inj hact).symm, _, ?_, Alu.Word.isPartOf_of_mem hhalf⟩
      obtain ⟨haddress, hpredicate⟩ := (Alu.Word.isHalf_of_mem hhalf).place
      rw [haddress, hpredicate]
    | error e => cases hact

theorem Act.staysInStep_ofVisit (stage : Stage) (last : Option VertexWord) (v : Visit) :
    StaysInStep (ofVisit stage last v) := by
  unfold ofVisit
  split
  · split
    · apply staysInStep_ofFetch
      · intro f hf
        obtain ⟨base, format, -, rfl⟩ := VertexWord.ok_resolve hf
        apply VertexFetch.isLine_text
        simp +decide only [VertexWord.fetch, over_ite, implies_true, and_self]
      · intro f hf
        obtain ⟨base, format, -, rfl⟩ := VertexWord.ok_resolve hf
        rfl
    · apply staysInStep_ofFetch
      · intro f hf
        obtain ⟨o, -, rfl⟩ := TextureWord.ok_resolve hf
        apply TextureFetch.isLine_text
        exact Opcode.isLine_textureName o _
      · intro f hf
        obtain ⟨o, -, rfl⟩ := TextureWord.ok_resolve hf
        rfl
  · exact staysInStep_ofHalves _ _ _

/-! Steps. -/

namespace Schedule

variable (stage : Stage) (words : Array UInt32) (last : Option VertexWord)

private theorem staysInStep_ofVisits (vs : List Visit) : ∀ word ∈ ofVisits stage last vs, StaysInStep word := by
  induction vs generalizing last with
  | nil => exact List.forall_mem_nil _
  | cons v vs ih => exact List.forall_mem_cons.mpr ⟨Act.staysInStep_ofVisit stage last v, ih _⟩

private theorem staysInStep_ofBlock (b : Block) : ∀ word ∈ ofBlock stage last b, StaysInStep word := by
  intro word hword
  rcases List.mem_append.mp hword with hword | hword
  · exact staysInStep_ofVisits stage last b.visits word hword
  · obtain ⟨e, -, rfl⟩ := List.mem_map.mp (Option.toList_map ▸ hword)
    exact staysInStep_report _

private theorem staysInStep_labelActs (labels : List UInt32) (index : UInt32) :
    StaysInStep (labelActs labels index) := by
  intro before
  unfold labelActs
  split
  · exact ⟨isLine_labelLine index, rfl, trivial⟩
  · trivial

theorem isToldBy_event {index : UInt32} {w : Word} {i : ControlFlow.Instruction} (h : w.resolve index stage = .ok i) :
    (event i).IsToldBy (some (controlFlowLine index i)) := by
  unfold Word.resolve at h
  split at h <;> cases h <;> rfl

private theorem staysInStep_own (index : UInt32) (w : Word) :
    StaysInStep [.announce index w.opcode, .print (ownLine stage index w), ownAct stage index w] := by
  intro before
  show IsLine _ ∧ IsInStep _ [ownAct stage index w]
  unfold ownLine ownAct
  cases h : w.resolve index stage with
  | ok i =>
    refine ⟨isLine_instructionLine _ (Word.isLine_text h), ?_, trivial⟩
    rw [instructionLine_controlFlowOffset]
    exact isToldBy_event stage h
  | error e =>
    exact ⟨isLine_instructionLine _ (over_append.mpr ⟨Predicate.isLine_blank, e.isLine_placeholder⟩), trivial⟩

private theorem staysInStep_wordActs (w : Word) : ∀ word ∈ wordActs stage words last w, StaysInStep word := by
  unfold wordActs
  cases w.layout with
  | exec l => exact staysInStep_ofBlock stage last _
  | _ => exact List.forall_mem_nil _

private theorem staysInStep_endActs (index : UInt32) (w : Word) : StaysInStep (endActs stage index w) := by
  intro before
  unfold endActs
  split
  · exact ⟨trivial, trivial⟩
  · trivial

theorem staysInStep_walk (labels : List UInt32) (k : Nat) (ws : List Word) : ∀ s ∈ walk stage words labels last k ws,
    StaysInStep s.opening ∧ (∀ word ∈ s.block, StaysInStep word) ∧ StaysInStep s.closing := by
  induction ws generalizing last k with
  | nil => exact List.forall_mem_nil _
  | cons w ws ih =>
    refine List.forall_mem_cons.mpr ⟨?_, ih _ (k + 1)⟩
    rw [step_eq]
    refine ⟨?_, staysInStep_wordActs stage words last w, staysInStep_endActs stage _ w⟩
    exact (staysInStep_labelActs labels _).append (staysInStep_own stage _ w)

private theorem staysInStep_opening (p : Schedule) : StaysInStep p.opening := by
  intro before
  refine ⟨trivial, isInStep_of_told fun a ha => ?_⟩
  obtain ⟨d, -, rfl⟩ := List.mem_map.mp ha
  exact .inl ⟨d, rfl⟩

end Schedule

/-! Views. -/

namespace Listing

/-- The text is made of its lines, each ended by a newline and without another one. -/
structure IsWhole (l : Listing) : Prop where
  lineCount_eq : l.lineCount = l.lines.length
  text_eq : l.text = String.join (l.lines.map (· ++ "\n"))
  isLine : ∀ line ∈ l.lines, IsLine line
  newlines : l.text.toList.count '\n' = l.lineCount

theorem isWhole_empty : empty.IsWhole where
  lineCount_eq := lineCount_empty
  text_eq := text_empty
  isLine := List.forall_mem_nil _
  newlines := by
    rw [text_empty, lineCount_empty]
    rfl

theorem IsWhole.push {l : Listing} (h : l.IsWhole) {line : String} (hline : IsLine line) : (l.push line).IsWhole where
  lineCount_eq := by rw [lineCount_push, lines_push, List.length_append, h.lineCount_eq, List.length_singleton]
  text_eq := by
    rw [text_push, h.text_eq, lines_push, List.map_append, String.join_append]
    simp [String.append_assoc]
  isLine := by
    rw [lines_push]
    exact List.forall_mem_append.mpr ⟨h.isLine, List.forall_mem_singleton.mpr hline⟩
  newlines := by
    have hnone : line.toList.count '\n' = 0 :=
      List.count_eq_zero.mpr fun hmem => absurd (over_iff.mp hline '\n' hmem) (by decide)
    have hnewline : "\n".toList.count '\n' = 1 := by decide
    rw [text_push, lineCount_push, String.toList_append, String.toList_append, List.count_append, List.count_append,
      h.newlines, hnone, hnewline]

/-- A listing that is built of lines is whole, one line after the other. -/
theorem isWhole_ofLines {ls : List String} (h : ∀ line ∈ ls, IsLine line) : (ofLines ls).IsWhole := by
  induction ls using List.reverseRecOn with
  | nil => exact isWhole_empty
  | append_singleton ls line ih =>
    rw [ofLines_concat]
    exact (ih fun l hl => h l (List.mem_append_left _ hl)).push (h line (List.mem_append_right _ List.mem_cons_self))

end Listing

private theorem Call.notice_of_event? {c : Call} {e : Event} (h : c.event? = some e) : c.notice = .event e := by
  cases c <;> cases h
  rfl

namespace Shader

variable {σ : Type} {shader : Shader} {b : Backend σ} {settings : TranslatorSettings} {s : σ} {as : List Act}

section Entry

variable {before : List Request} {c : Call} {done : List Act}

private theorem Entry.isPrefix (h : Entry as before c done) : done <+: as := by
  rcases h.next with ⟨a, rest, has, -⟩ | ⟨has, -⟩
  · exact ⟨a :: rest, has.symm⟩
  · exact ⟨[], by rw [has, List.append_nil]⟩

theorem Entry.isWhole (h : Entry as before c done) (has : StaysInStep as) : c.view.listing.IsWhole := by
  obtain ⟨rest, rfl⟩ := h.isPrefix
  rw [← c.view.listing.ofLines_lines, h.lines]
  exact Listing.isWhole_ofLines (isInStep_append.mp (has none)).1.isLine

theorem Entry.isToldBy (h : Entry as before c done) (has : StaysInStep as) {e : Event} (he : c.event? = some e) :
    e.IsToldBy c.view.listing.lines.getLast? := by
  have hnotice := Call.notice_of_event? he
  rcases h.next with ⟨a, rest, rfl, ha⟩ | ⟨-, hc⟩
  · obtain rfl : a = .present e := by
      rw [hnotice] at ha
      cases a <;> cases ha
      rfl
    have hlast := (isInStep_append.mp (has none)).2.1
    rwa [lastLine, Option.or_none, ← h.lines] at hlast
  · rw [hnotice] at hc
    cases hc

theorem Entry.lines_prefix {before' : List Request} {c' : Call} {done' : List Act} (h : Entry as before c done)
    (h' : Entry as before' c' done') (hlt : before.length < before'.length) :
    c.view.listing.lines <+: c'.view.listing.lines := by
  have hlength {done : List Act} {before : List Request} {c : Call} (h : Entry as before c done) :
      before.length = (done.filterMap Act.notice?).length + 1 := by
    rw [← List.length_map Request.notice, h.notices, List.length_cons]
  rw [h.lines, h'.lines]
  rcases List.prefix_or_prefix_of_prefix h.isPrefix h'.isPrefix with hdone | hdone
  · exact hdone.filterMap _
  · have hle := (hdone.filterMap Act.notice?).length_le
    have hbefore := hlength h
    have hbefore' := hlength h'
    omega

end Entry

theorem Performs.staysInStep (h : shader.Performs b settings s as) : StaysInStep (shader.plan.opening ++ as) :=
  (Schedule.staysInStep_opening _).append (h.cut.staysInStep (Schedule.staysInStep_walk _ _ _ _ _ _))

/-- In every view the disassembly is a list of whole lines, the last of them tells of the event that is shown, and later
views only add to it. Without an abort each target inside the program, each instruction of the program and each
word of an exec inside the microcode has one line in the end. -/
theorem listing_in_lockstep (shader : Shader) (b : Backend σ) (settings : TranslatorSettings) (s : σ)
    (h : (Program.read shader.words).length < UInt32.size) :
    let p := Program.read shader.words
    let requests := shader.requests b settings s
    (∀ before c after, requests = before ++ .call c :: after →
        c.view.listing.IsWhole ∧ (∀ e, c.event? = some e → e.IsToldBy c.view.listing.lines.getLast?) ∧
          ∀ c', .call c' ∈ after → c.view.listing.lines <+: c'.view.listing.lines) ∧
      ∃ before view, requests = before ++ [.call (.complete view)] ∧
        (shader.translate b settings s).shader.disassembly = view.listing.text ∧
        (shader.NeverAborts b settings s → ∃ targets : List UInt32, targets.Pairwise (· < ·) ∧
          (∀ t, t ∈ targets ↔ p.IsTarget shader.stage t ∧ t.toNat < p.length) ∧
          view.listing.lineCount =
            targets.length + p.length + (p.instructions.flatMap (Word.inside shader.words)).length) := by
  intro p requests
  obtain ⟨as, hperforms⟩ := shader.performs b settings s
  have hstays := hperforms.staysInStep
  refine ⟨fun before c after hsplit => ?_, _, _, shader.requests_eq b settings s, ?_, fun hn => ?_⟩
  · obtain ⟨done, hentry⟩ := hperforms.entry hsplit
    refine ⟨hentry.isWhole hstays, fun e he => hentry.isToldBy hstays he, fun c' hafter => ?_⟩
    obtain ⟨mid, rest, hsplit'⟩ := exists_split_of_mem hsplit hafter
    obtain ⟨done', hentry'⟩ := hperforms.entry hsplit'
    refine hentry.lines_prefix hentry' ?_
    rw [List.length_append, List.length_cons]
    omega
  · show (shader.closed b settings s).view.listing.text = _
    rw [closed, Session.view_recordObjections]
  · refine ⟨p.labels.filter fun t => t.toNat < p.length, p.pairwise_labels.filter _, fun t => ?_, ?_⟩
    · rw [List.mem_filter, p.mem_labels_iff_isTarget shader.stage, decide_eq_true_eq]
    · obtain ⟨done, hentry⟩ := hperforms.entry (shader.requests_eq b settings s)
      rw [← shader.length_lines_plan h, ← hperforms.eq_of_neverAborts hn]
      refine (hentry.isWhole hstays).lineCount_eq.trans (congrArg List.length ?_)
      show (shader.walked b settings s).session.view.listing.lines = _
      rw [hperforms.view, Run.lines_acts, List.filterMap_append, Schedule.lines_opening]
      rfl

theorem listing_of_backward_jump :
    let shader := Shader.new .vertex
      #[0x00042001, 0x20001000, 0xB0000000, 0x001F0000, 0, 0xE0000000, 0x00080000, 0x00390688, 0x00000004]
    let requests := shader.requests .silent ⟨.proceed, false⟩ ()
    (Program.read shader.words).length < UInt32.size ∧ shader.NeverAborts .silent ⟨.proceed, false⟩ () ∧
      (∃ view, .call (.event (.label 0) view) ∈ requests ∧ view.listing.IsWhole ∧
        view.listing.lines.getLast? = some "                label L0") ∧
      ∃ (view : View) (targets : List UInt32), .call (.complete view) ∈ requests ∧ 0 ∈ targets ∧
        view.listing.lineCount = targets.length + 2 + 2 := by
  intro shader requests
  have hlength : (Program.read shader.words).length = 2 := by decide +kernel
  have hinside : ((Program.read shader.words).instructions.flatMap (Word.inside shader.words)).length = 2 := by
    decide +kernel
  have hbound : (Program.read shader.words).length < UInt32.size := by
    rw [hlength]
    decide
  have hn : shader.NeverAborts .silent ⟨.proceed, false⟩ () := shader.neverAborts_silent false
  have hlabel : .event (.label 0) ∈ requests.map Request.notice := by decide +kernel
  have htarget : (0 : UInt32) ∈ (Program.read shader.words).labels := by decide +kernel
  obtain ⟨hcalls, before, view, hrequests, -, hcount⟩ :=
    listing_in_lockstep shader .silent ⟨.proceed, false⟩ () hbound
  refine ⟨hbound, hn, ?_, ?_⟩
  · obtain ⟨view, hview⟩ := Request.event_mem_map_notice.mp hlabel
    obtain ⟨before, after, hsplit⟩ := List.append_of_mem hview
    obtain ⟨hwhole, htold, -⟩ := hcalls before _ after hsplit
    have hlast : "                label L" ++ decimal 0 = "                label L0" := by decide
    exact ⟨view, hview, hwhole, (htold (.label 0) rfl).trans (congrArg some hlast)⟩
  · obtain ⟨targets, -, hmem, hlines⟩ := hcount hn
    rw [hlength, hinside] at hlines
    refine ⟨view, targets, ?_, (hmem 0).mpr ⟨?_, ?_⟩, hlines⟩
    · show _ ∈ shader.requests .silent ⟨.proceed, false⟩ ()
      rw [hrequests]
      exact List.mem_append_right _ List.mem_cons_self
    · exact (Program.mem_labels_iff_isTarget _ _ _).mp htarget
    · rw [hlength]
      decide

end Shader

end ShaderMicrocode
