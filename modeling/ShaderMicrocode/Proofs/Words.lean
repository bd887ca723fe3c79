import ShaderMicrocode.Proofs.Accounting
import ShaderMicrocode.Proofs.Protocol
import ShaderMicrocode.Proofs.Truncation
/-!
# What is told of words

What a backend is told of a visited word depends on the word, its address and the full vertex fetch before it. To an
observer of words alone a translation tells what its visits tell, one after the other, and after an abort a beginning of
that.
-/
namespace ShaderMicrocode

open ControlFlow Fetch

/-! Words and everything else. -/

/-- Found in a word of a block. -/
def DecodeError.concernsWord : DecodeError → Bool
  | unimplementedControlFlow _ | instructionOutOfRange .. | truncatedControlFlow _ => false
  | _ => true

def Event.concernsWord : Event → Bool
  | vertexFetch _ | textureFetch _ | alu _ => true
  | _ => false

def Notice.concernsWord : Notice → Bool
  | event e => e.concernsWord
  | error (.undecodable d) => d.concernsWord
  | _ => false

/-- An observer that overlooks everything but the words of blocks. -/
def SeesWordsOnly {β : Type} (g : Notice → Option β) : Prop := ∀ n, n.concernsWord = false → g n = none

/-- What is told of a visited word, given the full vertex fetch before it. -/
def Visit.told (stage : Stage) (last : Option VertexWord) (v : Visit) : List Notice :=
  (Act.ofVisit stage last v).filterMap Act.notice?

/-- What is told of a fetch, or of why there is none. -/
def Notice.ofDecoded {α : Type} (event : α → Event) : Except DecodeError α → Notice
  | .ok f => .event (event f)
  | .error e => .error (.undecodable e)

theorem Visit.told_of_vertexFetch (stage : Stage) (last : Option VertexWord) {v : Visit} (hfetch : v.isFetch = true)
    (hcode : opcodeBits v.word = Opcode.vertexFetch.code) :
    v.told stage last = [.ofDecoded .vertexFetch ((VertexWord.decode v.word).resolve last v.address)] := by
  rw [told, Act.ofVisit, if_pos hfetch, if_pos hcode]
  dsimp only
  rw [notices_ofFetch]
  cases (VertexWord.decode v.word).resolve last v.address <;> rfl

theorem Visit.told_of_textureFetch (stage : Stage) (last : Option VertexWord) {v : Visit} (hfetch : v.isFetch = true)
    (hcode : opcodeBits v.word ≠ Opcode.vertexFetch.code) :
    v.told stage last = [.ofDecoded .textureFetch ((TextureWord.decode v.word).resolve v.address)] := by
  rw [told, Act.ofVisit, if_pos hfetch, if_neg hcode]
  dsimp only
  rw [notices_ofFetch]
  cases (TextureWord.decode v.word).resolve v.address <;> rfl

theorem Visit.told_of_alu (stage : Stage) (last : Option VertexWord) {v : Visit} (hfetch : ¬v.isFetch = true) :
    v.told stage last = halfNotices ((Alu.Word.decode v.word).halves stage v.address) := by
  rw [told, Act.ofVisit, if_neg hfetch]
  exact notices_ofHalves _ _ _

theorem mem_halfNotices {halves : List (Except DecodeError Alu.Instruction)} {n : Notice} (h : n ∈ halfNotices halves) :
    (∃ e, .error e ∈ halves ∧ n = .error (.undecodable e)) ∨ ∃ i, .ok i ∈ halves ∧ n = .event (.alu i) := by
  rcases List.mem_append.mp h with h | h
  · obtain ⟨half, hmem, hhalf⟩ := List.mem_filterMap.mp h
    cases half with
    | ok i => cases hhalf
    | error e => exact .inl ⟨e, hmem, (Option.some.inj hhalf).symm⟩
  · obtain ⟨half, hmem, hhalf⟩ := List.mem_filterMap.mp h
    cases half with
    | ok i => exact .inr ⟨i, hmem, (Option.some.inj hhalf).symm⟩
    | error e => cases hhalf

/-! Errors of words. -/

private theorem Fetch.VertexWord.error_of_base {op : VertexWord} {last : Option VertexWord} {e : DecodeError}
    (h : op.base last = .error e) : op.isMiniFetch = true ∧ last = none ∧ e = .miniFetchWithoutFullFetch := by
  unfold base at h
  split at h
  case isTrue hm =>
    cases last with
    | none => exact ⟨hm, rfl, (Except.error.inj h).symm⟩
    | some full => cases h
  case isFalse => cases h

theorem Fetch.VertexWord.error_of_resolve {op : VertexWord} {last : Option VertexWord} {address : UInt32}
    {e : DecodeError} (h : op.resolve last address = .error e) :
    (op.isMiniFetch = true ∧ last = none ∧ e = .miniFetchWithoutFullFetch) ∨ e = .invalidVertexFormat op.format := by
  unfold resolve at h
  cases hbase : op.base last with
  | error d =>
    rw [hbase] at h
    rw [← Except.error.inj h]
    exact .inl (error_of_base hbase)
  | ok base =>
    rw [hbase] at h
    dsimp only at h
    split at h
    · exact .inr (Except.error.inj h).symm
    · cases h

theorem Fetch.TextureWord.error_of_resolve {op : TextureWord} {address : UInt32} {e : DecodeError}
    (h : op.resolve address = .error e) : e = .unimplementedFetchOpcode op.opcode := by
  unfold resolve at h
  split at h
  · exact (Except.error.inj h).symm
  · exact (Except.error.inj h).symm
  · cases h

private theorem Alu.Word.error_of_result {op : Alu.Word} {stage : Stage} {reg mask : UInt32}
    {isRelative isClamped : Bool} {e : DecodeError} (h : op.result stage reg isRelative mask isClamped = .error e) :
    e = .invalidExportDestination op.vectorDest stage := by
  unfold result at h
  split at h
  · split at h
    · cases h
    · exact (Except.error.inj h).symm
  · cases h

theorem Alu.Word.error_of_halves {op : Alu.Word} {stage : Stage} {address : UInt32} {e : DecodeError}
    (h : .error e ∈ op.halves stage address) :
    e = .unimplementedVectorOpcode op.vectorOpcode ∨ e = .unimplementedScalarOpcode op.scalarOpcode ∨
      e = .invalidExportDestination op.vectorDest stage := by
  rcases cases_of_mem_halves h with h | h | h
  · unfold vector at h
    split at h
    · exact .inl (Except.error.inj h)
    · cases hr : op.vectorResult stage <;> simp only [hr, Except.map, reduceCtorEq, Except.error.injEq] at h
      subst h
      exact .inr (.inr (error_of_result hr))
  · unfold scalar at h
    split at h
    · exact .inr (.inl (Except.error.inj h))
    · cases hr : op.scalarResult stage <;> simp only [hr, Except.map, reduceCtorEq, Except.error.injEq] at h
      subst h
      exact .inr (.inr (error_of_result hr))
  · cases h

/-! The walk. -/

namespace Schedule

variable {β : Type} {g : Notice → Option β} (stage : Stage) (words : Array UInt32) (labels : List UInt32)
  (last : Option VertexWord)

/-- What `g` sees of the visits `vs`. -/
def seenOf (g : Notice → Option β) (stage : Stage) (last : Option VertexWord) (vs : List Visit) : List β :=
  collect (fun last v => (v.told stage last).filterMap g) last vs

private theorem seen_ofVisits (vs : List Visit) :
    ((ofVisits stage last vs).flatten.filterMap Act.notice?).filterMap g = seenOf g stage last vs := by
  rw [filterMap_ofVisits, collect_filterMap]
  rfl

private theorem seen_ofBlock (hg : SeesWordsOnly g) {w : Word} {l : ExecLayout} (h : w.layout = .exec l) :
    ((ofBlock stage last (Block.read words l)).flatten.filterMap Act.notice?).filterMap g =
      seenOf g stage last (Block.read words l).visits := by
  rw [ofBlock, List.flatten_append, List.filterMap_append, List.filterMap_append, seen_ofVisits,
    Block.fault?_read words h]
  cases hfault : outside? words l 0 l.count.toNat with
  | none => exact List.append_nil _
  | some e =>
    obtain ⟨i, -, rfl⟩ := Option.map_eq_some_iff.mp hfault
    have hunseen : g (.error (.undecodable (.instructionOutOfRange (l.address + UInt32.ofNat i) words.size))) = none :=
      hg _ rfl
    simp [Act.notice?, hunseen]

private theorem seen_labelActs (hg : SeesWordsOnly g) (index : UInt32) :
    ((labelActs labels index).filterMap Act.notice?).filterMap g = [] := by
  have hunseen : g (.event (.label index)) = none := hg _ rfl
  unfold labelActs
  split
  · simp [Act.notice?, hunseen]
  · rfl

theorem seen_step (hg : SeesWordsOnly g) (index : UInt32) (w : Word) :
    ((step stage words labels last index w).acts.filterMap Act.notice?).filterMap g =
      seenOf g stage last (w.visits words) := by
  rw [step_eq, Step.acts]
  simp only [List.filterMap_append, seen_labelActs labels hg]
  rcases acts_cases stage words last index w with
    ⟨l, hl, -, hown, hwords, hend⟩ | ⟨hl, hown, hwords, hend⟩ | ⟨i, hi, hne, hown, hwords, hend⟩
  · have hbegin : g (.event (.execBegin (l.resolve index))) = none := hg _ rfl
    have hfinish : g (.event (.execEnd (l.resolve index))) = none := hg _ rfl
    rw [hown, hwords, hend, seen_ofBlock stage words last hg hl, w.visits_of_exec words hl]
    simp [Act.notice?, hbegin, hfinish]
  · have hreport : g (.error (.undecodable (.unimplementedControlFlow .markVsFetchDone))) = none := hg _ rfl
    rw [hown, hwords, hend, w.visits_of_not_exec words (by simp [hl])]
    simp [Act.notice?, hreport, seenOf, collect]
  · have hevent : g (.event (event i)) = none := hg _ (by cases i <;> rfl)
    rw [hown, hwords, hend, w.visits_of_not_exec words (Word.layout_ne_exec hi hne)]
    simp [Act.notice?, hevent, seenOf, collect]

theorem seen_walk (hg : SeesWordsOnly g) (k : Nat) (ws : List Word) :
    (((walk stage words labels last k ws).flatMap Step.acts).filterMap Act.notice?).filterMap g =
      seenOf g stage last (ws.flatMap (Word.visits words)) := by
  induction ws generalizing last k with
  | nil => rfl
  | cons w ws ih =>
    rw [walk, List.flatMap_cons, List.flatMap_cons, List.filterMap_append, List.filterMap_append,
      seen_step stage words labels last hg, ih]
    exact (collect_append _ last (w.visits words) _).symm

end Schedule

/-! The translation. -/

namespace Shader

variable {σ β : Type} {g : Notice → Option β}

private theorem not_concernsWord_of_mem_faults (shader : Shader) {d : Diagnostic} (hd : d ∈ shader.plan.faults) :
    (Notice.error d).concernsWord = false := by
  rcases shader.cases_of_mem_faults hd with ⟨offset, rfl⟩ | ⟨slot, first, other, rfl⟩ | ⟨target, length, rfl⟩ <;> rfl

theorem Performs.seen {shader : Shader} {b : Backend σ} {settings : TranslatorSettings} {s : σ} {as : List Act}
    (h : shader.Performs b settings s as) (hg : SeesWordsOnly g) :
    (shader.notices b settings s).filterMap g = (as.filterMap Act.notice?).filterMap g := by
  have hreset : g .reset = none := hg _ rfl
  have hstart : g (.event .start) = none := hg _ rfl
  have hcomplete : g .complete = none := hg _ rfl
  have hfaults : (shader.plan.faults.map Notice.error).filterMap g = [] := by
    rw [List.filterMap_eq_nil_iff]
    intro n hn
    obtain ⟨d, hd, rfl⟩ := List.mem_map.mp hn
    exact hg _ (shader.not_concernsWord_of_mem_faults hd)
  rw [h.notices]
  simp only [List.filterMap_append, List.filterMap_cons, hreset, hstart, hcomplete, hfaults, List.filterMap_nil,
    List.nil_append, List.append_nil]

variable (shader : Shader) (b : Backend σ) (settings : TranslatorSettings) (s : σ)

/-- What `g` sees of the visits of a program, in the order of the walk. -/
def visitsSeen (g : Notice → Option β) (shader : Shader) : List β :=
  Schedule.seenOf g shader.stage none ((Program.read shader.words).visits shader.words)

theorem seen_plan (hg : SeesWordsOnly g) :
    ((shader.plan.steps.flatMap Step.acts).filterMap Act.notice?).filterMap g = shader.visitsSeen g :=
  Schedule.seen_walk shader.stage shader.words _ none hg 0 _

theorem seen_prefix (hg : SeesWordsOnly g) :
    (shader.notices b settings s).filterMap g <+: shader.visitsSeen g := by
  obtain ⟨as, h⟩ := shader.performs b settings s
  obtain ⟨told, closing, has, hbegins, hclosing⟩ := h.told
  have hunseen : (closing.filterMap Act.notice?).filterMap g = [] := by
    rcases hclosing with rfl | ⟨e, before, body, rfl, -, -⟩
    · rfl
    · have hend : g (.event (.execEnd e)) = none := hg _ rfl
      simp [Act.notice?, hend]
  rw [h.seen hg, has, List.filterMap_append, List.filterMap_append, hunseen, List.append_nil, ← shader.seen_plan hg]
  exact (hbegins.filterMap _).filterMap _

theorem seen_eq (hg : SeesWordsOnly g) (h : shader.NeverAborts b settings s) :
    (shader.notices b settings s).filterMap g = shader.visitsSeen g := by
  obtain ⟨as, hperforms⟩ := shader.performs b settings s
  rw [hperforms.seen hg, hperforms.eq_of_neverAborts h, shader.seen_plan hg]

end Shader

end ShaderMicrocode
