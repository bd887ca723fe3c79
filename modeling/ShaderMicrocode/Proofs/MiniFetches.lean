import ShaderMicrocode.Proofs.VertexBindings
/-!
# Mini fetches

A mini fetch stands for the full fetch that it abbreviates: its own word with the slot, the source and the stride of
the last full fetch visited before it. The pass that gathers the bindings and the walk both read it so, whatever lies
between the two.
-/
namespace ShaderMicrocode

open Fetch

/-! Words. -/

namespace Fetch.VertexWord

/-- The full fetch that `op` abbreviates after `full`. -/
def completedBy (op full : VertexWord) : VertexWord :=
  { op with
    srcReg := full.srcReg
    srcRelative := full.srcRelative
    constIndex := full.constIndex
    constIndexSelect := full.constIndexSelect
    srcSwizzle := full.srcSwizzle
    stride := full.stride
    isMiniFetch := false }

end Fetch.VertexWord

/-- The fetch as a mini fetch shows it. -/
def Fetch.VertexFetch.asMini (f : VertexFetch) : VertexFetch := { f with name := "vfetch_mini", isMini := true }

namespace Fetch.VertexWord

/-- What a vertex fetch word comes to when `full?` is the full fetch before it. -/
def outcome (op : VertexWord) (full? : Option VertexWord) (address : UInt32) : Except DecodeError VertexFetch :=
  if op.isMiniFetch then
    match full? with
    | some full => ((op.completedBy full).resolve none address).map VertexFetch.asMini
    | none => .error .miniFetchWithoutFullFetch
  else op.resolve none address

variable {op : VertexWord} {last : Option VertexWord} {address : UInt32}

private theorem resolve_of_full (hm : op.isMiniFetch = false) : op.resolve last address = op.resolve none address := by
  simp only [resolve, base, hm, Bool.false_eq_true, if_false]

private theorem fetch_completedBy (hm : op.isMiniFetch = true) (full : VertexWord) (format : VertexFormat) :
    op.fetch full format address = ((op.completedBy full).fetch (op.completedBy full) format address).asMini := by
  simp only [fetch, VertexFetch.asMini, hm, if_true]
  rfl

theorem resolve_of_mini (hm : op.isMiniFetch = true) (full : VertexWord) :
    op.resolve (some full) address = ((op.completedBy full).resolve none address).map VertexFetch.asMini := by
  have hbase : op.base (some full) = .ok full := if_pos hm
  have hcompleted : (op.completedBy full).base none = .ok (op.completedBy full) := rfl
  rw [resolve, resolve, hbase, hcompleted]
  dsimp only
  have hformat : (op.completedBy full).format = op.format := rfl
  rw [hformat]
  cases VertexFormat.ofCode? op.format with
  | none => rfl
  | some format => exact congrArg Except.ok (fetch_completedBy hm full format)

theorem resolve_eq_outcome : op.resolve last address = op.outcome last address := by
  unfold outcome
  by_cases hm : op.isMiniFetch = true
  · rw [if_pos hm]
    cases last with
    | none => rw [resolve, base, if_pos hm]
    | some full => exact resolve_of_mini hm full
  · rw [if_neg hm]
    exact resolve_of_full (Bool.not_eq_true _ ▸ hm)

/-- The error of a missing full fetch is that of mini fetches before any full one, whatever their format. -/
theorem resolve_eq_missing_iff :
    op.resolve last address = .error .miniFetchWithoutFullFetch ↔ op.isMiniFetch = true ∧ last = none := by
  constructor
  · intro h
    rcases error_of_resolve h with ⟨hm, hlast, -⟩ | h
    · exact ⟨hm, hlast⟩
    · cases h
  · rintro ⟨hm, rfl⟩
    rw [resolve, base, if_pos hm]

theorem completedBy_completedBy (op full other : VertexWord) :
    (op.completedBy full).completedBy other = op.completedBy other := rfl

/-- Mini fetches that differ in what they take over from a full fetch only are the same fetch. -/
private theorem resolve_congr {other full : VertexWord} (hm : op.isMiniFetch = true) (hother : other.isMiniFetch = true)
    (h : op.completedBy full = other.completedBy full) : op.resolve last address = other.resolve last address := by
  cases last with
  | none => rw [resolve_eq_outcome, resolve_eq_outcome, outcome, outcome, if_pos hm, if_pos hother]
  | some last =>
    have hlast : op.completedBy last = other.completedBy last := by
      rw [← completedBy_completedBy op full last, h, completedBy_completedBy]
    rw [resolve_of_mini hm, resolve_of_mini hother, hlast]

end Fetch.VertexWord

/-! Visits. -/

namespace Visit

/-- The word of a visited vertex fetch. -/
def vertexWord? (v : Visit) : Option VertexWord :=
  if v.isFetch ∧ opcodeBits v.word = Opcode.vertexFetch.code then some (.decode v.word) else none

def fullFetch? (v : Visit) : Option VertexWord := v.vertexWord?.filter fun op => !op.isMiniFetch

def isMiniFetch (v : Visit) : Bool := v.vertexWord?.any VertexWord.isMiniFetch

end Visit

/-- The last full vertex fetch among visited words, whatever it comes to. -/
def lastFullFetch (before : List Visit) : Option VertexWord := (before.filterMap Visit.fullFetch?).getLast?

/-- What each vertex fetch among the visits comes to; the visits `before` lie before them. -/
def vertexOutcomes (before : List Visit) : List Visit → List (Except DecodeError VertexFetch)
  | [] => []
  | v :: vs =>
    (v.vertexWord?.map fun op => op.outcome (lastFullFetch before) v.address).toList
      ++ vertexOutcomes (before ++ [v]) vs

private theorem Visit.remember_eq_or (v : Visit) (last : Option VertexWord) :
    v.remember last = v.fullFetch?.or last := by
  unfold remember fullFetch? vertexWord?
  by_cases hword : v.isFetch ∧ opcodeBits v.word = Opcode.vertexFetch.code
  · rw [if_pos hword, if_pos hword, VertexWord.remember]
    by_cases hm : (VertexWord.decode v.word).isMiniFetch = true <;> simp [Option.filter, hm]
  · rw [if_neg hword, if_neg hword]
    rfl

theorem Visit.of_vertexWord? {v : Visit} {op : VertexWord} (h : v.vertexWord? = some op) :
    (v.isFetch = true ∧ opcodeBits v.word = Opcode.vertexFetch.code) ∧ VertexWord.decode v.word = op := by
  unfold vertexWord? at h
  split at h
  case isTrue hword => exact ⟨hword, Option.some.inj h⟩
  case isFalse => cases h

private theorem Visit.isMiniFetch_of_fullFetch? {v : Visit} {full : VertexWord} (h : v.fullFetch? = some full) :
    v.isMiniFetch = false := by
  obtain ⟨hword, hm⟩ := Option.filter_eq_some_iff.mp h
  rw [isMiniFetch, hword]
  simpa using hm

private theorem lastFullFetch_concat (before : List Visit) (v : Visit) :
    lastFullFetch (before ++ [v]) = v.remember (lastFullFetch before) := by
  have hlast : ([v].filterMap Visit.fullFetch?).getLast? = v.fullFetch? := by
    cases h : v.fullFetch? <;> simp [h]
  rw [lastFullFetch, List.filterMap_append, List.getLast?_append, hlast, v.remember_eq_or, lastFullFetch]

/-- The full fetch that a pass remembers is the last one it has visited. -/
theorem rememberAll_lastFullFetch (before vs : List Visit) :
    rememberAll (lastFullFetch before) vs = lastFullFetch (before ++ vs) := by
  induction vs generalizing before with
  | nil => rw [List.append_nil]; rfl
  | cons v vs ih =>
    have hrest := ih (before ++ [v])
    rw [lastFullFetch_concat, List.append_assoc, List.singleton_append] at hrest
    exact hrest

private theorem vertexOutcomes_append (before vs vs' : List Visit) :
    vertexOutcomes before (vs ++ vs') = vertexOutcomes before vs ++ vertexOutcomes (before ++ vs) vs' := by
  induction vs generalizing before with
  | nil => rw [List.append_nil]; rfl
  | cons v vs ih =>
    rw [List.cons_append, vertexOutcomes, vertexOutcomes, ih, List.append_assoc, List.append_assoc,
      List.singleton_append]

/-- The outcomes are what the walk decodes, each word with the full fetch that is remembered there. -/
private theorem collect_vertexWord? (before vs : List Visit) :
    collect (fun last v => (v.vertexWord?.map fun op => op.resolve last v.address).toList) (lastFullFetch before) vs =
      vertexOutcomes before vs := by
  induction vs generalizing before with
  | nil => rfl
  | cons v vs ih =>
    rw [collect, vertexOutcomes, ← lastFullFetch_concat, ih]
    simp only [VertexWord.resolve_eq_outcome]

/-! What is told of vertex fetches. -/

/-- What a notice says that a vertex fetch comes to. -/
def Notice.vertexOutcome? : Notice → Option (Except DecodeError VertexFetch)
  | event (.vertexFetch f) => some (.ok f)
  | error (.undecodable .miniFetchWithoutFullFetch) => some (.error .miniFetchWithoutFullFetch)
  | error (.undecodable (.invalidVertexFormat n)) => some (.error (.invalidVertexFormat n))
  | _ => none

def Diagnostic.vertexError? : Diagnostic → Option DecodeError
  | undecodable .miniFetchWithoutFullFetch => some .miniFetchWithoutFullFetch
  | undecodable (.invalidVertexFormat n) => some (.invalidVertexFormat n)
  | _ => none

private theorem Notice.seesWordsOnly_vertexOutcome? : SeesWordsOnly vertexOutcome? := by
  intro n hn
  cases n with
  | event e => cases e <;> first | rfl | cases hn
  | error d =>
    cases d with
    | undecodable e => cases e <;> first | rfl | cases hn
    | _ => rfl
  | _ => rfl

private theorem Notice.defect?_vertexOutcome? (n : Notice) :
    n.vertexOutcome?.bind defect? = n.error?.bind Diagnostic.vertexError? := by
  cases n with
  | event e => cases e <;> rfl
  | error d =>
    cases d with
    | undecodable e => cases e <;> rfl
    | _ => rfl
  | _ => rfl

private theorem Visit.vertexOutcome?_told (stage : Stage) (last : Option VertexWord) (v : Visit) :
    (v.told stage last).filterMap Notice.vertexOutcome? =
      (v.vertexWord?.map fun op => op.resolve last v.address).toList := by
  unfold vertexWord?
  by_cases hfetch : v.isFetch = true
  · by_cases hcode : opcodeBits v.word = Opcode.vertexFetch.code
    · rw [v.told_of_vertexFetch stage last hfetch hcode, if_pos ⟨hfetch, hcode⟩, Option.map_some]
      cases hresolve : (VertexWord.decode v.word).resolve last v.address with
      | ok f => rfl
      | error e => rcases VertexWord.error_of_resolve hresolve with ⟨-, -, rfl⟩ | rfl <;> rfl
    · rw [v.told_of_textureFetch stage last hfetch hcode, if_neg fun h => hcode h.2]
      cases hresolve : (TextureWord.decode v.word).resolve v.address with
      | ok f => rfl
      | error e =>
        rw [TextureWord.error_of_resolve hresolve]
        rfl
  · rw [v.told_of_alu stage last hfetch, if_neg fun h => hfetch h.1]
    show _ = []
    rw [List.filterMap_eq_nil_iff]
    intro n hn
    rcases mem_halfNotices hn with ⟨e, he, rfl⟩ | ⟨i, -, rfl⟩
    · rcases Alu.Word.error_of_halves he with rfl | rfl | rfl <;> rfl
    · rfl

/-! Bindings. -/

theorem vertexFetchesOf_eq (before vs : List Visit) :
    vertexFetchesOf (lastFullFetch before) vs = (vertexOutcomes before vs).filterMap Except.toOption := by
  rw [← collect_vertexWord?, collect_filterMap, vertexFetchesOf]
  congr 1
  funext last v
  unfold Visit.vertexFetch? Visit.vertexWord?
  split
  · rw [Option.map_some]
    cases (VertexWord.decode v.word).resolve last v.address <;> rfl
  · rfl

namespace Bindings

/-- After any number of visits, gathering holds the last full fetch among them and the bindings of their outcomes. -/
theorem gather_visits (vs : List Visit) :
    (gather (vs.filter Visit.isFetch)).lastFull = lastFullFetch vs ∧
      (gather (vs.filter Visit.isFetch)).vertex =
        bindingsOf (((vertexOutcomes [] vs).filterMap Except.toOption).filter VertexFetch.writesAny) := by
  obtain ⟨hagree, hlast⟩ := agree_gather_visits vs
  refine ⟨hlast.trans (rememberAll_lastFullFetch [] vs), ?_⟩
  rw [← vertexFetchesOf_eq]
  exact hagree.vertex

end Bindings

/-! Mini fetches without a full fetch. -/

/-- The mini fetches that no full fetch comes before. -/
def orphans (vs : List Visit) : List Visit :=
  (vs.takeWhile fun v => v.fullFetch?.isNone).filter Visit.isMiniFetch

private theorem count_outcome (last : Option VertexWord) (v : Visit) :
    ((v.vertexWord?.map fun op => op.outcome last v.address).toList.filterMap defect?).count
        .miniFetchWithoutFullFetch =
      if v.isMiniFetch = true ∧ last = none then 1 else 0 := by
  have hcount (x : Except DecodeError VertexFetch) (e : DecodeError) :
      ([x].filterMap defect?).count e = if x = .error e then 1 else 0 := by
    cases x with
    | ok f => exact (if_neg nofun).symm
    | error d => by_cases h : d = e <;> simp [defect?, h]
  unfold Visit.isMiniFetch
  cases v.vertexWord? with
  | none => simp
  | some op =>
    rw [Option.map_some, Option.toList_some, hcount, ← VertexWord.resolve_eq_outcome]
    simp only [VertexWord.resolve_eq_missing_iff, Option.any_some]

/-- Each of them is one error, and nothing else is. -/
private theorem count_orphans (before vs : List Visit) :
    ((vertexOutcomes before vs).filterMap defect?).count .miniFetchWithoutFullFetch =
      if lastFullFetch before = none then (orphans vs).length else 0 := by
  induction vs generalizing before with
  | nil => simp [vertexOutcomes, orphans]
  | cons v vs ih =>
    rw [vertexOutcomes, List.filterMap_append, List.count_append, ih, lastFullFetch_concat, count_outcome,
      v.remember_eq_or]
    -- once a full fetch has been visited no error of this sort can follow
    cases lastFullFetch before with
    | some full => simp
    | none =>
      cases hfull : v.fullFetch? with
      | some full => simp [orphans, hfull, Visit.isMiniFetch_of_fullFetch? hfull]
      | none =>
        by_cases hm : v.isMiniFetch = true
        · simp [orphans, hfull, hm, Nat.add_comm]
        · simp [orphans, hfull, hm]

/-! The translation. -/

namespace Shader

variable {σ : Type}

theorem visitsSeen_vertexOutcome? (shader : Shader) :
    shader.visitsSeen Notice.vertexOutcome? =
      vertexOutcomes [] ((Program.read shader.words).visits shader.words) := by
  rw [← collect_vertexWord?, visitsSeen, Schedule.seenOf]
  congr 1
  funext last v
  exact v.vertexOutcome?_told shader.stage last

private theorem count_vertexError? (ds : List Diagnostic) :
    (ds.filterMap Diagnostic.vertexError?).count .miniFetchWithoutFullFetch =
      ds.count (.undecodable .miniFetchWithoutFullFetch) := by
  rw [List.count_eq_countP, List.count_eq_countP, List.countP_filterMap]
  congr 1
  funext d
  cases d with
  | undecodable e => cases e <;> rfl
  | _ => rfl

theorem vertexErrors_translate (shader : Shader) (b : Backend σ) (settings : TranslatorSettings) (s : σ) :
    (shader.translate b settings s).shader.errors.filterMap Diagnostic.vertexError? =
      ((shader.notices b settings s).filterMap Notice.vertexOutcome?).filterMap defect? := by
  have hfilter (ds : List Diagnostic) :
      (ds.filter fun d => d.vertexError?.isSome).filterMap Diagnostic.vertexError? =
        ds.filterMap Diagnostic.vertexError? := by
    rw [List.filterMap_filter]
    congr 1
    funext d
    cases d.vertexError? <;> rfl
  have herrors := filter_errors_translate (p := fun d => d.vertexError?.isSome) (fun _ => rfl) shader b settings s
  rw [← hfilter, herrors, hfilter, List.filterMap_filterMap, List.filterMap_filterMap]
  congr 1
  funext n
  exact n.defect?_vertexOutcome?.symm

/-- In every run a mini fetch comes to what the full fetch that it abbreviates comes to, for the walk and for the
bindings alike. Each mini fetch before any full one is an error and nothing else. -/
theorem miniFetches_completed_by_last_full (shader : Shader) (b : Backend σ) (settings : TranslatorSettings) (s : σ) :
    let visits := (Program.read shader.words).visits shader.words
    let outcomes := vertexOutcomes [] visits
    let told := (shader.notices b settings s).filterMap Notice.vertexOutcome?
    let left := (shader.translate b settings s).shader
    told <+: outcomes ∧ (shader.NeverAborts b settings s → told = outcomes) ∧
      left.errors.filterMap Diagnostic.vertexError? = told.filterMap defect? ∧
      left.vertexBindings =
        bindingsOf ((outcomes.filterMap Except.toOption).filter VertexFetch.writesAny) ∧
      (∀ before v after op, visits = before ++ v :: after → v.vertexWord? = some op →
        let outcome := op.outcome (lastFullFetch before) v.address
        let earlier := before.filter Visit.isFetch
        outcomes = vertexOutcomes [] before ++ outcome :: vertexOutcomes (before ++ [v]) after ∧
          v.told shader.stage (rememberAll none before) = [.ofDecoded .vertexFetch outcome] ∧
          (Program.read shader.words).fetches shader.words = earlier ++ v :: after.filter Visit.isFetch ∧
          op.resolve (Bindings.gather earlier).lastFull v.address = outcome) ∧
      (∀ op other full : VertexWord, op.isMiniFetch = true → other.isMiniFetch = true →
        op.completedBy full = other.completedBy full →
        ∀ last address, op.resolve last address = other.resolve last address) ∧
      (shader.NeverAborts b settings s →
        left.errors.count (.undecodable .miniFetchWithoutFullFetch) = (orphans visits).length) := by
  intro visits outcomes told left
  have hseen : shader.visitsSeen Notice.vertexOutcome? = outcomes := shader.visitsSeen_vertexOutcome?
  have hbegins : told <+: outcomes := by
    rw [← hseen]
    exact shader.seen_prefix b settings s Notice.seesWordsOnly_vertexOutcome?
  have hall (h : shader.NeverAborts b settings s) : told = outcomes := by
    rw [← hseen]
    exact shader.seen_eq b settings s Notice.seesWordsOnly_vertexOutcome? h
  have herrors : left.errors.filterMap Diagnostic.vertexError? = told.filterMap defect? :=
    shader.vertexErrors_translate b settings s
  refine ⟨hbegins, hall, herrors, ?_, fun before v after op hsplit hword => ?_,
    fun op other full hm hother h last address => VertexWord.resolve_congr hm hother h, fun h => ?_⟩
  · have hgathered := (Bindings.gather_visits visits).2
    rw [← Program.fetches_eq_filter] at hgathered
    exact (vertexBindings_translate ..).trans hgathered
  · obtain ⟨⟨hfetch, hcode⟩, rfl⟩ := Visit.of_vertexWord? hword
    refine ⟨?_, ?_, ?_, ?_⟩
    · have hhead : vertexOutcomes before (v :: after) =
          (VertexWord.decode v.word).outcome (lastFullFetch before) v.address
            :: vertexOutcomes (before ++ [v]) after := by
        rw [vertexOutcomes, hword]
        rfl
      unfold outcomes
      rw [hsplit, vertexOutcomes_append, List.nil_append, hhead]
    · have hlast : rememberAll none before = lastFullFetch before := rememberAll_lastFullFetch [] before
      rw [v.told_of_vertexFetch shader.stage _ hfetch hcode, VertexWord.resolve_eq_outcome, hlast]
    · have hfilter : (Program.read shader.words).fetches shader.words = visits.filter Visit.isFetch :=
        Program.fetches_eq_filter ..
      rw [hfilter, hsplit, List.filter_append, List.filter_cons_of_pos hfetch]
    · rw [(Bindings.gather_visits before).1, VertexWord.resolve_eq_outcome]
  · rw [← count_vertexError?, herrors, hall h]
    exact count_orphans [] visits

theorem miniFetches_of_orphan_full_mini :
    let orphan : Visit := ⟨1, true, 0x900000, 0x40390688, 0x207⟩
    let full : Visit := ⟨2, true, 0x2400000, 0x390688, 3⟩
    let mini : Visit := ⟨3, true, 0x900000, 0x40390688, 0x207⟩
    let shader := Shader.new .vertex
      #[0x153001, 0x2000, 0, 0x900000, 0x40390688, 0x207, 0x2400000, 0x390688, 3, 0x900000, 0x40390688, 0x207]
    let translated := (shader.translate .silent ⟨.proceed, false⟩ ()).shader
    shader.NeverAborts .silent ⟨.proceed, false⟩ () ∧
      (Program.read shader.words).visits shader.words = [orphan, full] ++ mini :: [] ∧
      (Bindings.gather [orphan, full]).lastFull = some (.decode full.word) ∧
      (VertexWord.decode mini.word).resolve (some (.decode full.word)) mini.address =
        (VertexWord.decode mini.word).outcome (lastFullFetch [orphan, full]) mini.address ∧
      translated.errors.count (.undecodable .miniFetchWithoutFullFetch) = (orphans [orphan, full, mini]).length ∧
      (orphans [orphan, full, mini]).length = 1 := by
  intro orphan full mini shader translated
  have h : shader.NeverAborts .silent ⟨.proceed, false⟩ () := shader.neverAborts_silent false
  have hvisits : (Program.read shader.words).visits shader.words = [orphan, full] ++ mini :: [] := by decide +kernel
  have hgather : (Bindings.gather [orphan, full]).lastFull = some (.decode full.word) := by decide +kernel
  obtain ⟨-, -, -, -, hparse, -, hcount⟩ :=
    miniFetches_completed_by_last_full shader .silent ⟨.proceed, false⟩ ()
  have hmini := (hparse [orphan, full] mini [] (.decode mini.word) hvisits (by decide +kernel)).2.2.2
  have hcount' := hcount h
  rw [hvisits] at hcount'
  exact ⟨h, hvisits, hgather, hgather ▸ hmini, hcount', by decide +kernel⟩

end Shader

end ShaderMicrocode
