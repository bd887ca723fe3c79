import Mathlib.Data.List.Induction
import ShaderMicrocode.Proofs.BoundTextures
import ShaderMicrocode.Proofs.Containment
import ShaderMicrocode.Proofs.LineCounts
import ShaderMicrocode.Proofs.Payloads
/-!
# Counters

A translation numbers bindings, attributes and instructions, and the counting backend counts what it is shown. None of
these numbers wraps: however long the microcode is, only so many of its words are decoded.
-/
namespace ShaderMicrocode

open ControlFlow Fetch

/-! Attributes. -/

theorem nodup_slotHeads (fetches : List VertexFetch) : ((slotHeads fetches).map VertexFetch.slot).Nodup := by
  induction fetches using List.reverseRecOn with
  | nil => exact List.nodup_nil
  | append_singleton fetches f ih =>
    unfold slotHeads at ih ⊢
    rw [eraseDupsBy_concat]
    split
    case isTrue => exact ih
    case isFalse hnew =>
      rw [List.map_append, List.nodup_append]
      refine ⟨ih, List.nodup_singleton _, fun slot hslot slot' hslot' heq => hnew ?_⟩
      obtain ⟨head, hhead, rfl⟩ := List.mem_map.mp hslot
      obtain rfl := List.mem_singleton.mp hslot'
      exact List.any_eq_true.mpr ⟨head, hhead, beq_iff_eq.mpr heq.symm⟩

private theorem length_flatMap_append {α β : Type} (as : List α) (f g : α → List β) :
    (as.flatMap fun a => f a ++ g a).length = (as.flatMap f).length + (as.flatMap g).length := by
  induction as with
  | nil => rfl
  | cons a as ih =>
    simp only [List.flatMap_cons, List.length_append, ih]
    omega

private theorem length_flatMap_single {β : Type} (slots : List UInt32) (slot : UInt32) (x : β) :
    (slots.flatMap fun s => if slot = s then [x] else []).length = slots.count slot := by
  induction slots with
  | nil => rfl
  | cons s slots ih =>
    rw [List.flatMap_cons, List.length_append, ih, List.count_cons, Nat.add_comm]
    by_cases h : slot = s
    · simp [h]
    · simp [h, Ne.symm h]

/-- Every fetch lies in exactly one of the slots, so the slots share out the attributes. -/
theorem length_flatMap_numberedAttributes {slots : List UInt32} (h : slots.Nodup) {kept : List VertexFetch}
    (hkept : ∀ f ∈ kept, f.slot ∈ slots) : (slots.flatMap (numberedAttributes kept)).length = kept.length := by
  induction kept using List.reverseRecOn with
  | nil => exact congrArg List.length (List.flatMap_eq_nil_iff.mpr fun _ _ => rfl)
  | append_singleton kept f ih =>
    have hlast : f.slot ∈ slots := hkept f (List.mem_append_right _ List.mem_cons_self)
    have hrest := ih fun g hg => hkept g (List.mem_append_left _ hg)
    rw [funext (numberedAttributes_concat kept f), length_flatMap_append, hrest, length_flatMap_single,
      List.count_eq_one_of_mem h hlast, List.length_append, List.length_singleton]

theorem Bindings.HasTable.length_attributes {b : Bindings} {heads kept : List VertexFetch} (h : b.HasTable heads kept)
    (hheads : (heads.map VertexFetch.slot).Nodup) :
    (b.vertex.flatMap VertexBinding.attributes).length = kept.length := by
  have hslots : ∀ f ∈ kept, f.slot ∈ heads.map VertexFetch.slot := by
    intro f hf
    obtain ⟨head, hhead, heq⟩ := h.slots f hf
    exact heq ▸ List.mem_map_of_mem hhead
  have hattributes : b.vertex.map VertexBinding.attributes =
      (heads.map VertexFetch.slot).map (numberedAttributes kept) := by
    rw [h.vertex, List.map_map]
    exact List.ext_getElem (by simp [bindingTable]) fun i _ _ => by simp [bindingTable]
  rw [List.flatMap_def, hattributes, ← List.flatMap_def, length_flatMap_numberedAttributes hheads hslots]

private theorem offset_of_mem_vertexFetchesOf {vs : List Visit} {f : VertexFetch} (h : f ∈ vertexFetchesOf none vs) :
    InSigned 23 f.offset := by
  obtain ⟨before, v, after, -, hf⟩ := mem_collect _ _ h
  obtain ⟨op, hword, hresolve⟩ := Visit.resolve_of_vertexFetch? (Option.mem_toList.mp hf)
  obtain ⟨base, format, -, rfl⟩ := VertexWord.ok_resolve hresolve
  rw [← (Visit.of_vertexWord? hword).2]
  exact (VertexWord.inRange_decode v.word).offset

/-! Numbers of bindings. -/

private theorem index_bindingTable {heads kept : List VertexFetch} {i : Nat} {v : VertexBinding}
    (h : (bindingTable heads kept)[i]? = some v) : i < heads.length ∧ v.index = UInt32.ofNat i := by
  rw [bindingTable, List.getElem?_mapIdx] at h
  obtain ⟨f, hf, rfl⟩ := Option.map_eq_some_iff.mp h
  exact ⟨(List.getElem?_eq_some_iff.mp hf).1, rfl⟩

private theorem index_textureBindingsOf {bound : List (UInt32 × TextureFetch)} {i : Nat} {t : TextureBinding}
    (h : (textureBindingsOf bound)[i]? = some t) : i < (textureHeads bound).length ∧ t.index = UInt32.ofNat i := by
  rw [textureBindingsOf, List.getElem?_mapIdx] at h
  obtain ⟨x, hx, rfl⟩ := Option.map_eq_some_iff.mp h
  exact ⟨(List.getElem?_eq_some_iff.mp hx).1, rfl⟩

/-! Counted events. -/

/-- The kinds of event that the counting backend counts. -/
inductive EventKind where
  | label
  | execBlock
  | alu
  | vertexFetch
  | textureFetch
deriving DecidableEq

/-- The kinds of event that the words of blocks give rise to. -/
def EventKind.concernsWord : EventKind → Bool
  | alu | vertexFetch | textureFetch => true
  | label | execBlock => false

def Event.kind? : Event → Option EventKind
  | label _ => some .label
  | execBegin _ => some .execBlock
  | alu _ => some .alu
  | vertexFetch _ => some .vertexFetch
  | textureFetch _ => some .textureFetch
  | _ => none

namespace Notice

def event? : Notice → Option Event
  | event e => some e
  | _ => none

def ofKind? (kind : EventKind) (n : Notice) : Option Event := n.event?.filter fun e => e.kind? = some kind

private theorem seesWordsOnly_ofKind? {kind : EventKind} (h : kind.concernsWord = true) :
    SeesWordsOnly (ofKind? kind) := by
  intro n hn
  cases n with
  | event e =>
    cases e with
    | label index => cases kind <;> first | rfl | cases h
    | execBegin l => cases kind <;> first | rfl | cases h
    | vertexFetch f => cases hn
    | textureFetch f => cases hn
    | alu i => cases hn
    | _ => rfl
  | _ => rfl

end Notice

namespace EventCounts

def of (c : EventCounts) : EventKind → UInt32
  | .label => c.labels
  | .execBlock => c.execBlocks
  | .alu => c.aluInstructions
  | .vertexFetch => c.vertexFetches
  | .textureFetch => c.textureFetches

private theorem of_zero (kind : EventKind) : zero.of kind = 0 := by cases kind <;> rfl

private theorem of_add (c : EventCounts) (e : Event) (kind : EventKind) :
    (c.add e).of kind = c.of kind + UInt32.ofNat (Notice.ofKind? kind (.event e)).toList.length := by
  cases e with
  | label index => cases kind <;> first | rfl | exact (UInt32.add_zero _).symm
  | execBegin l => cases kind <;> first | rfl | exact (UInt32.add_zero _).symm
  | alu i => cases kind <;> first | rfl | exact (UInt32.add_zero _).symm
  | vertexFetch f => cases kind <;> first | rfl | exact (UInt32.add_zero _).symm
  | textureFetch f => cases kind <;> first | rfl | exact (UInt32.add_zero _).symm
  | _ => exact (UInt32.add_zero _).symm

/-- Counting adds the number of events of each kind to its counter, as far as that can hold it. -/
theorem of_foldl_add (c : EventCounts) (ns : List Notice) (kind : EventKind) :
    ((ns.filterMap Notice.event?).foldl add c).of kind =
      c.of kind + UInt32.ofNat (ns.filterMap (Notice.ofKind? kind)).length := by
  induction ns generalizing c with
  | nil => exact (UInt32.add_zero _).symm
  | cons n ns ih =>
    have hcons : (n :: ns).filterMap (Notice.ofKind? kind) =
        (Notice.ofKind? kind n).toList ++ ns.filterMap (Notice.ofKind? kind) := by
      rw [List.filterMap_cons]
      cases Notice.ofKind? kind n <;> rfl
    rw [hcons, List.length_append, UInt32.ofNat_add, ← UInt32.add_assoc]
    cases n with
    | event e => exact (ih (c.add e)).trans (congrArg (· + _) (c.of_add e kind))
    | _ => exact (ih c).trans (congrArg (· + _) (UInt32.add_zero _).symm)

end EventCounts

theorem Run.state_acts_counting (r : Run EventCounts) (as : List Act) :
    (r.acts .counting as).state = (as.filterMap Act.event?).foldl EventCounts.add r.state := by
  induction as generalizing r with
  | nil => rfl
  | cons a as ih =>
    rw [acts_cons, ih]
    cases a <;> rfl

namespace Shader

/-- The counting backend is left with the counts of all that it was shown. -/
theorem state_counting (shader : Shader) (settings : TranslatorSettings) (counts : EventCounts) :
    (shader.translate .counting settings counts).state =
      ((shader.notices .counting settings counts).filterMap Notice.event?).foldl EventCounts.add .zero := by
  obtain ⟨as, h⟩ := shader.performs .counting settings counts
  have hstate : (shader.walked .counting settings counts).state =
      ((shader.opened .counting settings counts).acts .counting (shader.plan.opening ++ as)).state := by
    have huntraced := congrArg Run.state (shader.untraced_walked .counting settings (.new counts))
    have hacts := congrArg Run.state ((shader.opened Backend.counting.traced settings (.new counts)).untraced_acts
      .counting (shader.plan.opening ++ as))
    exact huntraced.symm.trans ((congrArg Traced.inner h.trace).trans hacts)
  have hreset : Notice.event? .reset = none := rfl
  have hstart : Notice.event? (.event .start) = some .start := rfl
  have hcomplete : Notice.event? .complete = none := rfl
  have hfaults : (shader.plan.faults.map Notice.error).filterMap Notice.event? = [] := by
    rw [List.filterMap_map]
    exact List.filterMap_eq_nil_iff.mpr fun _ _ => rfl
  have hevents : (as.filterMap Act.notice?).filterMap Notice.event? = as.filterMap Act.event? := by
    rw [List.filterMap_filterMap]
    congr 1
    funext a
    cases a <;> rfl
  show (shader.walked .counting settings counts).state = _
  rw [hstate, Run.state_acts_counting, List.filterMap_append, Schedule.events_opening, h.notices]
  simp only [List.filterMap_append, List.filterMap_cons, hreset, hstart, hcomplete, hfaults, hevents,
    List.filterMap_nil, List.append_nil, List.cons_append, List.nil_append]
  rfl

theorem toNat_counting {shader : Shader} {settings : TranslatorSettings} {counts : EventCounts} {kind : EventKind}
    (hlt : ((shader.notices .counting settings counts).filterMap (Notice.ofKind? kind)).length < UInt32.size) :
    ((shader.translate .counting settings counts).state.of kind).toNat =
      ((shader.notices .counting settings counts).filterMap (Notice.ofKind? kind)).length := by
  rw [state_counting, EventCounts.of_foldl_add, EventCounts.of_zero, UInt32.zero_add, UInt32.toNat_ofNat_of_lt' hlt]

end Shader

/-! Events of words. -/

private theorem length_halfNotices (halves : List (Except DecodeError Alu.Instruction)) :
    (halfNotices halves).length = halves.length := by
  rw [halfNotices, List.length_append]
  induction halves with
  | nil => rfl
  | cons half halves ih =>
    cases half with
    | ok i =>
      simp only [List.filterMap_cons, List.length_cons]
      omega
    | error d =>
      simp only [List.filterMap_cons, List.length_cons]
      omega

theorem Visit.length_told_le (stage : Stage) (last : Option VertexWord) (v : Visit) :
    (v.told stage last).length ≤ 2 := by
  by_cases hfetch : v.isFetch = true
  · by_cases hcode : opcodeBits v.word = Opcode.vertexFetch.code
    · rw [v.told_of_vertexFetch stage last hfetch hcode, List.length_singleton]
      decide
    · rw [v.told_of_textureFetch stage last hfetch hcode, List.length_singleton]
      decide
  · rw [v.told_of_alu stage last hfetch, length_halfNotices]
    exact ((Alu.Word.decode v.word).length_halves stage v.address).2

/-! Events of control flow. -/

namespace Schedule

variable {β : Type} {g : Notice → Option β} (stage : Stage) (words : Array UInt32) (labels : List UInt32)

/-- To an observer that overlooks words and ends of blocks, an instruction is its label and its own event. -/
private theorem seen_step_of_heads (hword : ∀ a : Act, a.IsOfWord → a.notice?.bind g = none)
    (hend : ∀ e, g (.event (.execEnd e)) = none) (last : Option VertexWord) (index : UInt32) (w : Word) :
    (step stage words labels last index w).acts.filterMap (fun a => a.notice?.bind g) =
      (labelActs labels index).filterMap (fun a => a.notice?.bind g) ++
        ((ownAct stage index w).notice?.bind g).toList := by
  have hwords : (wordActs stage words last w).flatten.filterMap (fun a => a.notice?.bind g) = [] := by
    rw [List.filterMap_eq_nil_iff]
    intro a ha
    obtain ⟨word, hmem, ha⟩ := List.mem_flatten.mp ha
    exact hword a (isOfWord_wordActs stage words last w word hmem a ha)
  have hclosing : (endActs stage index w).filterMap (fun a => a.notice?.bind g) = [] := by
    unfold endActs
    split
    · exact List.filterMap_eq_nil_iff.mpr fun a ha => by rw [List.mem_singleton.mp ha]; exact hend _
    · rfl
  have hown : [.announce index w.opcode, .print (ownLine stage index w), ownAct stage index w].filterMap
      (fun a => a.notice?.bind g) = ((ownAct stage index w).notice?.bind g).toList := by
    rw [List.filterMap_cons_none rfl, List.filterMap_cons_none rfl, List.filterMap_cons]
    cases (ownAct stage index w).notice?.bind g <;> rfl
  rw [step_eq, Step.acts]
  simp only [List.filterMap_append, hwords, hclosing, hown, List.append_nil]

/-- An observer that sees at most one thing of each instruction sees no more things than there are instructions. -/
private theorem length_seen_walk_le {f : Act → Option β}
    (hstep : ∀ last index w, ((step stage words labels last index w).acts.filterMap f).length ≤ 1)
    (last : Option VertexWord) (k : Nat) (ws : List Word) :
    (((walk stage words labels last k ws).flatMap Step.acts).filterMap f).length ≤ ws.length := by
  induction ws generalizing last k with
  | nil => exact Nat.le_refl _
  | cons w ws ih =>
    rw [walk, List.flatMap_cons, List.filterMap_append, List.length_append, List.length_cons, Nat.add_comm]
    exact Nat.add_le_add (ih _ _) (hstep _ _ _)

private theorem length_kind_step_le {kind : EventKind} (h : kind.concernsWord = false) (last : Option VertexWord)
    (index : UInt32) (w : Word) :
    ((step stage words labels last index w).acts.filterMap
      fun a => a.notice?.bind (Notice.ofKind? kind)).length ≤ 1 := by
  have hword : ∀ a : Act, a.IsOfWord → a.notice?.bind (Notice.ofKind? kind) = none := by
    intro a ha
    cases a with
    | present e =>
      cases e with
      | vertexFetch f => cases kind <;> first | rfl | cases h
      | textureFetch f => cases kind <;> first | rfl | cases h
      | alu i => cases kind <;> first | rfl | cases h
      | _ => cases ha
    | _ => rfl
  rw [seen_step_of_heads stage words labels hword fun _ => rfl]
  cases kind with
  | label =>
    have hown : (ownAct stage index w).notice?.bind (Notice.ofKind? .label) = none := by
      unfold ownAct
      cases w.resolve index stage with
      | ok i => cases i <;> rfl
      | error e => rfl
    rw [hown]
    unfold labelActs
    split
    · exact Nat.le_refl _
    · exact Nat.zero_le _
  | execBlock =>
    have hlabels : (labelActs labels index).filterMap (fun a => a.notice?.bind (Notice.ofKind? .execBlock)) = [] := by
      unfold labelActs
      split <;> rfl
    rw [hlabels, List.nil_append]
    cases (ownAct stage index w).notice?.bind (Notice.ofKind? .execBlock) <;> simp
  | _ => cases h

end Schedule

namespace Shader

variable {σ β : Type} (shader : Shader) (b : Backend σ) (settings : TranslatorSettings) (s : σ)

/-- Both halves of a word may be shown. -/
theorem length_kind_le_of_word {kind : EventKind} (h : kind.concernsWord = true) :
    ((shader.notices b settings s).filterMap (Notice.ofKind? kind)).length ≤ 2 * 57330 :=
  calc ((shader.notices b settings s).filterMap (Notice.ofKind? kind)).length
      ≤ (shader.visitsSeen (Notice.ofKind? kind)).length :=
        (shader.seen_prefix b settings s (Notice.seesWordsOnly_ofKind? h)).length_le
    _ ≤ 2 * ((Program.read shader.words).visits shader.words).length :=
        length_collect_le none
          (fun last v => Nat.le_trans (List.length_filterMap_le _ _) (v.length_told_le shader.stage last)) _
    _ ≤ 2 * 57330 := Nat.mul_le_mul_left 2 (Program.length_visits_read_le shader.words)

/-- No instruction has two labels or begins two blocks. -/
theorem length_kind_le_of_controlFlow {kind : EventKind} (h : kind.concernsWord = false) :
    ((shader.notices b settings s).filterMap (Notice.ofKind? kind)).length ≤ (Program.read shader.words).length := by
  obtain ⟨as, hperforms⟩ := shader.performs b settings s
  have hreset : Notice.ofKind? kind .reset = none := rfl
  have hstart : Notice.ofKind? kind (.event .start) = none := rfl
  have hcomplete : Notice.ofKind? kind .complete = none := rfl
  have hfaults : (shader.plan.faults.map Notice.error).filterMap (Notice.ofKind? kind) = [] := by
    rw [List.filterMap_map]
    exact List.filterMap_eq_nil_iff.mpr fun _ _ => rfl
  have hseen : (shader.notices b settings s).filterMap (Notice.ofKind? kind) =
      as.filterMap fun a => a.notice?.bind (Notice.ofKind? kind) := by
    rw [hperforms.notices]
    simp only [List.filterMap_append, List.filterMap_cons, hreset, hstart, hcomplete, hfaults, List.filterMap_filterMap,
      List.filterMap_nil, List.append_nil, List.nil_append]
  rw [hseen]
  exact Nat.le_trans (hperforms.cut.sublist.filterMap _).length_le
    (Schedule.length_seen_walk_le _ _ _ (Schedule.length_kind_step_le _ _ _ h) none 0 _)

/-! Bindings. -/

/-- The vertex fetches that bind their slot, those that an abort may keep from being shown among them. -/
private def bindingFetches : List VertexFetch :=
  (vertexFetchesOf none ((Program.read shader.words).visits shader.words)).filter VertexFetch.writesAny

private theorem agree_plan : shader.plan.bindings.Agree shader.bindingFetches :=
  Bindings.agree_gather shader.words (Program.read shader.words)

private theorem length_bindingFetches_le : shader.bindingFetches.length ≤ 57330 :=
  calc shader.bindingFetches.length
      ≤ (vertexFetchesOf none ((Program.read shader.words).visits shader.words)).length := List.length_filter_le _ _
    _ ≤ ((Program.read shader.words).visits shader.words).length := length_vertexFetchesOf_le _ _
    _ ≤ 57330 := Program.length_visits_read_le shader.words

theorem toNat_attributeCount_plan :
    shader.plan.bindings.attributeCount.toNat =
        (shader.plan.bindings.vertex.flatMap VertexBinding.attributes).length ∧
      shader.plan.bindings.attributeCount.toNat ≤ 57330 := by
  have hagree := shader.agree_plan
  have hle : (attributeHeads shader.bindingFetches).length ≤ 57330 :=
    Nat.le_trans (length_eraseDupsBy_le _ _) shader.length_bindingFetches_le
  have hcount : shader.plan.bindings.attributeCount.toNat = (attributeHeads shader.bindingFetches).length := by
    rw [hagree.attributeCount, UInt32.toNat_ofNat_of_lt' (Nat.lt_of_le_of_lt hle (by decide))]
  rw [Bindings.HasTable.length_attributes hagree (nodup_slotHeads _), hcount]
  exact ⟨rfl, hle⟩

theorem toNat_index_vertex {i : Nat} {v : VertexBinding} (h : shader.plan.bindings.vertex[i]? = some v) :
    v.index.toNat = i := by
  rw [shader.agree_plan.vertex] at h
  obtain ⟨hi, hindex⟩ := index_bindingTable h
  have hle : (slotHeads shader.bindingFetches).length ≤ 57330 :=
    Nat.le_trans (length_eraseDupsBy_le _ _) shader.length_bindingFetches_le
  rw [hindex, UInt32.toNat_ofNat_of_lt' (Nat.lt_trans (Nat.lt_of_lt_of_le hi hle) (by decide))]

theorem toNat_index_texture {i : Nat} {t : TextureBinding} (h : shader.plan.bindings.texture[i]? = some t) :
    t.index.toNat = i := by
  have hbinds := Bindings.binds_gather shader.words (Program.read shader.words)
  rw [show shader.plan.bindings.texture = _ from hbinds.texture] at h
  obtain ⟨hi, hindex⟩ := index_textureBindingsOf h
  have hle : (textureHeads (((Program.read shader.words).visits shader.words).filterMap Visit.bound?)).length ≤ 57330 :=
    calc (textureHeads (((Program.read shader.words).visits shader.words).filterMap Visit.bound?)).length
        ≤ (((Program.read shader.words).visits shader.words).filterMap Visit.bound?).length := length_eraseDupsBy_le _ _
      _ ≤ ((Program.read shader.words).visits shader.words).length := List.length_filterMap_le _ _
      _ ≤ 57330 := Program.length_visits_read_le shader.words
  rw [hindex, UInt32.toNat_ofNat_of_lt' (Nat.lt_trans (Nat.lt_of_lt_of_le hi hle) (by decide))]

theorem isExact_of_mem_attributes {v : VertexBinding} (hv : v ∈ shader.plan.bindings.vertex) {a : VertexAttribute}
    (ha : a ∈ v.attributes) : a.IsExact := by
  rw [shader.agree_plan.vertex] at hv
  rw [(mem_bindingTable hv).2] at ha
  obtain ⟨x, hx, rfl⟩ := List.mem_map.mp ha
  have hkept : x.1 ∈ attributeHeads shader.bindingFetches := List.fst_mem_of_mem_zipIdx (List.mem_of_mem_filter hx)
  have hfetch := List.mem_of_mem_filter (mem_of_mem_eraseDupsBy hkept)
  exact VertexAttribute.isExact_of_inSigned (offset_of_mem_vertexFetchesOf hfetch)

/-! The walk. -/

theorem toNat_index_step (h : (Program.read shader.words).length < UInt32.size) {k : Nat} {step : Step}
    (hk : shader.plan.steps[k]? = some step) :
    step.index.toNat = k ∧ controlFlowOffset step.index = k / 2 * 3 + k % 2 ∧
      controlFlowOffset step.index < shader.words.size := by
  let p := Program.read shader.words
  have hwalk := Schedule.walk_getElem? shader.stage shader.words p.labels none 0 p.instructions k
  rw [show (Schedule.walk shader.stage shader.words p.labels none 0 p.instructions)[k]? = some step from hk] at hwalk
  obtain ⟨w, hw, rfl⟩ := Option.map_eq_some_iff.mp hwalk.symm
  have hlt : k < p.length := (List.getElem?_eq_some_iff.mp hw).1
  have hsize := Program.length_readFrom_inside shader.words 0 shader.words.size (Nat.zero_le _)
  have hindex : (UInt32.ofNat (0 + k)).toNat = k := by
    rw [Nat.zero_add, UInt32.toNat_ofNat_of_lt' (Nat.lt_trans hlt h)]
  rw [Schedule.step_eq]
  dsimp only
  rw [controlFlowOffset, hindex]
  refine ⟨rfl, rfl, ?_⟩
  change 2 * 0 + 3 * p.length ≤ _ at hsize
  omega

/-! The translation. -/

/-- No arithmetic of a translation leaves its type. Fields are cut out of words by shifts that lose nothing, and what is
computed of them is exact. Bindings and attributes are numbered without a gap. However long the microcode is, only so
many of its words are decoded, so the counts of what is shown of them are exact; those of labels and blocks are, like
the numbers of instructions, as long as the program has fewer instructions than a word can number. -/
theorem arithmetic_exact (shader : Shader) (b : Backend σ) (settings : TranslatorSettings) (s : σ) :
    let p := Program.read shader.words
    let left := (shader.translate b settings s).shader
    (∀ f ∈ ControlFlow.fields ++ Fetch.fields ++ Alu.fields, f.IsExact) ∧
      (∀ t : Triple, t.IsExact shader.stage) ∧
      (∀ w ∈ p.instructions, ∀ e, w.layout = .exec e → ∀ i < e.count.toNat, e.IsExactAt i) ∧
      (∀ v ∈ left.vertexBindings, ∀ a ∈ v.attributes, a.IsExact) ∧
      (∀ (i : Nat) (v : VertexBinding), left.vertexBindings[i]? = some v → v.index.toNat = i) ∧
      (∀ (i : Nat) (t : TextureBinding), left.textureBindings[i]? = some t → t.index.toNat = i) ∧
      (∀ c, .call c ∈ shader.requests b settings s →
        c.view.attributeCount.toNat = (left.vertexBindings.flatMap VertexBinding.attributes).length ∧
          c.view.attributeCount.toNat ≤ 57330) ∧
      p.instructions.countP Word.namesWords ≤ 8190 ∧
      (p.visits shader.words).length ≤ 57330 ∧
      (p.fetches shader.words).length ≤ 57330 ∧
      (∀ counts kind, kind.concernsWord = true ∨ p.length < UInt32.size →
        ((shader.translate .counting settings counts).state.of kind).toNat =
          ((shader.notices .counting settings counts).filterMap (Notice.ofKind? kind)).length) ∧
      (p.length < UInt32.size → ∀ k step, shader.plan.steps[k]? = some step →
        step.index.toNat = k ∧ controlFlowOffset step.index = k / 2 * 3 + k % 2 ∧
          controlFlowOffset step.index < shader.words.size) := by
  intro p left
  have hvertex : left.vertexBindings = shader.plan.bindings.vertex := shader.vertexBindings_translate b settings s
  have htexture : left.textureBindings = shader.plan.bindings.texture := shader.textureBindings_translate b settings s
  have hfetches : (p.fetches shader.words).length ≤ 57330 := by
    rw [Program.fetches_eq_filter]
    exact Nat.le_trans (List.length_filter_le _ _) (Program.length_visits_read_le shader.words)
  rw [hvertex, htexture]
  refine ⟨fun _ hf => isExact_of_mem_fields hf, fun t => t.isExact shader.stage,
    fun w _ e he i hi => (ExecLayout.fits_of_layout he).isExactAt hi,
    fun v hv a ha => shader.isExact_of_mem_attributes hv ha,
    fun i v hv => shader.toNat_index_vertex hv, fun i t ht => shader.toNat_index_texture ht, fun c hc => ?_,
    Program.countP_namesWords_le shader.words, Program.length_visits_read_le shader.words, hfetches,
    fun counts kind h => toNat_counting ?_, fun h k step hk => shader.toNat_index_step h hk⟩
  · have hcount : c.view.attributeCount = shader.plan.bindings.attributeCount :=
      congrArg View.attributeCount (shader.seen_of_mem_requests b settings s hc).1
    rw [hcount]
    exact shader.toNat_attributeCount_plan
  · cases hkind : kind.concernsWord with
    | true =>
      exact Nat.lt_of_le_of_lt (shader.length_kind_le_of_word .counting settings counts hkind) (by decide)
    | false =>
      have hlength : p.length < UInt32.size := h.resolve_left (by simp [hkind])
      exact Nat.lt_of_le_of_lt (shader.length_kind_le_of_controlFlow .counting settings counts hkind) hlength

/-- A vertex fetch, a texture fetch and an export to memory. -/
theorem arithmetic_exact_of_block :
    let shader := Shader.new .vertex #[0x53001, 0x2000, 0, 0, 0x390688, 3, 1, 0x688, 0, 0xF8021, 0, 0]
    let p := Program.read shader.words
    let left := (shader.translate .silent ⟨.proceed, false⟩ ()).shader
    let counted := (shader.translate .counting ⟨.proceed, false⟩ .zero).state
    (∃ w ∈ p.instructions, ∃ e, w.layout = .exec e ∧ 2 < e.count.toNat ∧ e.IsExactAt 2) ∧
      (∃ index, Alu.exportTarget? .vertex (Alu.Word.decode ⟨0xF8021, 0, 0⟩).vectorDest = some (.exportData, index) ∧
        index.toNat = 0) ∧
      (∃ v ∈ left.vertexBindings, ∃ a ∈ v.attributes, a.IsExact) ∧
      (∃ v, left.vertexBindings[0]? = some v ∧ v.index.toNat = 0) ∧
      (∃ t, left.textureBindings[0]? = some t ∧ t.index.toNat = 0) ∧
      (∃ c, .call c ∈ shader.requests .silent ⟨.proceed, false⟩ () ∧ c.view.attributeCount.toNat ≤ 57330) ∧
      (∃ step, shader.plan.steps[1]? = some step ∧ step.index.toNat = 1) ∧
      p.length < UInt32.size ∧ (counted.of .execBlock).toNat = 1 ∧ (counted.of .alu).toNat = 2 := by
  intro shader p left counted
  obtain ⟨-, htriples, hexecs, hattributes, hvertex, htexture, hcalls, -, -, -, hcounts, hsteps⟩ :=
    arithmetic_exact shader .silent ⟨.proceed, false⟩ ()
  have hlength : p.length < UInt32.size := by
    rw [show p.length = 2 by decide +kernel]
    decide
  have hexec : (⟨0x53001, 0x2000⟩ : Word) ∈ p.instructions := by decide +kernel
  obtain ⟨bound, hbound, hne⟩ := List.any_eq_true.mp
    (by decide +kernel : left.vertexBindings.any (fun v => !v.attributes.isEmpty) = true)
  obtain ⟨a, ha⟩ := List.exists_mem_of_ne_nil bound.attributes (by simpa using hne)
  obtain ⟨v, hv⟩ := Option.isSome_iff_exists.mp (by decide +kernel : left.vertexBindings[0]?.isSome = true)
  obtain ⟨t, ht⟩ := Option.isSome_iff_exists.mp (by decide +kernel : left.textureBindings[0]?.isSome = true)
  obtain ⟨step, hstep⟩ := Option.isSome_iff_exists.mp (by decide +kernel : shader.plan.steps[1]?.isSome = true)
  have hcall : .call (.complete (shader.walked .silent ⟨.proceed, false⟩ ()).session.view) ∈
      shader.requests .silent ⟨.proceed, false⟩ () := by
    rw [requests_eq]
    exact List.mem_append_right _ List.mem_cons_self
  refine ⟨⟨_, hexec, _, rfl, by decide, hexecs _ hexec _ rfl 2 (by decide)⟩, ⟨0, by decide, ?_⟩,
    ⟨bound, hbound, a, ha, hattributes bound hbound a ha⟩, ⟨v, hv, hvertex 0 v hv⟩, ⟨t, ht, htexture 0 t ht⟩,
    ⟨_, hcall, (hcalls _ hcall).2⟩, ⟨step, hstep, (hsteps hlength 1 step hstep).1⟩, hlength, ?_, ?_⟩
  · exact ((htriples ⟨0xF8021, 0, 0⟩).exportData 0 (by decide)).2.2
  · exact (hcounts .zero .execBlock (.inr hlength)).trans (by decide +kernel)
  · exact (hcounts .zero .alu (.inl rfl)).trans (by decide +kernel)

end Shader

end ShaderMicrocode
