import ShaderMicrocode.Proofs.Accounting
/-!
# Labels

As far as a translation gets, each control flow index that some instruction of the program may send control to is shown
with a label, once and right in front of its instruction. Targets beyond the program have no label; they are errors.
-/
namespace ShaderMicrocode

open ControlFlow

instance (p : Program) (stage : Stage) (target : UInt32) : Decidable (p.IsTarget stage target) :=
  decidable_of_iff _ (p.mem_labels_iff_isTarget stage target)

namespace Program

variable (p : Program) (stage : Stage) {α : Type}

/-- What stands in front of index `k`: its label, if it is a target. -/
def labelOf (label : UInt32 → α) (k : UInt32) : List α := if p.IsTarget stage k then [label k] else []

/-- The lists `parts` for the indices from `k` on, each behind the label of its index. -/
def labelled (label : UInt32 → α) (k : Nat) (parts : List (List α)) : List α :=
  (parts.mapIdx fun j part => p.labelOf stage label (UInt32.ofNat (k + j)) ++ part).flatten

private theorem labelled_cons (label : UInt32 → α) (k : Nat) (part : List α) (parts : List (List α)) :
    p.labelled stage label k (part :: parts) =
      p.labelOf stage label (UInt32.ofNat k) ++ part ++ p.labelled stage label (k + 1) parts := by
  rw [labelled, labelled, List.mapIdx_cons, List.flatten_cons]
  simp only [Nat.add_right_comm k 1, Nat.add_zero, Nat.add_assoc]

/-- What a part of the acts says of each instruction stands behind what it says of the label. -/
private theorem filterMap_labelled {f : Act → Option α} {label : UInt32 → α}
    (hf : ∀ k, (Schedule.labelActs p.labels k).filterMap f = p.labelOf stage label k) (k : Nat)
    (parts : List (List Act)) :
    (parts.mapIdx fun j part => Schedule.labelActs p.labels (UInt32.ofNat (k + j)) ++ part).flatten.filterMap f =
      p.labelled stage label k (parts.map (List.filterMap f)) := by
  induction parts generalizing k with
  | nil => rfl
  | cons part parts ih =>
    rw [List.map_cons, labelled_cons, ← ih (k + 1), ← hf, List.mapIdx_cons, List.flatten_cons]
    simp only [List.filterMap_append, Nat.add_right_comm k 1, Nat.add_zero, Nat.add_assoc]

private theorem notices_labelActs (k : UInt32) :
    (Schedule.labelActs p.labels k).filterMap Act.notice? = p.labelOf stage (fun k => .event (.label k)) k := by
  unfold Schedule.labelActs labelOf
  simp only [p.mem_labels_iff_isTarget stage]
  split <;> rfl

private theorem lines_labelActs (k : UInt32) :
    (Schedule.labelActs p.labels k).filterMap Act.line? = p.labelOf stage labelLine k := by
  unfold Schedule.labelActs labelOf
  simp only [p.mem_labels_iff_isTarget stage]
  split <;> rfl

variable [DecidableEq α] (label : UInt32 → α)

private theorem count_labelOf (hlabel : ∀ k k', label k = label k' → k = k') (k k' : UInt32) :
    (p.labelOf stage label k).count (label k') = if k = k' ∧ p.IsTarget stage k' then 1 else 0 := by
  unfold labelOf
  by_cases hk : k = k'
  · subst hk
    by_cases htarget : p.IsTarget stage k
    · simp [htarget]
    · simp [htarget]
  · have hne : label k ≠ label k' := fun h => hk (hlabel k k' h)
    split <;> simp [hk, hne]

/-- Each of the indices passed is labelled once if it is a target, and no other. -/
theorem count_labelled (hlabel : ∀ k k', label k = label k' → k = k') (target : UInt32) (k : Nat)
    {parts : List (List α)} (hk : k + parts.length ≤ UInt32.size) (hparts : ∀ part ∈ parts, label target ∉ part) :
    (p.labelled stage label k parts).count (label target) =
      if (k ≤ target.toNat ∧ target.toNat < k + parts.length) ∧ p.IsTarget stage target then 1 else 0 := by
  induction parts generalizing k with
  | nil =>
    rw [if_neg fun h => absurd h.1.2 (Nat.not_lt.mpr h.1.1)]
    rfl
  | cons part parts ih =>
    rw [List.length_cons] at hk
    have hindex : (UInt32.ofNat k).toNat = k := UInt32.toNat_ofNat_of_lt' (by omega)
    have hpart : part.count (label target) = 0 := List.count_eq_zero.mpr (hparts part List.mem_cons_self)
    have hrest := ih (k + 1) (by omega) fun part' h => hparts part' (List.mem_cons_of_mem _ h)
    rw [labelled_cons, List.count_append, List.count_append, hpart, hrest, p.count_labelOf stage label hlabel]
    by_cases heq : UInt32.ofNat k = target
    · have hk' : target.toNat = k := heq ▸ hindex
      have hpast : ¬(k + 1 ≤ target.toNat ∧ target.toNat < k + 1 + parts.length) := by omega
      have hhere : k ≤ target.toNat ∧ target.toNat < k + (part :: parts).length := by
        rw [List.length_cons]
        omega
      simp only [heq, hpast, hhere, true_and, false_and, if_false, Nat.add_zero]
    · have hne : target.toNat ≠ k := fun h => heq (UInt32.toNat_inj.mp (hindex.trans h.symm))
      have hiff : (k + 1 ≤ target.toNat ∧ target.toNat < k + 1 + parts.length) ↔
          (k ≤ target.toNat ∧ target.toNat < k + (part :: parts).length) := by
        rw [List.length_cons]
        omega
      simp only [heq, hiff, false_and, if_false, Nat.zero_add]

end Program

/-! What belongs to an instruction has no labels. -/

namespace Schedule

private theorem label_not_mem_coreActs (stage : Stage) (words : Array UInt32) (last : Option Fetch.VertexWord)
    (index : UInt32)
    (w : Word) (m : Nat) (target : UInt32) : .present (.label target) ∉ coreActs stage words last index w m := by
  have hown : .present (.label target) ≠ ownAct stage index w := by
    unfold ownAct
    cases w.resolve index stage with
    | ok i => cases i <;> simp [event]
    | error e =>
      intro h
      cases h
  have hword : .present (.label target) ∉ ((wordActs stage words last w).take m).flatten := by
    intro hlabel
    obtain ⟨word, hword, hlabel⟩ := List.mem_flatten.mp hlabel
    exact isOfWord_wordActs stage words last w word (List.mem_of_mem_take hword) _ hlabel
  have hend : .present (.label target) ∉ endActs stage index w := by
    unfold endActs
    split <;> simp
  simp [coreActs, hown, hword, hend]

theorem AreParts.label_not_mem {stage : Stage} {words : Array UInt32} {isAborted : Prop} {k : Nat} {ws : List Word}
    {parts : List (List Act)} (h : AreParts stage words isAborted k ws parts) (target : UInt32) :
    ∀ part ∈ parts.map (List.filterMap Act.notice?), .event (.label target) ∉ part := by
  intro part hpart hlabel
  obtain ⟨acts, hacts, rfl⟩ := List.mem_map.mp hpart
  obtain ⟨j, hj, rfl⟩ := List.mem_iff_getElem.mp hacts
  obtain ⟨last, m, heq, -⟩ := h.isPart j hj
  rw [heq] at hlabel
  obtain ⟨a, ha, hnotice⟩ := List.mem_filterMap.mp hlabel
  have hpresent : a = .present (.label target) := by
    cases a <;> simp_all [Act.notice?]
  exact label_not_mem_coreActs stage words last _ _ m target (hpresent ▸ ha)

end Schedule

/-! Targets beyond the program. -/

def Diagnostic.isPastEnd : Diagnostic → Bool
  | targetPastEnd .. => true
  | _ => false

namespace Shader

variable {σ : Type}

private theorem pastEnd_faults (shader : Shader) :
    let p := Program.read shader.words
    shader.plan.faults.filter Diagnostic.isPastEnd =
      p.labelsPastEnd.map fun target => .targetPastEnd target p.length := by
  intro p
  have hconflicts (samples : List (UInt32 × Fetch.Dimension)) :
      (conflictsAmong samples).filter Diagnostic.isPastEnd = [] := by
    rw [List.filter_eq_nil_iff]
    intro d hd
    obtain ⟨first, x, rfl⟩ := eq_of_mem_conflictsAmong hd
    exact Bool.false_ne_true
  have htargets : (p.labelsPastEnd.map fun target => .targetPastEnd target p.length).filter Diagnostic.isPastEnd =
      p.labelsPastEnd.map fun target => .targetPastEnd target p.length := by
    rw [List.filter_eq_self]
    intro d hd
    obtain ⟨target, -, rfl⟩ := List.mem_map.mp hd
    rfl
  rw [faults_plan, Program.faults, List.filter_append, List.filter_append, hconflicts, htargets]
  cases p.truncatedAt <;> rfl

theorem Performs.pastEnd_errors {shader : Shader} {b : Backend σ} {settings : TranslatorSettings} {s : σ}
    {as : List Act} (h : shader.Performs b settings s as) :
    let p := Program.read shader.words
    (shader.translate b settings s).shader.errors.filter Diagnostic.isPastEnd =
      p.labelsPastEnd.map fun target => .targetPastEnd target p.length := by
  intro p
  rw [h.filter_faults (fun _ => rfl) fun _ => rfl]
  exact shader.pastEnd_faults

/-- As far as the translation gets, each index is told of behind its label if some instruction names it as a target, and
its line is printed behind that of its label. So each target that is reached is shown once, and nothing else is shown as
a label. The targets beyond the program are reported in ascending order before that. -/
theorem labels_of_targets (shader : Shader) (b : Backend σ) (settings : TranslatorSettings) (s : σ)
    (h : (Program.read shader.words).length < UInt32.size) :
    let p := Program.read shader.words
    let told := shader.notices b settings s
    let translated := (shader.translate b settings s).shader
    ∃ (targets : List UInt32) (parts : List (List Act)),
      p.ListsPastEnd shader.stage targets ∧
      Schedule.AreParts shader.stage shader.words (¬shader.NeverAborts b settings s) 0 p.instructions parts ∧
      told = .reset :: .event .start ::
          ((p.faults shader.words targets).map .error
            ++ p.labelled shader.stage (fun k => .event (.label k)) 0 (parts.map (List.filterMap Act.notice?)))
          ++ [.complete] ∧
      translated.disassembly =
        (Listing.ofLines (p.labelled shader.stage labelLine 0 (parts.map (List.filterMap Act.line?)))).text ∧
      (∀ k, told.count (.event (.label k)) = if k.toNat < parts.length ∧ p.IsTarget shader.stage k then 1 else 0) ∧
      translated.errors.filter Diagnostic.isPastEnd = (targets.map fun target => .targetPastEnd target p.length) ∧
      ∀ d ∈ translated.errors, d.isPastEnd = true → d.kind = .generalTranslationError := by
  intro p told translated
  obtain ⟨as, hperforms⟩ := shader.performs b settings s
  obtain ⟨parts, hparts, has⟩ :=
    Schedule.parts_of_cut shader.stage shader.words p.labels none 0 p.instructions hperforms.cut
  have haborted : ((shader.walked b settings s).isAborted = true) = ¬shader.NeverAborts b settings s := by
    rw [neverAborts_iff, Bool.not_eq_false]
  rw [haborted] at hparts
  have hnotices : as.filterMap Act.notice? =
      p.labelled shader.stage (fun k => .event (.label k)) 0 (parts.map (List.filterMap Act.notice?)) := by
    rw [has]
    exact p.filterMap_labelled shader.stage (p.notices_labelActs shader.stage) 0 parts
  have hlines : as.filterMap Act.line? =
      p.labelled shader.stage labelLine 0 (parts.map (List.filterMap Act.line?)) := by
    rw [has]
    exact p.filterMap_labelled shader.stage (p.lines_labelActs shader.stage) 0 parts
  have htold : told = .reset :: .event .start :: shader.plan.faults.map .error
      ++ p.labelled shader.stage (fun k => .event (.label k)) 0 (parts.map (List.filterMap Act.notice?))
      ++ [.complete] := by
    rw [← hnotices]
    exact hperforms.notices
  refine ⟨p.labelsPastEnd, parts, p.listsPastEnd_labelsPastEnd shader.stage, hparts, ?_, ?_, fun k => ?_,
    hperforms.pastEnd_errors, fun d _ hd => ?_⟩
  · rw [htold, faults_plan]
    rfl
  · rw [← hlines]
    exact hperforms.disassembly
  · have hbound : 0 + (parts.map (List.filterMap Act.notice?)).length ≤ UInt32.size := by
      rw [List.length_map, Nat.zero_add]
      exact Nat.le_of_lt (Nat.lt_of_le_of_lt hparts.length_le h)
    have hfaults : (shader.plan.faults.map Notice.error).count (.event (.label k)) = 0 := by
      rw [List.count_eq_zero]
      intro hk
      obtain ⟨d, -, hd⟩ := List.mem_map.mp hk
      cases hd
    have hcount := p.count_labelled shader.stage (fun k => Notice.event (.label k)) (fun _ _ heq => by cases heq; rfl)
      k 0 hbound (hparts.label_not_mem k)
    rw [htold]
    simp [List.count_append, hfaults, hcount]
  · cases d with
    | targetPastEnd target length => rfl
    | _ => cases hd

theorem label_of_jump :
    let shader := Shader.new .vertex #[1, 0xB000, 0]
    (Program.read shader.words).length < UInt32.size ∧
      (shader.notices .silent ⟨.proceed, false⟩ ()).count (.event (.label 1)) = 1 := by
  intro shader
  have hlength : (Program.read shader.words).length = 2 := by decide +kernel
  have hbound : (Program.read shader.words).length < UInt32.size := by
    rw [hlength]
    decide
  have htarget : (Program.read shader.words).IsTarget .vertex 1 := by decide +kernel
  have hn : shader.NeverAborts .silent ⟨.proceed, false⟩ () :=
    neverAborts_of_not_asksToStop rfl (not_asksToStop_of_neverStops Backend.neverStops_silent)
  obtain ⟨-, parts, -, hparts, -, -, hcount, -⟩ := labels_of_targets shader .silent ⟨.proceed, false⟩ () hbound
  have hreached : parts.length = 2 := (hparts.length_eq fun h => h hn).trans hlength
  refine ⟨hbound, ?_⟩
  rw [hcount, if_pos]
  exact ⟨by rw [hreached]; decide, htarget⟩

end Shader

end ShaderMicrocode
