import ShaderMicrocode.Proofs.Containment
/-!
# Entries of calls

What a backend finds when it is called. The acts that were performed before a call determine the disassembly and the
render targets of its view, and what was asked before it is what these acts ask.
-/
namespace ShaderMicrocode

def Call.event? : Call → Option Event
  | event e _ => some e
  | _ => none

theorem Request.event_mem_map_notice {e : Event} {qs : List Request} :
    .event e ∈ qs.map Request.notice ↔ ∃ view, .call (.event e view) ∈ qs := by
  constructor
  · intro h
    obtain ⟨q, hq, hnotice⟩ := List.mem_map.mp h
    cases q with
    | reset => cases hnotice
    | call c =>
      cases c <;> cases hnotice
      exact ⟨_, hq⟩
  · rintro ⟨view, h⟩
    exact List.mem_map_of_mem h

/-- An entry behind another one splits the list as well. -/
theorem exists_split_of_mem {α : Type} {xs before after : List α} {x y : α} (h : xs = before ++ x :: after)
    (hy : y ∈ after) : ∃ mid rest, xs = (before ++ x :: mid) ++ y :: rest := by
  obtain ⟨mid, rest, rfl⟩ := List.append_of_mem hy
  refine ⟨mid, rest, ?_⟩
  rw [h, List.append_assoc]
  rfl

namespace Act

theorem mem_events {e : Event} {as : List Act} : e ∈ as.filterMap event? ↔ .present e ∈ as := by
  have hact (a : Act) : a.event? = some e ↔ a = .present e := by
    cases a <;> simp [event?]
  simp only [List.mem_filterMap, hact, exists_eq_right]

theorem event_mem_notices {e : Event} {as : List Act} : .event e ∈ as.filterMap notice? ↔ .present e ∈ as := by
  have hact (a : Act) : a.notice? = some (.event e) ↔ a = .present e := by
    cases a <;> simp [notice?]
  simp only [List.mem_filterMap, hact, exists_eq_right]

end Act

namespace Run

variable {σ : Type} (b : Backend σ)

/-- What a run asks of its backend while it performs acts. -/
def requestsOf (b : Backend σ) (r : Run σ) : List Act → List Request
  | [] => []
  | a :: as => (r.request? a).toList ++ requestsOf b (r.act b a) as

private theorem notices_requestsOf (r : Run σ) (as : List Act) :
    (r.requestsOf b as).map Request.notice = as.filterMap Act.notice? := by
  induction as generalizing r with
  | nil => rfl
  | cons a as ih =>
    rw [requestsOf, List.map_append, ih, List.filterMap_cons, ← notice_request? r]
    cases r.request? a <;> rfl

private theorem requests_acts (b : Backend σ) (r : Run (Traced σ)) (as : List Act) :
    (r.acts b.traced as).state.requests = r.state.requests ++ r.requestsOf b.traced as := by
  induction as generalizing r with
  | nil => exact (List.append_nil _).symm
  | cons a as ih => rw [acts_cons, ih, requests_act, requestsOf, List.append_assoc]

private theorem requestsOf_eq_append_cons {r : Run σ} {as : List Act} {before after : List Request} {q : Request}
    (h : r.requestsOf b as = before ++ q :: after) :
    ∃ done a rest, as = done ++ a :: rest ∧ before = r.requestsOf b done ∧
      (r.acts b done).request? a = some q := by
  induction as generalizing r before with
  | nil => simp [requestsOf] at h
  | cons a as ih =>
    rw [requestsOf] at h
    rcases append_eq_append_cons h with ⟨rest, hfirst, -⟩ | ⟨later, rfl, hrest⟩
    · have hmem : q ∈ (r.request? a).toList := by simp [hfirst]
      have hlength : (r.request? a).toList.length ≤ 1 := by cases r.request? a <;> simp
      rw [hfirst, List.length_append, List.length_cons] at hlength
      obtain rfl : before = [] := List.eq_nil_of_length_eq_zero (by omega)
      exact ⟨[], a, as, rfl, rfl, Option.mem_toList.mp hmem⟩
    · obtain ⟨done, a', rest, rfl, rfl, hrequest⟩ := ih hrest
      exact ⟨a :: done, a', rest, rfl, rfl, hrequest⟩

variable {r : Run σ} {a : Act} {c : Call}

private theorem lines_of_request? (h : r.request? a = some (.call c)) :
    c.view.listing.lines = r.session.view.listing.lines := by
  cases a with
  | announce k op => cases h
  | print line => cases h
  | report d =>
    cases h
    simp [Call.view, Session.view_record]
  | present e =>
    cases h
    simp [Call.view, Session.view_markColorTarget]

private theorem colorTargets_of_request? (h : r.request? a = some (.call c)) :
    c.view.colorTargets = c.event?.toList.foldl ColorTargets.afterEvent r.session.view.colorTargets := by
  cases a with
  | announce k op => cases h
  | print line => cases h
  | report d =>
    cases h
    simp [Call.view, Call.event?, Session.view_record]
  | present e =>
    cases h
    simp [Call.view, Call.event?, Session.view_markColorTarget]

end Run

namespace Shader

variable {σ : Type} {shader : Shader} {b : Backend σ} {settings : TranslatorSettings} {s : σ} {as : List Act}

/-- The acts `done` of `as` have been performed when the backend is called with `c` after the requests `before`. -/
structure Entry (as : List Act) (before : List Request) (c : Call) (done : List Act) : Prop where
  next : (∃ a rest, as = done ++ a :: rest ∧ a.notice? = some c.notice) ∨ as = done ∧ c.notice = .complete
  lines : c.view.listing.lines = done.filterMap Act.line?
  colorTargets : c.view.colorTargets =
    (done.filterMap Act.event? ++ c.event?.toList).foldl ColorTargets.afterEvent .none
  notices : before.map Request.notice = .reset :: done.filterMap Act.notice?

theorem Performs.requests (h : shader.Performs b settings s as) :
    shader.requests b settings s =
      .reset :: (shader.opened b.traced settings (.new s)).requestsOf b.traced (shader.plan.opening ++ as) ++
        [.call (.complete (shader.walked b settings s).session.view)] := by
  rw [requests_eq, h.trace, Run.requests_acts]
  rfl

private theorem Performs.entry_complete (h : shader.Performs b settings s as) {before : List Request}
    (hbefore : before.map Request.notice = .reset :: (shader.plan.opening ++ as).filterMap Act.notice?) :
    Entry (shader.plan.opening ++ as) before (.complete (shader.walked b settings s).session.view)
      (shader.plan.opening ++ as) where
  next := .inr ⟨rfl, rfl⟩
  lines := by
    show (shader.walked b settings s).session.view.listing.lines = _
    rw [h.view, Run.lines_acts]
    rfl
  colorTargets := by
    show (shader.walked b settings s).session.view.colorTargets = _
    rw [h.view, Run.colorTargets_acts]
    exact congrArg (List.foldl ColorTargets.afterEvent .none) (List.append_nil _).symm
  notices := hbefore

/-- Every call finds the view that the acts before it have left. -/
theorem Performs.entry (h : shader.Performs b settings s as) {before after : List Request} {c : Call}
    (hsplit : shader.requests b settings s = before ++ .call c :: after) :
    ∃ done, Entry (shader.plan.opening ++ as) before c done := by
  let opened := shader.opened b.traced settings (.new s)
  have hnotices (done : List Act) : (Request.reset :: opened.requestsOf b.traced done).map Request.notice =
      .reset :: done.filterMap Act.notice? := by
    rw [List.map_cons, Run.notices_requestsOf]
    rfl
  rw [h.requests] at hsplit
  rcases append_eq_append_cons hsplit with ⟨rest, hcalls, -⟩ | ⟨done, rfl, hlast⟩
  · cases before with
    | nil => cases hcalls
    | cons q before =>
      obtain ⟨rfl, hothers⟩ := List.cons.inj hcalls
      obtain ⟨done, a, rest, has, rfl, hrequest⟩ := Run.requestsOf_eq_append_cons b.traced hothers
      have hnotice : a.notice? = some c.notice := by
        rw [← Run.notice_request? (opened.acts b.traced done) a, hrequest]
        rfl
      refine ⟨done, .inl ⟨a, rest, has, hnotice⟩, ?_, ?_, hnotices done⟩
      · rw [Run.lines_of_request? hrequest, Run.lines_acts]
        rfl
      · rw [Run.colorTargets_of_request? hrequest, Run.colorTargets_acts, List.foldl_append]
        rfl
  · cases done with
    | nil =>
      obtain ⟨hc, -⟩ := List.cons.inj hlast
      cases hc
      refine ⟨shader.plan.opening ++ as, h.entry_complete ?_⟩
      rw [List.append_nil]
      exact hnotices _
    | cons q done => simp at hlast

end Shader

end ShaderMicrocode
