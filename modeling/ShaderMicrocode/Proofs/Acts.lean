import ShaderMicrocode.Proofs.Trace
/-!
# Effects of acts

What a list of acts leaves in the view of a run and in its trace. Objections of the backend touch only the errors
and the abort flag, so everything else is a function of the acts alone.
-/
namespace ShaderMicrocode

namespace Act

def line? : Act → Option String
  | print line => some line
  | _ => none

def diagnostic? : Act → Option Diagnostic
  | report d => some d
  | _ => none

def event? : Act → Option Event
  | present e => some e
  | _ => none

/-- What the backend is told by an act. -/
def notice? : Act → Option Notice
  | report d => some (.error d)
  | present e => some (.event e)
  | _ => none

end Act

def ColorTargets.afterEvent (c : ColorTargets) (e : Event) : ColorTargets :=
  match e.colorTarget? with
  | .some i => c.mark i
  | .none => c

/-- The view as it was before anything was printed, reported or shown. -/
def View.initial (v : View) : View :=
  { v with colorTargets := .none, listing := .empty, errors := [], isAborted := false }

namespace Session

theorem view_print (s : Session) (line : String) :
    (s.print line).view = { s.view with listing := s.view.listing.push line } := by
  unfold print
  dsimp only
  split <;> rfl

theorem view_record (s : Session) (d : Diagnostic) :
    (s.record d).view =
      { s.view with
        errors := s.view.errors ++ [d]
        isAborted := s.view.isAborted || s.view.settings.errorPolicy == .abortOnError } := rfl

theorem view_markColorTarget (s : Session) (e : Event) :
    (s.markColorTarget e).view = { s.view with colorTargets := s.view.colorTargets.afterEvent e } := by
  unfold markColorTarget ColorTargets.afterEvent
  cases e.colorTarget? <;> rfl

theorem view_recordObjections (s : Session) (os : List Objection) :
    (s.recordObjections os).view =
      { s.view with
        errors := s.view.errors ++ os.map .raised
        isAborted := s.view.isAborted || (!os.isEmpty && s.view.settings.errorPolicy == .abortOnError) } := by
  induction os generalizing s with
  | nil => simp [recordObjections]
  | cons o os ih =>
    show ((s.record (.raised o)).recordObjections os).view = _
    rw [ih, view_record]
    cases os <;> simp

end Session

namespace Run

variable {σ : Type}

theorem view_report (b : Backend σ) (r : Run σ) (d : Diagnostic) :
    (r.report b d).session.view =
      { r.session.view with
        errors := r.session.view.errors ++ [d]
        isAborted := r.session.view.isAborted || r.session.view.settings.errorPolicy == .abortOnError
          || (b.onError d (r.session.record d).view r.state).2 == .abort } := by
  unfold report
  dsimp only
  cases (b.onError d (r.session.record d).view r.state).2 <;> simp [Session.view_record]

theorem state_report (b : Backend σ) (r : Run σ) (d : Diagnostic) :
    (r.report b d).state = (b.onError d (r.session.record d).view r.state).1 := rfl

/-- What the backend answers to an event, which it sees with its own render target already marked. -/
def answer (b : Backend σ) (r : Run σ) (e : Event) : σ × List Objection :=
  b.handle e (r.session.markColorTarget e).view r.state

theorem view_present (b : Backend σ) (r : Run σ) (e : Event) :
    (r.present b e).session.view =
      { r.session.view with
        colorTargets := r.session.view.colorTargets.afterEvent e
        errors := r.session.view.errors ++ (r.answer b e).2.map .raised
        isAborted := r.session.view.isAborted
          || (!(r.answer b e).2.isEmpty && r.session.view.settings.errorPolicy == .abortOnError) } := by
  show ((r.session.markColorTarget e).recordObjections (r.answer b e).2).view = _
  rw [Session.view_recordObjections, Session.view_markColorTarget]

theorem state_present (b : Backend σ) (r : Run σ) (e : Event) : (r.present b e).state = (r.answer b e).1 := rfl

/-! One act. -/

theorem initial_act (b : Backend σ) (r : Run σ) (a : Act) :
    (r.act b a).session.view.initial = r.session.view.initial := by
  cases a with
  | announce k op => rfl
  | print line => simp [act, View.initial, Session.view_print]
  | report d => simp [act, View.initial, view_report]
  | present e => simp [act, View.initial, view_present]

theorem lines_act (b : Backend σ) (r : Run σ) (a : Act) :
    (r.act b a).session.view.listing.lines = r.session.view.listing.lines ++ a.line?.toList := by
  cases a with
  | announce k op => simp [act, Act.line?]
  | print line => simp [act, Act.line?, Session.view_print]
  | report d => simp [act, Act.line?, view_report]
  | present e => simp [act, Act.line?, view_present]

private theorem colorTargets_act (b : Backend σ) (r : Run σ) (a : Act) :
    (r.act b a).session.view.colorTargets =
      a.event?.toList.foldl ColorTargets.afterEvent r.session.view.colorTargets := by
  cases a with
  | announce k op => rfl
  | print line => simp [act, Act.event?, Session.view_print]
  | report d => simp [act, Act.event?, view_report]
  | present e => simp [act, Act.event?, view_present]

theorem isAborted_act (b : Backend σ) {r : Run σ} (a : Act) (h : r.isAborted = true) :
    (r.act b a).isAborted = true := by
  unfold isAborted at h ⊢
  cases a with
  | announce k op => exact h
  | print line => simp [act, Session.view_print, h]
  | report d => simp [act, view_report, h]
  | present e => simp [act, view_present, h]

/-! Lists of acts. -/

/-- What every act preserves is preserved by a list of them. -/
theorem acts_preserve {P : Run σ → Prop} (b : Backend σ) (hact : ∀ r a, P r → P (r.act b a)) {r : Run σ}
    (as : List Act) (h : P r) : P (r.acts b as) := by
  induction as generalizing r with
  | nil => exact h
  | cons a as ih => exact ih (hact r a h)

theorem lines_acts (b : Backend σ) (r : Run σ) (as : List Act) :
    (r.acts b as).session.view.listing.lines = r.session.view.listing.lines ++ as.filterMap Act.line? := by
  induction as generalizing r with
  | nil => simp
  | cons a as ih =>
    rw [acts_cons, ih, lines_act]
    cases h : a.line? <;> simp [h]

theorem colorTargets_acts (b : Backend σ) (r : Run σ) (as : List Act) :
    (r.acts b as).session.view.colorTargets =
      (as.filterMap Act.event?).foldl ColorTargets.afterEvent r.session.view.colorTargets := by
  induction as generalizing r with
  | nil => rfl
  | cons a as ih =>
    rw [acts_cons, ih, colorTargets_act]
    cases h : a.event? <;> simp [h]

theorem isAborted_acts (b : Backend σ) {r : Run σ} (as : List Act) (h : r.isAborted = true) :
    (r.acts b as).isAborted = true :=
  acts_preserve (P := fun r => r.isAborted = true) b (fun _ a => isAborted_act b a) as h

/-! Traces. -/

def request? (r : Run σ) : Act → Option Request
  | .report d => some (.call (.error d (r.session.record d).view))
  | .present e => some (.call (.event e (r.session.markColorTarget e).view))
  | _ => none

theorem requests_act (b : Backend σ) (r : Run (Traced σ)) (a : Act) :
    (r.act b.traced a).state.requests = r.state.requests ++ (r.request? a).toList := by
  cases a with
  | announce k op => simp [act, request?]
  | print line => simp [act, request?]
  | report d => simp [act, request?, state_report, Backend.traced]
  | present e => simp [act, request?, state_present, answer, Backend.traced]

theorem notice_request? (r : Run σ) (a : Act) : (r.request? a).map Request.notice = a.notice? := by
  cases a <;> rfl

theorem notices_acts (b : Backend σ) (r : Run (Traced σ)) (as : List Act) :
    (r.acts b.traced as).state.requests.map Request.notice =
      r.state.requests.map Request.notice ++ as.filterMap Act.notice? := by
  induction as generalizing r with
  | nil => simp
  | cons a as ih =>
    rw [acts_cons, ih, requests_act, List.map_append, List.filterMap_cons, ← notice_request? r]
    cases r.request? a <;> simp

/-- Every call so far saw the shader `v` as this run does, and none was further than it. -/
def Seen (v : View) (r : Run (Traced σ)) : Prop :=
  r.session.view.initial = v ∧
    ∀ c, .call c ∈ r.state.requests → c.view.initial = v ∧ (c.view.isAborted = true → r.isAborted = true)

private theorem seen_request? (b : Backend σ) (r : Run (Traced σ)) {a : Act} {c : Call}
    (h : r.request? a = some (.call c)) :
    c.view.initial = r.session.view.initial ∧ (c.view.isAborted = true → (r.act b.traced a).isAborted = true) := by
  unfold isAborted
  cases a with
  | announce k op => simp [request?] at h
  | print line => simp [request?] at h
  | report d =>
    simp only [request?, Option.some.injEq, Request.call.injEq] at h
    subst h
    refine ⟨rfl, fun hc => ?_⟩
    simp only [Call.view, Session.view_record] at hc
    simp [act, view_report, hc]
  | present e =>
    simp only [request?, Option.some.injEq, Request.call.injEq] at h
    subst h
    simp only [Call.view, Session.view_markColorTarget]
    refine ⟨rfl, fun hc => ?_⟩
    simp [act, view_present, hc]

private theorem seen_act (b : Backend σ) {v : View} {r : Run (Traced σ)} (a : Act) (h : r.Seen v) :
    (r.act b.traced a).Seen v := by
  refine ⟨(initial_act _ r a).trans h.1, fun c hc => ?_⟩
  rw [requests_act, List.mem_append, Option.mem_toList] at hc
  rcases hc with hc | hc
  · exact ⟨(h.2 c hc).1, fun ha => isAborted_act _ a ((h.2 c hc).2 ha)⟩
  · exact ⟨(seen_request? b r hc).1.trans h.1, (seen_request? b r hc).2⟩

theorem seen_acts (b : Backend σ) {v : View} {r : Run (Traced σ)} (as : List Act) (h : r.Seen v) :
    (r.acts b.traced as).Seen v :=
  acts_preserve (P := Seen v) b.traced (fun _ a => seen_act b a) as h

end Run

end ShaderMicrocode
