import ShaderMicrocode.Session
/-!
# Simulation

A backend simulates another when a map between their states takes each answer to the other's. The two then get the
same translation, and the map takes the state that is left behind to the other's.
-/
namespace ShaderMicrocode

/-- `f` takes the states of `b'` to those of `b`, which gives the same answers there. -/
structure Backend.Simulates {τ σ : Type} (b' : Backend τ) (b : Backend σ) (f : τ → σ) : Prop where
  reset : ∀ t, f (b'.reset t) = b.reset (f t)
  handle : ∀ e view t, Prod.map f id (b'.handle e view t) = b.handle e view (f t)
  onError : ∀ d view t, Prod.map f id (b'.onError d view t) = b.onError d view (f t)
  complete : ∀ view t, Prod.map f id (b'.complete view t) = b.complete view (f t)

namespace Run

variable {τ σ : Type} {b' : Backend τ} {b : Backend σ} {f : τ → σ}

def map (f : τ → σ) (r : Run τ) : Run σ := ⟨r.session, f r.state⟩

@[simp] theorem isAborted_map (r : Run τ) : (r.map f).isAborted = r.isAborted := rfl

private theorem map_report (h : b'.Simulates b f) (r : Run τ) (d : Diagnostic) :
    (r.report b' d).map f = (r.map f).report b d := by
  have hanswer := h.onError d (r.session.record d).view r.state
  simp only [report, map, ← hanswer]
  rfl

private theorem map_present (h : b'.Simulates b f) (r : Run τ) (e : Event) :
    (r.present b' e).map f = (r.map f).present b e := by
  have hanswer := h.handle e (r.session.markColorTarget e).view r.state
  simp only [present, map, ← hanswer]
  rfl

theorem map_act (h : b'.Simulates b f) (r : Run τ) (a : Act) : (r.act b' a).map f = (r.map f).act b a := by
  cases a with
  | announce k op => rfl
  | print line => rfl
  | report d => exact map_report h r d
  | present e => exact map_present h r e

/-- No act leads two runs out of `R`, nor does the note that both stop, and `R` only holds of runs of which both are
aborted or neither. -/
structure Keeps (b' : Backend τ) (b : Backend σ) (R : Run τ → Run σ → Prop) : Prop where
  isAborted : ∀ {r' r}, R r' r → r'.isAborted = r.isAborted
  act : ∀ {r' r}, R r' r → ∀ a, R (r'.act b' a) (r.act b a)
  stop : ∀ {r' r}, R r' r → ∀ k,
    R { r' with session := r'.session.note (.stopped k) } { r with session := r.session.note (.stopped k) }

namespace Keeps

variable {R : Run τ → Run σ → Prop} {r' : Run τ} {r : Run σ}

theorem acts (h : Keeps b' b R) (hr : R r' r) (as : List Act) : R (r'.acts b' as) (r.acts b as) := by
  induction as generalizing r' r with
  | nil => exact hr
  | cons a as ih => exact ih (h.act hr a)

theorem block (h : Keeps b' b R) (hr : R r' r) (ws : List (List Act)) : R (r'.block b' ws) (r.block b ws) := by
  induction ws generalizing r' r with
  | nil => exact hr
  | cons w ws ih =>
    by_cases ha : r.isAborted
    · rw [block_cons_of_isAborted _ ha, block_cons_of_isAborted _ ((h.isAborted hr).trans ha)]
      exact hr
    · have ha' : ¬r'.isAborted = true := by rwa [h.isAborted hr]
      rw [block_cons_of_not_isAborted _ ha, block_cons_of_not_isAborted _ ha']
      exact ih (h.acts hr w)

theorem step (h : Keeps b' b R) (hr : R r' r) (s : Step) : R (r'.step b' s) (r.step b s) :=
  h.acts (h.block (h.acts hr s.opening) s.block) s.closing

theorem steps (h : Keeps b' b R) (hr : R r' r) (k : Nat) (ss : List Step) : R (r'.steps b' k ss) (r.steps b k ss) := by
  induction ss generalizing r' r k with
  | nil => exact hr
  | cons s ss ih =>
    by_cases ha : r.isAborted
    · rw [steps_cons_of_isAborted _ ha, steps_cons_of_isAborted _ ((h.isAborted hr).trans ha)]
      exact h.stop hr k
    · have ha' : ¬r'.isAborted = true := by rwa [h.isAborted hr]
      rw [steps_cons_of_not_isAborted _ ha, steps_cons_of_not_isAborted _ ha']
      exact ih (h.step hr s) (k + 1)

private theorem faults (h : Keeps b' b R) (hr : R r' r) (ds : List Diagnostic) :
    R (ds.foldl (report b') r') (ds.foldl (report b) r) := by
  induction ds generalizing r' r with
  | nil => exact hr
  | cons d ds ih => exact ih (h.act hr (.report d))

/-- What no act changes of two runs, a whole schedule does not change. -/
theorem schedule (h : Keeps b' b R) (hr : R r' r) (p : Schedule) : R (r'.schedule b' p) (r.schedule b p) :=
  h.steps (h.faults (h.act hr (.present .start)) p.faults) 0 p.steps

end Keeps

theorem keeps_map (h : b'.Simulates b f) : Keeps b' b fun r' r => r'.map f = r where
  isAborted := by
    rintro r' r rfl
    rfl
  act := by
    rintro r' r rfl a
    exact map_act h r' a
  stop := by
    rintro r' r rfl k
    rfl

theorem map_acts (h : b'.Simulates b f) (r : Run τ) (as : List Act) : (r.acts b' as).map f = (r.map f).acts b as :=
  (keeps_map h).acts rfl as

theorem map_schedule (h : b'.Simulates b f) (r : Run τ) (p : Schedule) :
    (r.schedule b' p).map f = (r.map f).schedule b p :=
  (keeps_map h).schedule rfl p

end Run

namespace Shader

variable {τ σ : Type} {b' : Backend τ} {b : Backend σ} {f : τ → σ}

theorem map_walked (h : b'.Simulates b f) (shader : Shader) (settings : TranslatorSettings) (t : τ) :
    (shader.walked b' settings t).map f = shader.walked b settings (f t) := by
  unfold walked
  dsimp only
  rw [Run.map_schedule h, Run.map, h.reset]

/-- A simulation changes nothing of the translation. -/
theorem translate_of_simulates (h : b'.Simulates b f) (shader : Shader) (settings : TranslatorSettings) (t : τ) :
    (shader.translate b' settings t).shader = (shader.translate b settings (f t)).shader ∧
      (shader.translate b' settings t).log = (shader.translate b settings (f t)).log ∧
      f (shader.translate b' settings t).state = (shader.translate b settings (f t)).state := by
  have hanswer := h.complete (shader.walked b' settings t).session.view (shader.walked b' settings t).state
  simp only [translate, ← map_walked h, Run.map, ← hanswer]
  exact ⟨rfl, rfl, rfl⟩

end Shader

end ShaderMicrocode
