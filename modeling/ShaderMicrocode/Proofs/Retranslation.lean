import ShaderMicrocode.Proofs.Trace
/-!
# Translating a shader again

What earlier translations leave in a shader is dropped before the next one adds anything, and a backend is reset before
it is shown anything. A shader that has been in use therefore translates as a new one does.
-/
namespace ShaderMicrocode

/-- A translation of some shader: its backend, the state that the backend was in, and the settings. -/
structure Use where
  State : Type
  backend : Backend State
  settings : TranslatorSettings
  state : State

namespace Shader

variable {σ : Type} {shader other : Shader} {b : Backend σ} {settings : TranslatorSettings} {s s' : σ}

/-- The shader after a translation. -/
def afterUse (shader : Shader) (use : Use) : Shader := (shader.translate use.backend use.settings use.state).shader

/-- The shader after several translations, one after the other. -/
def after (shader : Shader) (uses : List Use) : Shader := uses.foldl afterUse shader

/-! What is left once the results of a translation are dropped. -/

@[simp] theorem cleared_translate (shader : Shader) (b : Backend σ) (settings : TranslatorSettings) (s : σ) :
    (shader.translate b settings s).shader.cleared = shader.cleared := rfl

theorem cleared_after (shader : Shader) (uses : List Use) : (shader.after uses).cleared = shader.cleared := by
  induction uses generalizing shader with
  | nil => rfl
  | cons use uses ih => exact (ih (shader.afterUse use)).trans (shader.cleared_translate _ _ _)

/-! A translation depends on no more than that, and on the backend after its reset. -/

private theorem walked_congr (hshader : shader.cleared = other.cleared) (hstate : b.reset s = b.reset s') :
    shader.walked b settings s = other.walked b settings s' := by
  rw [walked, walked, hshader, hstate]

theorem translate_congr (hshader : shader.cleared = other.cleared) (hstate : b.reset s = b.reset s') :
    shader.translate b settings s = other.translate b settings s' := by
  have hstage : shader.cleared.stage = other.cleared.stage := congrArg stage hshader
  have hwords : shader.cleared.words = other.cleared.words := congrArg words hshader
  change shader.stage = other.stage at hstage
  change shader.words = other.words at hwords
  rw [translate, translate, walked_congr hshader hstate, hstage, hwords]

theorem requests_congr (hshader : shader.cleared = other.cleared) (hstate : b.reset s = b.reset s') :
    shader.requests b settings s = other.requests b settings s' := by
  have htraced : b.traced.reset (.new s) = b.traced.reset (.new s') := congrArg (Traced.push _ .reset) hstate
  rw [requests, requests, translate_congr hshader htraced]

/-- A shader that has been translated any number of times translates as a new one, with the same calls and views. -/
theorem retranslation_forgets (stage : Stage) (words : Array UInt32) (uses : List Use) (settings : TranslatorSettings) :
    let fresh := new stage words
    let used := fresh.after uses
    (∀ {σ : Type} (b : Backend σ) (s s₀ : σ), b.reset s = b.reset s₀ →
        used.translate b settings s = fresh.translate b settings s₀ ∧
          used.requests b settings s = fresh.requests b settings s₀) ∧
      (∀ counts,
        used.translate .counting settings counts = fresh.translate .counting settings .zero ∧
          used.requests .counting settings counts = fresh.requests .counting settings .zero) ∧
      used.translate .listing settings () = fresh.translate .listing settings () ∧
        used.requests .listing settings () = fresh.requests .listing settings () := by
  intro fresh used
  have hshader : used.cleared = fresh.cleared := fresh.cleared_after uses
  have hall {σ : Type} (b : Backend σ) (s s₀ : σ) (hstate : b.reset s = b.reset s₀) :
      used.translate b settings s = fresh.translate b settings s₀ ∧
        used.requests b settings s = fresh.requests b settings s₀ :=
    ⟨translate_congr hshader hstate, requests_congr hshader hstate⟩
  exact ⟨hall, fun counts => hall .counting counts .zero rfl, hall .listing () () rfl⟩

theorem retranslation_forgets_aborted_use :
    let fresh := new .pixel #[0x2001, 0xA0002000, 0]
    let objecting : Use := ⟨List Hook, .scripted { abortOn := [.invalidEncoding] }, ⟨.abortOnError, false⟩, [.start]⟩
    (fresh.after [objecting]).errors ≠ [] ∧ Backend.counting.reset ⟨1, 2, 3, 4, 5⟩ = Backend.counting.reset .zero ∧
      (fresh.after [objecting]).translate .counting ⟨.proceed, true⟩ ⟨1, 2, 3, 4, 5⟩ =
        fresh.translate .counting ⟨.proceed, true⟩ .zero := by
  intro fresh objecting
  have hstate : Backend.counting.reset ⟨1, 2, 3, 4, 5⟩ = Backend.counting.reset .zero := rfl
  have hforgets := retranslation_forgets .pixel #[0x2001, 0xA0002000, 0] [objecting] ⟨.proceed, true⟩
  exact ⟨by decide +kernel, hstate, (hforgets.1 .counting ⟨1, 2, 3, 4, 5⟩ .zero hstate).1⟩

end Shader

end ShaderMicrocode
