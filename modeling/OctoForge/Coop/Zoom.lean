import OctoForge.Coop.RelyGuarantee

/-!
# Coroutines of a component

A system keeps the state of a component inside its own.  `zoom` runs a
coroutine of the component over the state of the system, so that a component
is modelled once, with its own state, and used as it is.  What is known of
every step of the component's coroutine carries over (`Steps.zoom`).
-/

namespace Coop
namespace Co

variable {σ τ ε α β : Type} {get : τ → σ} {set : σ → τ → τ}

/-- Run a coroutine on the part of the state that `get` reads and `set`
writes. -/
def zoom (get : τ → σ) (set : σ → τ → τ) : Co σ ε α → Co τ ε α
  | done value => done value
  | fail error => fail error
  | await ready act next =>
      await (fun t => ready (get t)) (fun t => set (act (get t)) t) fun t =>
        zoom get set (next (get t))

theorem zoom_bind (c : Co σ ε α) (f : α → Co σ ε β) :
    zoom get set (c.bind f) = (zoom get set c).bind fun value => zoom get set (f value) := by
  induction c with
  | done value => rfl
  | fail error => rfl
  | await ready act next ih =>
      simp only [bind, zoom]
      congr 1
      funext t
      exact ih (get t)

theorem zoom_tryCatch (c : Co σ ε α) (handler : ε → Co σ ε α) :
    zoom get set (c.tryCatch handler) =
      (zoom get set c).tryCatch fun error => zoom get set (handler error) := by
  induction c with
  | done value => rfl
  | fail error => rfl
  | await ready act next ih =>
      simp only [tryCatch, zoom]
      congr 1
      funext t
      exact ih (get t)

theorem zoom_attempt (f : σ → Except ε α × σ) :
    zoom get set (attempt f) = attempt fun t => ((f (get t)).1, set (f (get t)).2 t) := by
  simp only [attempt, attemptWhen, zoom]
  congr 1
  funext t
  cases (f (get t)).1 <;> rfl

theorem Steps.zoom {R : σ → σ → Prop} {R' : τ → τ → Prop} {c : Co σ ε α} (hSteps : Steps R c)
    (hLift : ∀ t s, R (get t) s → R' t (set s t)) : Steps R' (zoom get set c) := by
  induction c with
  | done value => trivial
  | fail error => trivial
  | await ready act next ih =>
      intro t _ _ hReady
      obtain ⟨-, hStep, hNext⟩ := hSteps (get t) trivial trivial hReady
      exact ⟨trivial, hLift t _ hStep, ih (get t) hNext⟩

end Co
end Coop
