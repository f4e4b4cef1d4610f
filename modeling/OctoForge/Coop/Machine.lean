import Mathlib.Data.List.Basic

/-!
# Runs of a step function

Where the coroutines are short it is simpler to say of each of them which `await` it is
at.  The program is then a step function: a move is possible in a state or it is not, and
a run is a list of moves.  A statement about every list of moves is a statement about
every interleaving.

Some statements hold only of runs whose steps meet a condition on the move and the state
before it.  `always` checks that condition along a run.
-/

namespace Coop

variable {σ μ : Type}

structure Machine (σ μ : Type) where
  step : σ → μ → Option σ

namespace Machine

variable (M : Machine σ μ)

def run : List μ → σ → Option σ
  | [], s => some s
  | m :: rest, s => (M.step s m).bind (run rest)

/-- Every step of the run meets the condition. -/
def always (cond : σ → μ → Bool) : List μ → σ → Bool
  | [], _ => true
  | m :: rest, s =>
      match M.step s m with
      | some s' => cond s m && always cond rest s'
      | none => true

variable {M}

@[simp] theorem run_nil (s : σ) : M.run [] s = some s := rfl

theorem run_cons {m : μ} {rest : List μ} {s t : σ} :
    M.run (m :: rest) s = some t ↔ ∃ s', M.step s m = some s' ∧ M.run rest s' = some t := by
  simp [run, Option.bind_eq_some_iff]

theorem always_cons {cond : σ → μ → Bool} {m : μ} {rest : List μ} {s s' : σ}
    (hStep : M.step s m = some s') :
    M.always cond (m :: rest) s = (cond s m && M.always cond rest s') := by
  simp [always, hStep]

theorem always_of_step {cond : σ → μ → Bool} {m : μ} {rest : List μ} {s s' : σ}
    (hStep : M.step s m = some s') (hCond : cond s m = true)
    (hRest : M.always cond rest s' = true) : M.always cond (m :: rest) s = true := by
  rw [always_cons hStep, hCond, hRest]
  rfl

theorem run_append {first second : List μ} {s t : σ} :
    M.run (first ++ second) s = some t ↔
      ∃ s', M.run first s = some s' ∧ M.run second s' = some t := by
  induction first generalizing s with
  | nil => simp
  | cons m rest ih =>
      rw [List.cons_append, run_cons]
      constructor
      · rintro ⟨s₁, hStep, hRest⟩
        obtain ⟨s₂, hFirst, hSecond⟩ := ih.mp hRest
        exact ⟨s₂, run_cons.mpr ⟨s₁, hStep, hFirst⟩, hSecond⟩
      · rintro ⟨s₂, hFirst, hSecond⟩
        obtain ⟨s₁, hStep, hRest⟩ := run_cons.mp hFirst
        exact ⟨s₁, hStep, ih.mpr ⟨s₂, hRest, hSecond⟩⟩

/-! ## The invariant rules -/

/-- What every step keeps, every run keeps. -/
theorem run_keeps {I : σ → Prop} (hStep : ∀ s m s', I s → M.step s m = some s' → I s')
    {moves : List μ} {s t : σ} (hInv : I s) (hRun : M.run moves s = some t) : I t := by
  induction moves generalizing s with
  | nil =>
      obtain rfl := Option.some.inj hRun
      exact hInv
  | cons m rest ih =>
      obtain ⟨s', hFirst, hRest⟩ := run_cons.mp hRun
      exact ih (hStep s m s' hInv hFirst) hRest

/-- What every step that meets the condition keeps, a run of such steps keeps. -/
theorem run_keeps_of_always {cond : σ → μ → Bool} {I : σ → Prop}
    (hStep : ∀ s m s', I s → cond s m = true → M.step s m = some s' → I s')
    {moves : List μ} {s t : σ} (hInv : I s) (hAlways : M.always cond moves s = true)
    (hRun : M.run moves s = some t) : I t := by
  induction moves generalizing s with
  | nil =>
      obtain rfl := Option.some.inj hRun
      exact hInv
  | cons m rest ih =>
      obtain ⟨s', hFirst, hRest⟩ := run_cons.mp hRun
      rw [always_cons hFirst, Bool.and_eq_true] at hAlways
      exact ih (hStep s m s' hInv hAlways.1 hFirst) hAlways.2 hRest

/-- A run with a step that does not meet the condition has gone through it. -/
theorem exists_of_not_always {cond : σ → μ → Bool} {moves : List μ} {s t : σ}
    (hRun : M.run moves s = some t) (hNot : M.always cond moves s = false) :
    ∃ before m after s₁ s₂, moves = before ++ m :: after ∧ M.run before s = some s₁ ∧
      M.step s₁ m = some s₂ ∧ cond s₁ m = false ∧ M.run after s₂ = some t := by
  induction moves generalizing s with
  | nil => simp [always] at hNot
  | cons m rest ih =>
      obtain ⟨s', hFirst, hRest⟩ := run_cons.mp hRun
      rw [always_cons hFirst, Bool.and_eq_false_iff] at hNot
      rcases hNot with hHere | hLater
      · exact ⟨[], m, rest, s, s', rfl, rfl, hFirst, hHere, hRest⟩
      · obtain ⟨before, m', after, s₁, s₂, rfl, hBefore, hStep, hCond, hAfter⟩ := ih hRest hLater
        exact ⟨m :: before, m', after, s₁, s₂, rfl, run_cons.mpr ⟨s', hFirst, hBefore⟩, hStep,
          hCond, hAfter⟩

end Machine
end Coop
