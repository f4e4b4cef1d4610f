import OctoForge.Coop.RelyGuarantee

/-!
# Traces

A run forgets what happened on the way.  A trace keeps the steps the coroutine
made itself, each with the state before and the state after it; between two of
them the environment may have made any number of steps.

There are two ways to use a trace.  `Steps.trace` says what every step of it
is, for a coroutine all of whose steps are of one kind.  The inversion rules
take a complete trace apart along the program: a trace of a sequence is a trace
of the first part and one of the second, and a trace of an atomic step is that
step.
-/

namespace Coop

namespace Co

variable {σ ε ε' α β : Type}

/-- The coroutine that has ended this way. -/
def ended : Except ε α → Co σ ε α
  | .ok value => done value
  | .error error => fail error

theorem ended_eq_done {r : Except ε α} {value : α} :
    (ended r : Co σ ε α) = done value ↔ r = .ok value := by
  cases r <;> simp [ended]

theorem ended_eq_fail {r : Except ε α} {error : ε} :
    (ended r : Co σ ε α) = fail error ↔ r = .error error := by
  cases r <;> simp [ended]

/-- `Trace env c s steps c' t`: resumed from `s`, the coroutine has made these
steps, `c'` is left of it and the state is `t`. -/
inductive Trace (env : σ → σ → Prop) : Co σ ε α → σ → List (σ × σ) → Co σ ε α → σ → Prop
  | stop (c : Co σ ε α) (s : σ) : Trace env c s [] c s
  | step {ready : σ → Bool} {act : σ → σ} {next : σ → Co σ ε α} {s s' t : σ}
      {steps : List (σ × σ)} {c' : Co σ ε α}
      (hEnv : Relation.ReflTransGen env s s') (hReady : ready s' = true)
      (hRest : Trace env (next s') (act s') steps c' t) :
      Trace env (.await ready act next) s ((s', act s') :: steps) c' t

/-- The scheduler of `runWith`, which also keeps the steps. -/
def traceWith {μ : Type} (play : μ → σ → σ) :
    List (List μ) → Co σ ε α → σ → Option (List (σ × σ) × Except ε α × σ)
  | _, done value, s => some ([], .ok value, s)
  | _, fail error, s => some ([], .error error, s)
  | schedule, await ready act next, s =>
      let s' := (schedule.headD []).foldl (fun s m => play m s) s
      if ready s' then
        (traceWith play schedule.tail (next s') (act s')).map fun (steps, r, t) =>
          ((s', act s') :: steps, r, t)
      else none

section Inversion

variable {env : σ → σ → Prop} {s t : σ} {steps : List (σ × σ)}

/-- What the scheduler computes is a trace. -/
theorem Trace.of_traceWith {μ : Type} {play : μ → σ → σ} {schedule : List (List μ)}
    {c : Co σ ε α} {r : Except ε α} (hTraces : traceWith play schedule c s = some (steps, r, t)) :
    Trace (fun s s' => ∃ m, s' = play m s) c s steps (ended r) t := by
  induction c generalizing s schedule steps with
  | done value =>
      simp only [traceWith, Option.some.injEq, Prod.mk.injEq] at hTraces
      obtain ⟨rfl, rfl, rfl⟩ := hTraces
      exact .stop _ s
  | fail error =>
      simp only [traceWith, Option.some.injEq, Prod.mk.injEq] at hTraces
      obtain ⟨rfl, rfl, rfl⟩ := hTraces
      exact .stop _ s
  | await ready act next ih =>
      simp only [traceWith] at hTraces
      split at hTraces
      · rename_i hReady
        obtain ⟨⟨rest, r', t'⟩, hRest, hEq⟩ := Option.map_eq_some_iff.mp hTraces
        simp only [Prod.mk.injEq] at hEq
        obtain ⟨rfl, rfl, rfl⟩ := hEq
        exact .step (reflTransGen_play play _ s) hReady (ih _ hRest)
      · simp at hTraces

/-- What the scheduler computes is true of some trace. -/
theorem Trace.exists_of_traceWith {μ τ : Type} {play : μ → σ → σ} {c : Co σ ε α}
    {f : List (σ × σ) × Except ε α × σ → τ} {value : τ} (schedule : List (List μ))
    (hTraces : (traceWith play schedule c s).map f = some value) :
    ∃ steps r t, Trace (fun s s' => ∃ m, s' = play m s) c s steps (ended r) t ∧
      f (steps, r, t) = value := by
  obtain ⟨⟨steps, r, t⟩, hEnds, hValue⟩ := Option.map_eq_some_iff.mp hTraces
  exact ⟨steps, r, t, .of_traceWith hEnds, hValue⟩

/-- Where every step is an `R` step, so is every step of a trace. -/
theorem Steps.trace {R : σ → σ → Prop} {c c' : Co σ ε α} (hSteps : Steps R c)
    (hTrace : Trace env c s steps c' t) : ∀ u v, (u, v) ∈ steps → R u v := by
  induction hTrace with
  | stop => simp
  | step _ hReady _ ih =>
      obtain ⟨-, hStep, hNext⟩ := hSteps _ trivial trivial hReady
      intro u v hMem
      rcases List.mem_cons.mp hMem with hEq | hMem
      · obtain ⟨rfl, rfl⟩ := Prod.mk.inj hEq
        exact hStep
      · exact ih hNext u v hMem

theorem Trace.mono {env' : σ → σ → Prop} {c c' : Co σ ε α} (hEnv : ∀ s s', env s s' → env' s s')
    (hTrace : Trace env c s steps c' t) : Trace env' c s steps c' t := by
  induction hTrace with
  | stop c s => exact .stop c s
  | step hMoves hReady _ ih => exact .step (Relation.ReflTransGen.mono hEnv _ _ hMoves) hReady ih

theorem Trace.trans {c c' c'' : Co σ ε α} {u : σ} {more : List (σ × σ)}
    (hTrace : Trace env c s steps c' t) (hMore : Trace env c' t more c'' u) :
    Trace env c s (steps ++ more) c'' u := by
  induction hTrace with
  | stop => exact hMore
  | step hMoves hReady _ ih => exact .step hMoves hReady (ih hMore)

theorem keeps_reflTransGen {A : σ → Prop} (hEnv : ∀ s s', A s → env s s' → A s')
    (hMoves : Relation.ReflTransGen env s t) (hA : A s) : A t := by
  induction hMoves with
  | refl => exact hA
  | tail _ hMove ih => exact hEnv _ _ ih hMove

/-- What the environment and every step of a trace keep holds where it ends. -/
theorem Trace.keeps {A : σ → Prop} {c c' : Co σ ε α} (hEnv : ∀ s s', A s → env s s' → A s')
    (hTrace : Trace env c s steps c' t) (hSteps : ∀ u v, (u, v) ∈ steps → A u → A v) (hA : A s) :
    A t := by
  induction hTrace with
  | stop => exact hA
  | step hMoves _ _ ih =>
      have hBefore := keeps_reflTransGen hEnv hMoves hA
      exact ih (fun u v hMem => hSteps u v (List.mem_cons_of_mem _ hMem))
        (hSteps _ _ List.mem_cons_self hBefore)

theorem Steps.trace_keeps {R : σ → σ → Prop} {A : σ → Prop} {c c' : Co σ ε α}
    (hSteps : Steps R c) (hEnv : ∀ s s', A s → env s s' → A s')
    (hStep : ∀ s s', A s → R s s' → A s') (hTrace : Trace env c s steps c' t) (hA : A s) : A t :=
  hTrace.keeps hEnv (fun u v hMem hBefore => hStep u v hBefore (hSteps.trace hTrace u v hMem)) hA

theorem Trace.done_cases {value : α} {r : Except ε α}
    (hTrace : Trace env (.done value) s steps (ended r) t) :
    r = .ok value ∧ steps = [] ∧ t = s := by
  generalize hEnd : ended r = c' at hTrace
  cases hTrace
  exact ⟨ended_eq_done.mp hEnd, rfl, rfl⟩

theorem Trace.fail_cases {error : ε} {r : Except ε α}
    (hTrace : Trace env (.fail error) s steps (ended r) t) :
    r = .error error ∧ steps = [] ∧ t = s := by
  generalize hEnd : ended r = c' at hTrace
  cases hTrace
  exact ⟨ended_eq_fail.mp hEnd, rfl, rfl⟩

theorem Trace.await_cases {ready : σ → Bool} {act : σ → σ} {next : σ → Co σ ε α} {r : Except ε α}
    (hTrace : Trace env (.await ready act next) s steps (ended r) t) :
    ∃ s' rest, steps = (s', act s') :: rest ∧ Relation.ReflTransGen env s s' ∧
      ready s' = true ∧ Trace env (next s') (act s') rest (ended r) t := by
  generalize hEnd : ended r = c' at hTrace
  cases hTrace with
  | stop => cases r <;> simp [ended] at hEnd
  | step hEnv hReady hRest => exact ⟨_, _, rfl, hEnv, hReady, hRest⟩

/-- A complete trace of a sequence is one of the first part and then one of the
second, unless the first part fails. -/
theorem Trace.bind_cases {c : Co σ ε α} {f : α → Co σ ε β} {r : Except ε β}
    (hTrace : Trace env (c.bind f) s steps (ended r) t) :
    (∃ value first second u, steps = first ++ second ∧
      Trace env c s first (ended (.ok value)) u ∧ Trace env (f value) u second (ended r) t) ∨
    ∃ error, r = .error error ∧ Trace env c s steps (ended (.error error)) t := by
  induction c generalizing s steps with
  | done value => exact Or.inl ⟨value, [], steps, s, rfl, .stop _ s, hTrace⟩
  | fail error =>
      obtain ⟨rfl, rfl, rfl⟩ := Trace.fail_cases (α := β) hTrace
      exact Or.inr ⟨error, rfl, .stop _ _⟩
  | await ready act next ih =>
      obtain ⟨s', rest, rfl, hEnv, hReady, hRest⟩ := Trace.await_cases hTrace
      rcases ih s' hRest with ⟨value, first, second, u, rfl, hFirst, hSecond⟩ | ⟨error, rfl, hFail⟩
      · exact Or.inl ⟨value, _ :: first, second, u, rfl, .step hEnv hReady hFirst, hSecond⟩
      · exact Or.inr ⟨error, rfl, .step hEnv hReady hFail⟩

/-- A complete trace of a guarded part is one of that part, followed by one of
the handler if it fails. -/
theorem Trace.tryCatch_cases {c : Co σ ε α} {handler : ε → Co σ ε' α} {r : Except ε' α}
    (hTrace : Trace env (c.tryCatch handler) s steps (ended r) t) :
    (∃ value, r = .ok value ∧ Trace env c s steps (ended (.ok value)) t) ∨
    ∃ error first second u, steps = first ++ second ∧
      Trace env c s first (ended (.error error)) u ∧
      Trace env (handler error) u second (ended r) t := by
  induction c generalizing s steps with
  | done value =>
      obtain ⟨rfl, rfl, rfl⟩ := Trace.done_cases hTrace
      exact Or.inl ⟨value, rfl, .stop _ _⟩
  | fail error => exact Or.inr ⟨error, [], steps, s, rfl, .stop _ s, hTrace⟩
  | await ready act next ih =>
      obtain ⟨s', rest, rfl, hEnv, hReady, hRest⟩ := Trace.await_cases hTrace
      rcases ih s' hRest with ⟨value, rfl, hFirst⟩ | ⟨error, first, second, u, rfl, hFirst, hSecond⟩
      · exact Or.inl ⟨value, rfl, .step hEnv hReady hFirst⟩
      · exact Or.inr ⟨error, _ :: first, second, u, rfl, .step hEnv hReady hFirst, hSecond⟩

/-- A complete trace of an atomic step is that step. -/
theorem Trace.attempt_cases {f : σ → Except ε α × σ} {r : Except ε α}
    (hTrace : Trace env (attempt f) s steps (ended r) t) :
    ∃ u, Relation.ReflTransGen env s u ∧ steps = [(u, (f u).2)] ∧ r = (f u).1 ∧ t = (f u).2 := by
  obtain ⟨u, rest, rfl, hEnv, -, hRest⟩ := Trace.await_cases hTrace
  have hEnded : Trace env (ended (f u).1) (f u).2 rest (ended r) t := by
    cases hResult : (f u).1 <;> simpa [hResult, ended] using hRest
  cases hResult : (f u).1 with
  | ok value =>
      rw [hResult] at hEnded
      obtain ⟨rfl, rfl, rfl⟩ := Trace.done_cases hEnded
      exact ⟨u, hEnv, rfl, hResult.symm, rfl⟩
  | error error =>
      rw [hResult] at hEnded
      obtain ⟨rfl, rfl, rfl⟩ := Trace.fail_cases hEnded
      exact ⟨u, hEnv, rfl, hResult.symm, rfl⟩

theorem Trace.modify_cases {f : σ → σ} {r : Except ε Unit}
    (hTrace : Trace env (modify f : Co σ ε Unit) s steps (ended r) t) :
    ∃ u, Relation.ReflTransGen env s u ∧ steps = [(u, f u)] ∧ r = .ok () ∧ t = f u := by
  obtain ⟨u, rest, rfl, hEnv, -, hRest⟩ := Trace.await_cases hTrace
  obtain ⟨rfl, rfl, rfl⟩ := Trace.done_cases hRest
  exact ⟨u, hEnv, rfl, rfl, rfl⟩

/-- An atomic step and what comes after it, unless the step raises. -/
theorem Trace.attempt_bind_cases {f : σ → Except ε α × σ} {g : α → Co σ ε β} {r : Except ε β}
    (hTrace : Trace env ((attempt f).bind g) s steps (ended r) t) :
    ∃ u, Relation.ReflTransGen env s u ∧
      ((∃ value rest, (f u).1 = .ok value ∧ steps = (u, (f u).2) :: rest ∧
        Trace env (g value) (f u).2 rest (ended r) t) ∨
      ∃ error, (f u).1 = .error error ∧ steps = [(u, (f u).2)] ∧ r = .error error ∧
        t = (f u).2) := by
  rcases hTrace.bind_cases with ⟨value, first, rest, v, rfl, hFirst, hRest⟩ | ⟨error, rfl, hFail⟩
  · obtain ⟨u, hEnv, rfl, hValue, rfl⟩ := hFirst.attempt_cases
    exact ⟨u, hEnv, Or.inl ⟨value, rest, hValue.symm, rfl, hRest⟩⟩
  · obtain ⟨u, hEnv, rfl, hError, rfl⟩ := hFail.attempt_cases
    exact ⟨u, hEnv, Or.inr ⟨error, hError.symm, rfl, rfl, rfl⟩⟩

end Inversion

/-! ## Errors -/

/-- As long as it is resumed in `G` states only, the coroutine raises nothing but
the errors in `E`. -/
def Raises (G : σ → Prop) (E : ε → Prop) : Co σ ε α → Prop
  | done _ => True
  | fail error => E error
  | await _ _ next => ∀ s, G s → Raises G E (next s)

section Errors

variable {G : σ → Prop} {E : ε → Prop} {E' : ε' → Prop}

theorem raises_done (value : α) : Raises G E (.done value : Co σ ε α) := trivial

theorem Raises.bind {c : Co σ ε α} {f : α → Co σ ε β} (hFirst : Raises G E c)
    (hRest : ∀ value, Raises G E (f value)) : Raises G E (c.bind f) := by
  induction c with
  | done value => exact hRest value
  | fail error => exact hFirst
  | await ready act next ih => exact fun s hG => ih s (hFirst s hG)

theorem Raises.tryCatch {c : Co σ ε α} {handler : ε → Co σ ε' α} (hFirst : Raises G E c)
    (hHandler : ∀ error, E error → Raises G E' (handler error)) :
    Raises G E' (c.tryCatch handler) := by
  induction c with
  | done value => trivial
  | fail error => exact hHandler error hFirst
  | await ready act next ih => exact fun s hG => ih s (hFirst s hG)

theorem raises_attempt {f : σ → Except ε α × σ}
    (hError : ∀ s error, G s → (f s).1 = .error error → E error) : Raises G E (attempt f) := by
  intro s hG
  dsimp only
  cases hResult : (f s).1 with
  | ok value => trivial
  | error error => exact hError s error hG hResult

theorem Raises.trace {env : σ → σ → Prop} {s t : σ} {steps : List (σ × σ)} {c : Co σ ε α}
    {error : ε} (hRaises : Raises G E c) (hTrace : Trace env c s steps (ended (.error error)) t)
    (hSteps : ∀ u v, (u, v) ∈ steps → G u) : E error := by
  induction c generalizing s steps with
  | done value => exact absurd hTrace.done_cases.1 (by simp)
  | fail error' =>
      obtain rfl := Except.error.inj hTrace.fail_cases.1
      exact hRaises
  | await ready act next ih =>
      obtain ⟨u, rest, rfl, -, -, hRest⟩ := hTrace.await_cases
      exact ih u (hRaises u (hSteps u _ List.mem_cons_self)) hRest
        fun v v' hMem => hSteps v v' (List.mem_cons_of_mem _ hMem)

end Errors

end Co

end Coop
