import Mathlib.Logic.Relation

/-!
# Cooperative coroutines

A coroutine over a shared state is a program that runs atomically from one
`await` to the next.  Between two of its steps the scheduler may let any other
coroutine run, so everything read before an `await` may have moved after it.

The type is an ordinary inductive tree: a coroutine has finished, has failed
with an error, or is suspended at an `await`.  A suspended coroutine names

* `ready`: the states in which the scheduler may resume it.  A lock that is
  taken or a task that has not ended is a state in which it is not ready;
* `act`: the change its next atomic step makes to the shared state;
* `next`: what it does afterwards, which may depend on the state it was
  resumed in.

Loops are folds over lists, so a coroutine is a finite tree along every path.
-/

namespace Coop

/-- A coroutine over the shared state `σ` with errors in `ε` and results in
`α`. -/
inductive Co (σ ε α : Type) : Type where
  | done (value : α)
  | fail (error : ε)
  | await (ready : σ → Bool) (act : σ → σ) (next : σ → Co σ ε α)

namespace Co

variable {σ ε ε' α β γ : Type}

/-- Sequencing: the continuation starts in the step the first part ends in. -/
def bind : Co σ ε α → (α → Co σ ε β) → Co σ ε β
  | done value, f => f value
  | fail error, _ => fail error
  | await ready act next, f => await ready act fun s => (next s).bind f

instance : Monad (Co σ ε) where
  pure := done
  bind := bind

/-- Handle the error of the first part. -/
def tryCatch : Co σ ε α → (ε → Co σ ε' α) → Co σ ε' α
  | done value, _ => done value
  | fail error, handler => handler error
  | await ready act next, handler =>
      await ready act fun s => (next s).tryCatch handler

/-- Raise an error. -/
def throw (error : ε) : Co σ ε α := fail error

/-- One atomic step that waits for its moment and returns a value or raises an
error. -/
def attemptWhen (ready : σ → Bool) (f : σ → Except ε α × σ) : Co σ ε α :=
  await ready (fun s => (f s).2) fun s =>
    match (f s).1 with
    | .ok value => done value
    | .error error => fail error

/-- One atomic step that returns a value or raises an error. -/
def attempt (f : σ → Except ε α × σ) : Co σ ε α :=
  attemptWhen (fun _ => true) f

/-- One atomic step. -/
def atomic (f : σ → α × σ) : Co σ ε α :=
  await (fun _ => true) (fun s => (f s).2) fun s => done (f s).1

/-- One atomic step that only reads. -/
def read (f : σ → α) : Co σ ε α :=
  await (fun _ => true) id fun s => done (f s)

/-- One atomic step that only writes. -/
def modify (f : σ → σ) : Co σ ε Unit :=
  await (fun _ => true) f fun _ => done ()

/-- One atomic step that waits for its moment. -/
def blockUntil (ready : σ → Bool) (f : σ → α × σ) : Co σ ε α :=
  await ready (fun s => (f s).2) fun s => done (f s).1

/-- Run `cleanup` after the coroutine, whether it returned or failed. -/
def ensure (cleanup : σ → σ) : Co σ ε α → Co σ ε α
  | done value => await (fun _ => true) cleanup fun _ => done value
  | fail error => await (fun _ => true) cleanup fun _ => fail error
  | await ready act next => await ready act fun s => ensure cleanup (next s)

/-- Run `body` for every element, in order. -/
def forEach : List β → (β → Co σ ε Unit) → Co σ ε Unit
  | [], _ => done ()
  | x :: rest, body => (body x).bind fun _ => forEach rest body

/-- Fold an accumulator through the elements, in order. -/
def foldEach (body : γ → β → Co σ ε γ) : γ → List β → Co σ ε γ
  | acc, [] => done acc
  | acc, x :: rest => (body acc x).bind fun acc' => foldEach body acc' rest

/-- The right operand of `gather` while the left one is suspended. -/
def gatherRight (turn : σ → Bool) (ready : σ → Bool) (act : σ → σ)
    (stepLeft : σ → Co σ ε β → Co σ ε (α × β)) : Co σ ε β → Co σ ε (α × β)
  | done value => await ready act fun s => stepLeft s (done value)
  | fail error => fail error
  | await ready' act' next' =>
      await (fun s => if turn s then ready s else ready' s)
        (fun s => if turn s then act s else act' s) fun s =>
          if turn s then stepLeft s (await ready' act' next')
          else gatherRight turn ready act stepLeft (next' s)

/-- Run two coroutines side by side and wait for both.  `turn` says which of
the two the scheduler resumes next. -/
def gather (turn : σ → Bool) : Co σ ε α → Co σ ε β → Co σ ε (α × β)
  | done value, right => right.bind fun value' => done (value, value')
  | fail error, _ => fail error
  | await ready act next, right =>
      gatherRight turn ready act (fun s right' => gather turn (next s) right') right

section Equations

@[simp] theorem pure_eq_done (value : α) : (pure value : Co σ ε α) = done value := rfl

@[simp] theorem bind_eq (c : Co σ ε α) (f : α → Co σ ε β) : c >>= f = c.bind f := rfl

@[simp] theorem bind_done (value : α) (f : α → Co σ ε β) :
    (done value : Co σ ε α).bind f = f value := rfl

@[simp] theorem bind_fail (error : ε) (f : α → Co σ ε β) :
    (fail error : Co σ ε α).bind f = fail error := rfl

@[simp] theorem tryCatch_done (value : α) (handler : ε → Co σ ε' α) :
    (done value : Co σ ε α).tryCatch handler = done value := rfl

@[simp] theorem tryCatch_fail (error : ε) (handler : ε → Co σ ε' α) :
    (fail error : Co σ ε α).tryCatch handler = handler error := rfl

theorem bind_assoc (c : Co σ ε α) (f : α → Co σ ε β) (g : β → Co σ ε γ) :
    (c.bind f).bind g = c.bind fun value => (f value).bind g := by
  induction c with
  | done value => rfl
  | fail error => rfl
  | await ready act next ih =>
      simp only [bind]
      congr 1
      funext s
      exact ih s

end Equations

/-! ## Runs beside an environment -/

/-- `Run env c s r t`: resumed from `s`, the coroutine ends with `r` in `t`,
and between any two of its steps the environment made any number of `env`
steps. -/
inductive Run (env : σ → σ → Prop) : Co σ ε α → σ → Except ε α → σ → Prop
  | done (value : α) (s : σ) : Run env (.done value) s (.ok value) s
  | fail (error : ε) (s : σ) : Run env (.fail error) s (.error error) s
  | await {ready : σ → Bool} {act : σ → σ} {next : σ → Co σ ε α} {s s' t : σ}
      {r : Except ε α}
      (hEnv : Relation.ReflTransGen env s s') (hReady : ready s' = true)
      (hRest : Run env (next s') (act s') r t) : Run env (.await ready act next) s r t

/-- The executable scheduler behind concrete runs: before every step of the
coroutine the environment plays the moves in the next entry of the schedule. -/
def runWith {μ : Type} (play : μ → σ → σ) :
    List (List μ) → Co σ ε α → σ → Option (Except ε α × σ)
  | _, done value, s => some (.ok value, s)
  | _, fail error, s => some (.error error, s)
  | schedule, await ready act next, s =>
      let s' := (schedule.headD []).foldl (fun s m => play m s) s
      if ready s' then runWith play schedule.tail (next s') (act s') else none

theorem reflTransGen_play {μ : Type} (play : μ → σ → σ) (moves : List μ) (s : σ) :
    Relation.ReflTransGen (fun s s' => ∃ m, s' = play m s) s
      (moves.foldl (fun s m => play m s) s) := by
  induction moves generalizing s with
  | nil => exact .refl
  | cons m rest ih => exact .head ⟨m, rfl⟩ (ih (play m s))

/-- What the scheduler computes is a run. -/
theorem Run.of_runWith {μ : Type} {play : μ → σ → σ} {schedule : List (List μ)}
    {c : Co σ ε α} {s t : σ} {r : Except ε α} (hRuns : runWith play schedule c s = some (r, t)) :
    Run (fun s s' => ∃ m, s' = play m s) c s r t := by
  induction c generalizing s schedule with
  | done value =>
      simp only [runWith, Option.some.injEq, Prod.mk.injEq] at hRuns
      obtain ⟨rfl, rfl⟩ := hRuns
      exact .done value s
  | fail error =>
      simp only [runWith, Option.some.injEq, Prod.mk.injEq] at hRuns
      obtain ⟨rfl, rfl⟩ := hRuns
      exact .fail error s
  | await ready act next ih =>
      simp only [runWith] at hRuns
      split at hRuns
      · rename_i hReady
        exact .await (reflTransGen_play play _ s) hReady (ih _ hRuns)
      · simp at hRuns

/-- What the scheduler computes is true of some run. -/
theorem Run.exists_of_runWith {μ τ : Type} {play : μ → σ → σ} {c : Co σ ε α} {s : σ}
    {f : Except ε α → σ → τ} {value : τ} (schedule : List (List μ))
    (hRuns : (runWith play schedule c s).map (fun (r, t) => f r t) = some value) :
    ∃ r t, Run (fun s s' => ∃ m, s' = play m s) c s r t ∧ f r t = value := by
  obtain ⟨⟨r, t⟩, hEnds, hValue⟩ := Option.map_eq_some_iff.mp hRuns
  exact ⟨r, t, Run.of_runWith hEnds, hValue⟩

end Co

end Coop
