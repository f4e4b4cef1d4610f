import OctoForge.Coop.Trace

/-!
# One coroutine beside its surroundings

The rules of `RelyGuarantee` are for many coroutines that share a state.  Where
one coroutine works beside an environment and nobody else, nobody has to be
promised anything, and two things are worth having instead: a postcondition for
the errors that speaks of the state (`Contract`), and the invariant at every
moment of a run, not only where it ends (`Contract.trace`).
-/

namespace Coop

variable {σ ε ε' α β : Type}

/-- One coroutine, number 0, beside an environment that keeps the invariant. -/
def Protocol.alone (inv : σ → Prop) (env : σ → σ → Prop) : Protocol σ where
  inv := inv
  guarantee me _ _ := me = 0
  env := env

/-- An assertion the surroundings do not break. -/
def Undisturbed (inv : σ → Prop) (env : σ → σ → Prop) (A : σ → Prop) : Prop :=
  ∀ s s', inv s → inv s' → env s s' → A s → A s'

section Undisturbed

variable {inv : σ → Prop} {env : σ → σ → Prop} {A : σ → Prop}

theorem Undisturbed.stable (hKept : Undisturbed inv env A) :
    (Protocol.alone inv env).Stable 0 fun s => inv s ∧ A s := by
  intro s s' hBoth hRely
  obtain ⟨hInv', ⟨other, hOther, hZero⟩ | hEnv⟩ := hRely
  · exact absurd hZero hOther
  · exact ⟨hInv', hKept s s' hBoth.1 hInv' hEnv hBoth.2⟩

theorem Undisturbed.and {A' : σ → Prop} (hKept : Undisturbed inv env A)
    (hKept' : Undisturbed inv env A') : Undisturbed inv env fun s => A s ∧ A' s :=
  fun s s' hInv hInv' hEnv hBoth =>
    ⟨hKept s s' hInv hInv' hEnv hBoth.1, hKept' s s' hInv hInv' hEnv hBoth.2⟩

theorem undisturbed_true : Undisturbed inv env fun _ => True := fun _ _ _ _ _ _ => trivial

end Undisturbed

namespace Co

/-- What is left behind: `B` after a value and `E` after an error. -/
def Left (B : α → σ → Prop) (E : ε → σ → Prop) : Except ε α → σ → Prop
  | .ok value, s => B value s
  | .error error, s => E error s

/-- Started in a state with the invariant and `A`, the coroutine keeps the
invariant; `B` holds where it returns and `E` where it raises. -/
def Contract (inv : σ → Prop) (env : σ → σ → Prop) (A : σ → Prop) (c : Co σ ε α)
    (B : α → σ → Prop) (E : ε → σ → Prop) : Prop :=
  ∀ s, inv s → A s →
    Safe (Protocol.alone inv env) 0 (fun r t => inv t ∧ Left B E r t) c s

variable {inv : σ → Prop} {env : σ → σ → Prop} {A : σ → Prop} {B : α → σ → Prop}
  {E : ε → σ → Prop}

theorem contract_done {value : α} (hPost : ∀ s, inv s → A s → B value s) :
    Contract inv env A (.done value : Co σ ε α) B E :=
  fun s hInv hA => ⟨hInv, hPost s hInv hA⟩

theorem contract_fail {error : ε} (hError : ∀ s, inv s → A s → E error s) :
    Contract inv env A (.fail error : Co σ ε α) B E :=
  fun s hInv hA => ⟨hInv, hError s hInv hA⟩

theorem Contract.mono {A' : σ → Prop} {B' : α → σ → Prop} {E' : ε → σ → Prop} {c : Co σ ε α}
    (hContract : Contract inv env A c B E) (hPre : ∀ s, inv s → A' s → A s)
    (hPost : ∀ value t, inv t → B value t → B' value t)
    (hError : ∀ error t, inv t → E error t → E' error t) : Contract inv env A' c B' E' := by
  intro s hInv hA
  refine (hContract s hInv (hPre s hInv hA)).mono fun r t hAfter => ⟨hAfter.1, ?_⟩
  cases r with
  | ok value => exact hPost value t hAfter.1 hAfter.2
  | error error => exact hError error t hAfter.1 hAfter.2

/-- A stronger precondition. -/
theorem Contract.pre {A' : σ → Prop} {c : Co σ ε α} (hContract : Contract inv env A c B E)
    (hPre : ∀ s, inv s → A' s → A s) : Contract inv env A' c B E :=
  hContract.mono hPre (fun _ _ _ hPost => hPost) fun _ _ _ hError => hError

/-- A weaker postcondition. -/
theorem Contract.post {B' : α → σ → Prop} {c : Co σ ε α} (hContract : Contract inv env A c B E)
    (hPost : ∀ value t, inv t → B value t → B' value t) : Contract inv env A c B' E :=
  hContract.mono (fun _ _ hA => hA) hPost fun _ _ _ hError => hError

theorem Contract.bind {C : β → σ → Prop} {c : Co σ ε α} {f : α → Co σ ε β}
    (hFirst : Contract inv env A c B E) (hRest : ∀ value, Contract inv env (B value) (f value) C E) :
    Contract inv env A (c.bind f) C E := by
  intro s hInv hA
  rw [safe_bind]
  refine (hFirst s hInv hA).mono fun r t hAfter => ?_
  cases r with
  | ok value => exact hRest value t hAfter.1 hAfter.2
  | error error => exact hAfter

theorem Contract.tryCatch {E' : ε' → σ → Prop} {c : Co σ ε α} {handler : ε → Co σ ε' α}
    (hFirst : Contract inv env A c B E)
    (hHandler : ∀ error, Contract inv env (E error) (handler error) B E') :
    Contract inv env A (c.tryCatch handler) B E' := by
  intro s hInv hA
  rw [safe_tryCatch]
  refine (hFirst s hInv hA).mono fun r t hAfter => ?_
  cases r with
  | ok value => exact hAfter
  | error error => exact hHandler error t hAfter.1 hAfter.2

/-- A loop that works through a list: `A` speaks of what is left of it. -/
theorem Contract.forEach {A : List β → σ → Prop} {body : β → Co σ ε Unit} (items : List β)
    (hBody : ∀ item rest, Contract inv env (A (item :: rest)) (body item) (fun _ => A rest) E) :
    Contract inv env (A items) (Co.forEach items body) (fun _ => A []) E := by
  induction items with
  | nil => exact contract_done fun _ _ hA => hA
  | cons item rest ih => exact (hBody item rest).bind fun _ => ih

/-- The same, for a loop in which one assertion holds throughout. -/
theorem Contract.forEach_const {A : σ → Prop} {body : β → Co σ ε Unit} (items : List β)
    (hBody : ∀ item ∈ items, Contract inv env A (body item) (fun _ => A) E) :
    Contract inv env A (Co.forEach items body) (fun _ => A) E := by
  induction items with
  | nil => exact contract_done fun _ _ hA => hA
  | cons item rest ih =>
      refine (hBody item List.mem_cons_self).bind fun _ => ?_
      exact ih fun other hOther => hBody other (List.mem_cons_of_mem item hOther)

theorem contract_attemptWhen {ready : σ → Bool} {f : σ → Except ε α × σ}
    (hKept : Undisturbed inv env A)
    (hStep : ∀ s, inv s → A s → ready s = true → inv (f s).2 ∧ Left B E (f s).1 (f s).2) :
    Contract inv env A (attemptWhen ready f) B E := by
  intro s hInv hA
  refine safe_await _ hKept.stable ⟨hInv, hA⟩ fun s' hBoth _ hReady => ?_
  obtain ⟨hInv', hLeft⟩ := hStep s' hBoth.1 hBoth.2 hReady
  refine ⟨hInv', rfl, ?_⟩
  cases hResult : (f s').1 with
  | ok value =>
      rw [hResult] at hLeft
      exact ⟨hInv', hLeft⟩
  | error error =>
      rw [hResult] at hLeft
      exact ⟨hInv', hLeft⟩

theorem contract_attempt {f : σ → Except ε α × σ} (hKept : Undisturbed inv env A)
    (hStep : ∀ s, inv s → A s → inv (f s).2 ∧ Left B E (f s).1 (f s).2) :
    Contract inv env A (attempt f) B E :=
  contract_attemptWhen hKept fun s hInv hA _ => hStep s hInv hA

theorem contract_atomic {f : σ → α × σ} (hKept : Undisturbed inv env A)
    (hStep : ∀ s, inv s → A s → inv (f s).2 ∧ B (f s).1 (f s).2) :
    Contract inv env A (atomic f : Co σ ε α) B E := by
  intro s hInv hA
  refine safe_await _ hKept.stable ⟨hInv, hA⟩ fun s' hBoth _ _ => ?_
  obtain ⟨hInv', hPost⟩ := hStep s' hBoth.1 hBoth.2
  exact ⟨hInv', rfl, hInv', hPost⟩

theorem contract_modify {f : σ → σ} {B : σ → Prop} (hKept : Undisturbed inv env A)
    (hStep : ∀ s, inv s → A s → inv (f s) ∧ B (f s)) :
    Contract inv env A (modify f : Co σ ε Unit) (fun _ => B) E := by
  intro s hInv hA
  refine safe_await _ hKept.stable ⟨hInv, hA⟩ fun s' hBoth _ _ => ?_
  obtain ⟨hInv', hPost⟩ := hStep s' hBoth.1 hBoth.2
  exact ⟨hInv', rfl, hInv', hPost⟩

theorem contract_read {f : σ → α} (hKept : Undisturbed inv env A) :
    Contract inv env A (read f : Co σ ε α) (fun value s => A s ∧ value = f s) E := by
  intro s hInv hA
  exact safe_await _ hKept.stable ⟨hInv, hA⟩ fun s' hBoth _ _ =>
    ⟨hBoth.1, rfl, hBoth.1, hBoth.2, rfl⟩

/-! ## Runs and traces -/

theorem rely_alone (hEnv : ∀ s s', inv s → env s s' → inv s') {s s' : σ} (hInv : inv s)
    (hMoves : Relation.ReflTransGen env s s') :
    Relation.ReflTransGen ((Protocol.alone inv env).rely 0) s s' ∧ inv s' := by
  induction hMoves with
  | refl => exact ⟨.refl, hInv⟩
  | tail _ hMove ih =>
      have hInv' := hEnv _ _ ih.2 hMove
      exact ⟨ih.1.tail ⟨hInv', Or.inr hMove⟩, hInv'⟩

theorem Contract.run {c : Co σ ε α} {s t : σ} {r : Except ε α}
    (hContract : Contract inv env A c B E) (hEnv : ∀ s s', inv s → env s s' → inv s')
    (hInv : inv s) (hA : A s) (hRun : Run env c s r t) : inv t ∧ Left B E r t := by
  have hSafe := hContract s hInv hA
  clear hContract hA
  induction hRun with
  | done value s => exact hSafe
  | fail error s => exact hSafe
  | await hMoves hReady _ ih =>
      obtain ⟨hRely, hInv'⟩ := rely_alone hEnv hInv hMoves
      obtain ⟨hInvNext, -, hNext⟩ := hSafe _ hRely hInv' hReady
      exact ih hInvNext hNext

/-- The invariant holds at every moment. -/
theorem Contract.trace {c c' : Co σ ε α} {s t : σ} {steps : List (σ × σ)}
    (hContract : Contract inv env A c B E) (hEnv : ∀ s s', inv s → env s s' → inv s')
    (hInv : inv s) (hA : A s) (hTrace : Trace env c s steps c' t) : inv t := by
  have hSafe := hContract s hInv hA
  clear hContract hA
  induction hTrace with
  | stop => exact hInv
  | step hMoves hReady _ ih =>
      obtain ⟨hRely, hInv'⟩ := rely_alone hEnv hInv hMoves
      obtain ⟨hInvNext, -, hNext⟩ := hSafe _ hRely hInv' hReady
      exact ih hInvNext hNext

/-- Where the coroutine has ended, its postcondition holds. -/
theorem Contract.trace_left {c : Co σ ε α} {s t : σ} {steps : List (σ × σ)} {r : Except ε α}
    (hContract : Contract inv env A c B E) (hEnv : ∀ s s', inv s → env s s' → inv s')
    (hInv : inv s) (hA : A s) (hTrace : Trace env c s steps (ended r) t) : Left B E r t := by
  have hSafe := hContract s hInv hA
  clear hContract hA
  generalize hRest : (ended r : Co σ ε α) = rest at hTrace
  induction hTrace with
  | stop =>
      subst hRest
      cases r with
      | ok value => exact hSafe.2
      | error error => exact hSafe.2
  | step hMoves hReady _ ih =>
      obtain ⟨hRely, hInv'⟩ := rely_alone hEnv hInv hMoves
      obtain ⟨hInvNext, -, hNext⟩ := hSafe _ hRely hInv' hReady
      exact ih hInvNext hNext hRest

end Co
end Coop
