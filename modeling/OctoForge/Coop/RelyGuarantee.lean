import OctoForge.Coop.Coroutine

/-!
# Rely-guarantee reasoning about coroutines

A `Protocol` says what the coroutines of a system promise each other: a state
invariant, what each of them may change in one step (`guarantee`), and what
the surroundings may change (`env`).  `Safe` is the judgement that a coroutine
keeps its promises from a given state on, however the others interleave, and
ends in a state that satisfies its postcondition.

Two ways to establish `Safe` are enough in practice.  Where a step keeps the
invariant whatever the coroutine remembers, `Atoms` checks the steps one by
one with no assertions in between.  Where a step relies on something read
before an `await`, `safe_await` carries an assertion that the others cannot
break (`Stable`).
-/

namespace Coop

/-- What the coroutines of one system promise each other. -/
structure Protocol (σ : Type) where
  /-- Holds in every state between two steps. -/
  inv : σ → Prop
  /-- What a step of the given coroutine may do. -/
  guarantee : Nat → σ → σ → Prop
  /-- What a step of the surroundings may do. -/
  env : σ → σ → Prop

namespace Protocol

variable {σ : Type} (P : Protocol σ)

/-- A step of somebody else, as coroutine `me` sees it. -/
def rely (me : Nat) (s s' : σ) : Prop :=
  P.inv s' ∧ ((∃ other, other ≠ me ∧ P.guarantee other s s') ∨ P.env s s')

/-- An assertion the others cannot break. -/
def Stable (me : Nat) (A : σ → Prop) : Prop :=
  ∀ s s', A s → P.rely me s s' → A s'

theorem Stable.reflTransGen {P : Protocol σ} {me : Nat} {A : σ → Prop}
    (hStable : P.Stable me A) {s s' : σ}
    (hSteps : Relation.ReflTransGen (P.rely me) s s') (hA : A s) : A s' := by
  induction hSteps with
  | refl => exact hA
  | tail _ hStep ih => exact hStable _ _ ih hStep

theorem Stable.true (me : Nat) : P.Stable me fun _ => True :=
  fun _ _ _ _ => trivial

theorem Stable.and {P : Protocol σ} {me : Nat} {A B : σ → Prop} (hA : P.Stable me A)
    (hB : P.Stable me B) : P.Stable me fun s => A s ∧ B s :=
  fun s s' h hStep => ⟨hA s s' h.1 hStep, hB s s' h.2 hStep⟩

/-- An assertion no step of anybody breaks. -/
def Kept (A : σ → Prop) : Prop :=
  ∀ s s', P.inv s → A s → (∃ me, P.guarantee me s s') ∨ P.env s s' → A s'

theorem Kept.true : P.Kept fun _ => True :=
  fun _ _ _ _ _ => trivial

theorem Kept.stable {P : Protocol σ} {A : σ → Prop} (hKept : P.Kept A) (me : Nat) :
    P.Stable me fun s => P.inv s ∧ A s := by
  intro s s' hA hRely
  obtain ⟨hInv', hStep⟩ := hRely
  refine ⟨hInv', ?_⟩
  rcases hStep with ⟨other, _, hOther⟩ | hEnv
  · exact hKept s s' hA.1 hA.2 (Or.inl ⟨other, hOther⟩)
  · exact hKept s s' hA.1 hA.2 (Or.inr hEnv)

/-- The protocol in which everybody takes the same kind of step. -/
def ofStep (inv : σ → Prop) (step : σ → σ → Prop) : Protocol σ where
  inv := inv
  guarantee _ := step
  env := step

/-- One coroutine, number 0, beside an environment and nobody else. -/
def beside (env : σ → σ → Prop) : Protocol σ where
  inv _ := True
  guarantee me _ _ := me = 0
  env := env

theorem stable_beside {env : σ → σ → Prop} {A : σ → Prop}
    (hStep : ∀ s s', A s → env s s' → A s') : (beside env).Stable 0 A := by
  intro s s' hA hRely
  obtain ⟨-, ⟨other, hOther, hZero⟩ | hEnv⟩ := hRely
  · exact absurd hZero hOther
  · exact hStep s s' hA hEnv

theorem kept_ofStep {inv A : σ → Prop} {step : σ → σ → Prop}
    (hStep : ∀ s s', inv s → A s → step s s' → A s') : (ofStep inv step).Kept A := by
  intro s s' hInv hA hAny
  rcases hAny with ⟨_, hOther⟩ | hEnv
  · exact hStep s s' hInv hA hOther
  · exact hStep s s' hInv hA hEnv

end Protocol

namespace Co

variable {σ ε ε' α β γ : Type} {P : Protocol σ} {me : Nat}

/-- From state `s` on, the coroutine `me` keeps the protocol in every
interleaving, and where it ends its outcome satisfies `post`. -/
def Safe (P : Protocol σ) (me : Nat) (post : Except ε α → σ → Prop) :
    Co σ ε α → σ → Prop
  | done value, s => post (.ok value) s
  | fail error, s => post (.error error) s
  | await ready act next, s =>
      ∀ s', Relation.ReflTransGen (P.rely me) s s' → P.inv s' → ready s' = true →
        P.inv (act s') ∧ P.guarantee me s' (act s') ∧
          Safe P me post (next s') (act s')

@[simp] theorem safe_done (post : Except ε α → σ → Prop) (value : α) (s : σ) :
    Safe P me post (.done value) s ↔ post (.ok value) s := Iff.rfl

@[simp] theorem safe_fail (post : Except ε α → σ → Prop) (error : ε) (s : σ) :
    Safe P me post (.fail error) s ↔ post (.error error) s := Iff.rfl

/-- The await rule: an assertion nobody else can break survives the
suspension, and the step is checked under it. -/
theorem safe_await {post : Except ε α → σ → Prop} {ready : σ → Bool} {act : σ → σ}
    {next : σ → Co σ ε α} {s : σ} (A : σ → Prop) (hStable : P.Stable me A) (hA : A s)
    (hStep : ∀ s', A s' → P.inv s' → ready s' = true →
      P.inv (act s') ∧ P.guarantee me s' (act s') ∧ Safe P me post (next s') (act s')) :
    Safe P me post (.await ready act next) s := by
  intro s' hEnv hInv hReady
  exact hStep s' (hStable.reflTransGen hEnv hA) hInv hReady

/-- The await rule for an assertion no step of anybody breaks. -/
theorem safe_await_kept {post : Except ε α → σ → Prop} {ready : σ → Bool} {act : σ → σ}
    {next : σ → Co σ ε α} {s : σ} {A : σ → Prop} (hKept : P.Kept A) (hInv : P.inv s) (hA : A s)
    (hStep : ∀ s', P.inv s' → A s' → ready s' = true →
      P.inv (act s') ∧ P.guarantee me s' (act s') ∧ Safe P me post (next s') (act s')) :
    Safe P me post (.await ready act next) s :=
  safe_await (fun t => P.inv t ∧ A t) (hKept.stable me) ⟨hInv, hA⟩
    fun s' hBoth hInv' hReady => hStep s' hInv' hBoth.2 hReady

theorem Safe.mono {post post' : Except ε α → σ → Prop} {c : Co σ ε α} {s : σ}
    (hPost : ∀ r t, post r t → post' r t) (hSafe : Safe P me post c s) :
    Safe P me post' c s := by
  induction c generalizing s with
  | done value => exact hPost _ _ hSafe
  | fail error => exact hPost _ _ hSafe
  | await ready act next ih =>
      intro s' hEnv hInv hReady
      obtain ⟨hInv', hGuarantee, hRest⟩ := hSafe s' hEnv hInv hReady
      exact ⟨hInv', hGuarantee, ih s' hRest⟩

/-- The postcondition a first part owes to its continuation. -/
def continuePost (P : Protocol σ) (me : Nat) (post : Except ε β → σ → Prop)
    (f : α → Co σ ε β) : Except ε α → σ → Prop
  | .ok value, s => Safe P me post (f value) s
  | .error error, s => post (.error error) s

/-- The postcondition a guarded part owes to its handler. -/
def handlePost (P : Protocol σ) (me : Nat) (post : Except ε' α → σ → Prop)
    (handler : ε → Co σ ε' α) : Except ε α → σ → Prop
  | .ok value, s => post (.ok value) s
  | .error error, s => Safe P me post (handler error) s

@[simp] theorem continuePost_ok (post : Except ε β → σ → Prop) (f : α → Co σ ε β)
    (value : α) (s : σ) :
    continuePost P me post f (.ok value) s ↔ Safe P me post (f value) s := Iff.rfl

@[simp] theorem continuePost_error (post : Except ε β → σ → Prop) (f : α → Co σ ε β)
    (error : ε) (s : σ) :
    continuePost P me post f (.error error) s ↔ post (.error error) s := Iff.rfl

@[simp] theorem handlePost_ok (post : Except ε' α → σ → Prop) (handler : ε → Co σ ε' α)
    (value : α) (s : σ) :
    handlePost P me post handler (.ok value) s ↔ post (.ok value) s := Iff.rfl

@[simp] theorem handlePost_error (post : Except ε' α → σ → Prop) (handler : ε → Co σ ε' α)
    (error : ε) (s : σ) :
    handlePost P me post handler (.error error) s ↔ Safe P me post (handler error) s := Iff.rfl

theorem safe_bind {post : Except ε β → σ → Prop} {c : Co σ ε α} {f : α → Co σ ε β} {s : σ} :
    Safe P me post (c.bind f) s ↔ Safe P me (continuePost P me post f) c s := by
  induction c generalizing s with
  | done value => exact Iff.rfl
  | fail error => exact Iff.rfl
  | await ready act next ih =>
      constructor
      · intro hSafe s' hEnv hInv hReady
        obtain ⟨hInv', hGuarantee, hRest⟩ := hSafe s' hEnv hInv hReady
        exact ⟨hInv', hGuarantee, (ih s').mp hRest⟩
      · intro hSafe s' hEnv hInv hReady
        obtain ⟨hInv', hGuarantee, hRest⟩ := hSafe s' hEnv hInv hReady
        exact ⟨hInv', hGuarantee, (ih s').mpr hRest⟩

theorem safe_tryCatch {post : Except ε' α → σ → Prop} {c : Co σ ε α}
    {handler : ε → Co σ ε' α} {s : σ} :
    Safe P me post (c.tryCatch handler) s ↔ Safe P me (handlePost P me post handler) c s := by
  induction c generalizing s with
  | done value => exact Iff.rfl
  | fail error => exact Iff.rfl
  | await ready act next ih =>
      constructor
      · intro hSafe s' hEnv hInv hReady
        obtain ⟨hInv', hGuarantee, hRest⟩ := hSafe s' hEnv hInv hReady
        exact ⟨hInv', hGuarantee, (ih s').mp hRest⟩
      · intro hSafe s' hEnv hInv hReady
        obtain ⟨hInv', hGuarantee, hRest⟩ := hSafe s' hEnv hInv hReady
        exact ⟨hInv', hGuarantee, (ih s').mpr hRest⟩

/-- Before it is resumed, a coroutine does not notice the steps of the others. -/
theorem Safe.of_rely {c : Co σ ε α} {s s' : σ} (hSafe : Safe P me (fun _ _ => True) c s)
    (hRely : P.rely me s s') : Safe P me (fun _ _ => True) c s' := by
  cases c with
  | done value => trivial
  | fail error => trivial
  | await ready act next =>
      intro t hEnv
      exact hSafe t (Relation.ReflTransGen.head hRely hEnv)

/-! ## Coroutines that only read, beside another one -/

/-- No step of the coroutine changes the shared state. -/
def ReadOnly : Co σ ε α → Prop
  | done _ => True
  | fail _ => True
  | await _ act next => (∀ s, act s = s) ∧ ∀ s, ReadOnly (next s)

theorem Safe.of_rely_await {post : Except ε α → σ → Prop} {ready : σ → Bool} {act : σ → σ}
    {next : σ → Co σ ε α} {s s' : σ} (hSafe : Safe P me post (.await ready act next) s)
    (hRely : Relation.ReflTransGen (P.rely me) s s') :
    Safe P me post (.await ready act next) s' :=
  fun t hEnv => hSafe t (hRely.trans hEnv)

theorem safe_readOnly {post : Except ε α → σ → Prop} {c : Co σ ε α} {s : σ} {A : σ → Prop}
    (hIdle : ∀ s, P.guarantee me s s) (hReadOnly : ReadOnly c) (hStable : P.Stable me A)
    (hA : A s) (hPost : ∀ r t, A t → post r t) : Safe P me post c s := by
  induction c generalizing s with
  | done value => exact hPost _ _ hA
  | fail error => exact hPost _ _ hA
  | await ready act next ih =>
      intro s' hEnv hInv _
      have hA' := hStable.reflTransGen hEnv hA
      rw [hReadOnly.1 s']
      exact ⟨hInv, hIdle s', ih s' (hReadOnly.2 s') hA'⟩

/-- A reader gathered beside a coroutine leaves its reasoning alone: `Q` is what
the coroutine knows when it has its result and the reader is still busy. -/
theorem safe_gather_readOnly {post : Except ε (α × β) → σ → Prop} {Q : α → σ → Prop}
    {turn : σ → Bool} {left : Co σ ε α} {right : Co σ ε β} {s : σ}
    (hIdle : ∀ s, P.guarantee me s s) (hStable : ∀ value, P.Stable me (Q value))
    (hOk : ∀ value value' t, Q value t → post (.ok (value, value')) t)
    (hError : ∀ error t, P.inv t → post (.error error) t) (hRight : ReadOnly right)
    (hInv : P.inv s) (hLeft : Safe P me (fun r t => ∀ value, r = .ok value → Q value t) left s) :
    Safe P me post (gather turn left right) s := by
  induction left generalizing s right with
  | fail error => exact hError error s hInv
  | done value =>
      have hQ : Q value s := hLeft value rfl
      have hBoth : P.Stable me fun t => P.inv t ∧ Q value t :=
        fun t t' hA hRely => ⟨hRely.1, hStable value t t' hA.2 hRely⟩
      rw [gather, safe_bind]
      refine safe_readOnly hIdle hRight hBoth ⟨hInv, hQ⟩ ?_
      intro r t hAfter
      cases r with
      | ok value' => exact hOk value value' t hAfter.2
      | error error => exact hError error t hAfter.1
  | await ready act next ih =>
      rw [gather]
      -- the reader's own steps come and go without the left operand moving
      induction right generalizing s with
      | fail error => exact hError error s hInv
      | done value' =>
          intro s' hEnv hInv' hReady
          obtain ⟨hInvNext, hGuarantee, hNext⟩ := hLeft s' hEnv hInv' hReady
          exact ⟨hInvNext, hGuarantee, ih s' trivial hInvNext hNext⟩
      | await ready' act' next' ihRight =>
          intro s' hEnv hInv' hReady
          by_cases hTurn : turn s' = true
          · simp only [hTurn, if_true] at hReady ⊢
            obtain ⟨hInvNext, hGuarantee, hNext⟩ := hLeft s' hEnv hInv' hReady
            exact ⟨hInvNext, hGuarantee, ih s' hRight hInvNext hNext⟩
          · simp only [hTurn, if_false, Bool.false_eq_true] at hReady ⊢
            rw [hRight.1 s']
            exact ⟨hInv', hIdle s', ihRight s' (hRight.2 s') hInv' (hLeft.of_rely_await hEnv)⟩

/-! ## Steps that need no assertions of their own -/

/-- Every atomic step the coroutine can ever take keeps the protocol, whatever
state it is taken in, as long as `A` holds there. -/
def Atoms (P : Protocol σ) (me : Nat) (A : σ → Prop) : Co σ ε α → Prop
  | done _ => True
  | fail _ => True
  | await ready act next =>
      ∀ s, P.inv s → A s → ready s = true →
        P.inv (act s) ∧ P.guarantee me s (act s) ∧ Atoms P me A (next s)

section Atoms

variable {A : σ → Prop}

theorem Atoms.safe {c : Co σ ε α} (hKept : P.Kept A) (hAtoms : Atoms P me A c) {s : σ}
    (hInv : P.inv s) (hA : A s) : Safe P me (fun _ t => P.inv t ∧ A t) c s := by
  induction c generalizing s with
  | done value => exact ⟨hInv, hA⟩
  | fail error => exact ⟨hInv, hA⟩
  | await ready act next ih =>
      apply safe_await_kept hKept hInv hA
      intro s' hInv' hA' hReady
      obtain ⟨hInvNext, hGuarantee, hRest⟩ := hAtoms s' hInv' hA' hReady
      have hANext : A (act s') := hKept s' (act s') hInv' hA' (Or.inl ⟨me, hGuarantee⟩)
      exact ⟨hInvNext, hGuarantee, ih s' hRest hInvNext hANext⟩

@[simp] theorem atoms_done (value : α) : Atoms P me A (.done value : Co σ ε α) := trivial

@[simp] theorem atoms_fail (error : ε) : Atoms P me A (.fail error : Co σ ε α) := trivial

theorem Atoms.bind {c : Co σ ε α} {f : α → Co σ ε β} (hFirst : Atoms P me A c)
    (hRest : ∀ value, Atoms P me A (f value)) : Atoms P me A (c.bind f) := by
  induction c with
  | done value => exact hRest value
  | fail error => trivial
  | await ready act next ih =>
      intro s hInv hA hReady
      obtain ⟨hInv', hGuarantee, hNext⟩ := hFirst s hInv hA hReady
      exact ⟨hInv', hGuarantee, ih s hNext⟩

theorem Atoms.tryCatch {c : Co σ ε α} {handler : ε → Co σ ε' α} (hFirst : Atoms P me A c)
    (hHandler : ∀ error, Atoms P me A (handler error)) :
    Atoms P me A (c.tryCatch handler) := by
  induction c with
  | done value => trivial
  | fail error => exact hHandler error
  | await ready act next ih =>
      intro s hInv hA hReady
      obtain ⟨hInv', hGuarantee, hNext⟩ := hFirst s hInv hA hReady
      exact ⟨hInv', hGuarantee, ih s hNext⟩

theorem Atoms.forEach {items : List β} {body : β → Co σ ε Unit}
    (hBody : ∀ item ∈ items, Atoms P me A (body item)) :
    Atoms P me A (Co.forEach items body) := by
  induction items with
  | nil => trivial
  | cons item rest ih =>
      apply Atoms.bind (hBody item List.mem_cons_self)
      intro _
      exact ih fun other hOther => hBody other (List.mem_cons_of_mem item hOther)

theorem Atoms.ensure {c : Co σ ε α} {cleanup : σ → σ} (hFirst : Atoms P me A c)
    (hCleanup : ∀ s, P.inv s → A s → P.inv (cleanup s) ∧ P.guarantee me s (cleanup s)) :
    Atoms P me A (c.ensure cleanup) := by
  induction c with
  | done value =>
      intro s hInv hA _
      exact ⟨(hCleanup s hInv hA).1, (hCleanup s hInv hA).2, trivial⟩
  | fail error =>
      intro s hInv hA _
      exact ⟨(hCleanup s hInv hA).1, (hCleanup s hInv hA).2, trivial⟩
  | await ready act next ih =>
      intro s hInv hA hReady
      obtain ⟨hInv', hGuarantee, hNext⟩ := hFirst s hInv hA hReady
      exact ⟨hInv', hGuarantee, ih s hNext⟩

/-- What one atomic step owes to the protocol. -/
def AtomOk (P : Protocol σ) (me : Nat) (A : σ → Prop) (ready : σ → Bool) (act : σ → σ) : Prop :=
  ∀ s, P.inv s → A s → ready s = true → P.inv (act s) ∧ P.guarantee me s (act s)

theorem atoms_attemptWhen {ready : σ → Bool} {f : σ → Except ε α × σ}
    (hAtom : AtomOk P me A ready fun s => (f s).2) : Atoms P me A (attemptWhen ready f) := by
  unfold attemptWhen
  intro s hInv hA hReady
  obtain ⟨hInv', hGuarantee⟩ := hAtom s hInv hA hReady
  refine ⟨hInv', hGuarantee, ?_⟩
  dsimp only
  cases (f s).1 with
  | ok value => trivial
  | error error => trivial

theorem atoms_attempt {f : σ → Except ε α × σ}
    (hAtom : AtomOk P me A (fun _ => true) fun s => (f s).2) : Atoms P me A (attempt f) :=
  atoms_attemptWhen hAtom

theorem atoms_blockUntil {ready : σ → Bool} {f : σ → α × σ}
    (hAtom : AtomOk P me A ready fun s => (f s).2) :
    Atoms P me A (blockUntil ready f : Co σ ε α) := by
  intro s hInv hA hReady
  obtain ⟨hInv', hGuarantee⟩ := hAtom s hInv hA hReady
  exact ⟨hInv', hGuarantee, trivial⟩

theorem atoms_atomic {f : σ → α × σ}
    (hAtom : AtomOk P me A (fun _ => true) fun s => (f s).2) :
    Atoms P me A (atomic f : Co σ ε α) :=
  atoms_blockUntil hAtom

theorem atoms_modify {f : σ → σ} (hAtom : AtomOk P me A (fun _ => true) f) :
    Atoms P me A (modify f : Co σ ε Unit) := by
  intro s hInv hA hReady
  obtain ⟨hInv', hGuarantee⟩ := hAtom s hInv hA hReady
  exact ⟨hInv', hGuarantee, trivial⟩

theorem atoms_read {f : σ → α} (hIdle : ∀ s, P.guarantee me s s) :
    Atoms P me A (read f : Co σ ε α) :=
  fun s hInv _ _ => ⟨hInv, hIdle s, trivial⟩

/-- Where the surroundings and the coroutines take one kind of step that keeps
the invariant, an atom only has to be such a step. -/
theorem atomOk_ofStep {inv : σ → Prop} {step : σ → σ → Prop} {ready : σ → Bool} {act : σ → σ}
    (hKeep : ∀ s s', inv s → step s s' → inv s')
    (hStep : ∀ s, inv s → A s → ready s = true → step s (act s)) :
    AtomOk (Protocol.ofStep inv step) me A ready act :=
  fun s hInv hA hReady =>
    ⟨hKeep s (act s) hInv (hStep s hInv hA hReady), hStep s hInv hA hReady⟩

/-- Every step the coroutine can ever take is an `R` step. -/
def Steps (R : σ → σ → Prop) (c : Co σ ε α) : Prop :=
  Atoms (Protocol.ofStep (fun _ => True) R) 0 (fun _ => True) c

theorem Steps.atoms {R : σ → σ → Prop} {c : Co σ ε α}
    (hKeep : ∀ s s', P.inv s → A s → R s s' → P.inv s' ∧ P.guarantee me s s')
    (hSteps : Steps R c) : Atoms P me A c := by
  induction c with
  | done value => trivial
  | fail error => trivial
  | await ready act next ih =>
      intro s hInv hA hReady
      obtain ⟨-, hStep, hNext⟩ := hSteps s trivial trivial hReady
      obtain ⟨hInv', hGuarantee⟩ := hKeep s (act s) hInv hA hStep
      exact ⟨hInv', hGuarantee, ih s hNext⟩

end Atoms

/-! ## Pre- and postconditions -/

/-- Started in a state with the invariant and `A`, the coroutine is safe.  Where
it returns a value the postcondition `B` of that value holds, and the errors it
raises satisfy `E`. -/
def Triple (P : Protocol σ) (me : Nat) (A : σ → Prop) (c : Co σ ε α) (B : α → σ → Prop)
    (E : ε → Prop) : Prop :=
  ∀ s, P.inv s → A s → Safe P me (fun r t => P.inv t ∧
    (∀ value, r = .ok value → B value t) ∧ ∀ error, r = .error error → E error) c s

/-- A triple that says nothing about errors. -/
abbrev Spec (P : Protocol σ) (me : Nat) (A : σ → Prop) (c : Co σ ε α) (B : α → σ → Prop) : Prop :=
  Triple P me A c B fun _ => True

section Triple

variable {A : σ → Prop} {B : α → σ → Prop} {E : ε → Prop}

theorem triple_done {value : α} (hPost : ∀ s, P.inv s → A s → B value s) :
    Triple P me A (.done value : Co σ ε α) B E := by
  intro s hInv hA
  refine ⟨hInv, fun value' hEq => ?_, fun _ hEq => by simp at hEq⟩
  obtain rfl := Except.ok.inj hEq
  exact hPost s hInv hA

theorem triple_fail {error : ε} (hError : E error) : Triple P me A (.fail error : Co σ ε α) B E := by
  intro s hInv _
  refine ⟨hInv, fun _ hEq => by simp at hEq, fun error' hEq => ?_⟩
  obtain rfl := Except.error.inj hEq
  exact hError

theorem Triple.mono {A' : σ → Prop} {B' : α → σ → Prop} {E' : ε → Prop} {c : Co σ ε α}
    (hTriple : Triple P me A c B E) (hPre : ∀ s, P.inv s → A' s → A s)
    (hPost : ∀ value t, P.inv t → B value t → B' value t) (hError : ∀ error, E error → E' error) :
    Triple P me A' c B' E' := by
  intro s hInv hA
  refine (hTriple s hInv (hPre s hInv hA)).mono fun r t hAfter => ?_
  exact ⟨hAfter.1, fun value hEq => hPost value t hAfter.1 (hAfter.2.1 value hEq),
    fun error hEq => hError error (hAfter.2.2 error hEq)⟩

/-- A stronger precondition. -/
theorem Triple.pre {A' : σ → Prop} {c : Co σ ε α} (hTriple : Triple P me A c B E)
    (hPre : ∀ s, P.inv s → A' s → A s) : Triple P me A' c B E :=
  hTriple.mono hPre (fun _ _ _ hPost => hPost) fun _ hError => hError

/-- A stronger precondition, and no postcondition. -/
theorem Triple.weaken {A' : σ → Prop} {c : Co σ ε α} (hTriple : Triple P me A c B E)
    (hPre : ∀ s, P.inv s → A' s → A s) : Spec P me A' c fun _ _ => True :=
  hTriple.mono hPre (fun _ _ _ _ => trivial) fun _ _ => trivial

theorem Triple.bind {C : β → σ → Prop} {c : Co σ ε α} {f : α → Co σ ε β}
    (hFirst : Triple P me A c B E) (hRest : ∀ value, Triple P me (B value) (f value) C E) :
    Triple P me A (c.bind f) C E := by
  intro s hInv hA
  rw [safe_bind]
  refine (hFirst s hInv hA).mono fun r t hAfter => ?_
  cases r with
  | ok value => exact hRest value t hAfter.1 (hAfter.2.1 value rfl)
  | error error =>
      refine ⟨hAfter.1, fun _ hEq => by simp at hEq, fun error' hEq => ?_⟩
      exact hAfter.2.2 error' (by simpa using hEq)

/-- An assertion nobody breaks is still there when the coroutine ends. -/
theorem Safe.and_kept {post : Except ε α → σ → Prop} {c : Co σ ε α} {s : σ} (hKept : P.Kept A)
    (hInv : P.inv s) (hA : A s) (hSafe : Safe P me post c s) :
    Safe P me (fun r t => post r t ∧ A t) c s := by
  induction c generalizing s with
  | done value => exact ⟨hSafe, hA⟩
  | fail error => exact ⟨hSafe, hA⟩
  | await ready act next ih =>
      intro s' hEnv hInv' hReady
      obtain ⟨hInvNext, hGuarantee, hNext⟩ := hSafe s' hEnv hInv' hReady
      have hA' : A s' := ((hKept.stable me).reflTransGen hEnv ⟨hInv, hA⟩).2
      have hANext : A (act s') := hKept s' (act s') hInv' hA' (Or.inl ⟨me, hGuarantee⟩)
      exact ⟨hInvNext, hGuarantee, ih s' hInvNext hANext hNext⟩

/-- The frame rule: an assertion nobody breaks goes along. -/
theorem Triple.frame {F : σ → Prop} {c : Co σ ε α} (hKept : P.Kept F)
    (hTriple : Triple P me A c B E) :
    Triple P me (fun s => A s ∧ F s) c (fun value t => B value t ∧ F t) E := by
  intro s hInv hBoth
  refine ((hTriple s hInv hBoth.1).and_kept hKept hInv hBoth.2).mono fun r t hAfter => ?_
  exact ⟨hAfter.1.1, fun value hEq => ⟨hAfter.1.2.1 value hEq, hAfter.2⟩, hAfter.1.2.2⟩

/-- The handler is told which error, and in which kind of state nothing else. -/
theorem Triple.tryCatch {E' : ε' → Prop} {c : Co σ ε α} {handler : ε → Co σ ε' α}
    (hFirst : Triple P me A c B E)
    (hHandler : ∀ error, E error → Triple P me (fun _ => True) (handler error) B E') :
    Triple P me A (c.tryCatch handler) B E' := by
  intro s hInv hA
  rw [safe_tryCatch]
  refine (hFirst s hInv hA).mono fun r t hAfter => ?_
  cases r with
  | ok value =>
      refine ⟨hAfter.1, fun value' hEq => ?_, fun _ hEq => by simp at hEq⟩
      exact hAfter.2.1 value' (by simpa using hEq)
  | error error => exact hHandler error (hAfter.2.2 error rfl) t hAfter.1 trivial

theorem Triple.forEach {items : List β} {body : β → Co σ ε Unit}
    (hBody : ∀ item ∈ items, Triple P me A (body item) (fun _ => A) E) :
    Triple P me A (Co.forEach items body) (fun _ => A) E := by
  induction items with
  | nil => exact triple_done fun _ _ hA => hA
  | cons item rest ih =>
      refine (hBody item List.mem_cons_self).bind fun _ => ?_
      exact ih fun other hOther => hBody other (List.mem_cons_of_mem item hOther)

/-- The cleanup runs after a suspension, so the outcome has to be one the others
cannot break. -/
theorem safe_ensure {post post' : Except ε α → σ → Prop} {c : Co σ ε α} {cleanup : σ → σ} {s : σ}
    (hStable : ∀ r, P.Stable me (post r))
    (hCleanup : ∀ r t, P.inv t → post r t →
      P.inv (cleanup t) ∧ P.guarantee me t (cleanup t) ∧ post' r (cleanup t))
    (hSafe : Safe P me post c s) : Safe P me post' (c.ensure cleanup) s := by
  induction c generalizing s with
  | done value =>
      exact safe_await (post _) (hStable _) hSafe fun t hPost hInv _ => hCleanup _ t hInv hPost
  | fail error =>
      exact safe_await (post _) (hStable _) hSafe fun t hPost hInv _ => hCleanup _ t hInv hPost
  | await ready act next ih =>
      intro s' hEnv hInv hReady
      obtain ⟨hInv', hGuarantee, hNext⟩ := hSafe s' hEnv hInv hReady
      exact ⟨hInv', hGuarantee, ih s' hNext⟩

theorem Triple.ensure {c : Co σ ε α} {cleanup : σ → σ}
    (hStable : ∀ value, P.Stable me fun s => P.inv s ∧ B value s)
    (hCleanup : ∀ s, P.inv s → P.inv (cleanup s) ∧ P.guarantee me s (cleanup s) ∧
      ∀ value, B value s → B value (cleanup s))
    (hBody : Triple P me A c B E) : Triple P me A (c.ensure cleanup) B E := by
  intro s hInv hA
  refine safe_ensure (fun r t t' hPost hRely => ?_) (fun r t hInv' hPost => ?_) (hBody s hInv hA)
  · refine ⟨hRely.1, fun value hEq => ?_, hPost.2.2⟩
    exact (hStable value t t' ⟨hPost.1, hPost.2.1 value hEq⟩ hRely).2
  · obtain ⟨hInvNext, hGuarantee, hKeep⟩ := hCleanup t hInv'
    exact ⟨hInvNext, hGuarantee, hInvNext, fun value hEq => hKeep value (hPost.2.1 value hEq),
      hPost.2.2⟩

theorem triple_attempt {f : σ → Except ε α × σ} (hStable : P.Stable me fun s => P.inv s ∧ A s)
    (hStep : ∀ s, P.inv s → A s → P.inv (f s).2 ∧ P.guarantee me s (f s).2 ∧
      (∀ value, (f s).1 = .ok value → B value (f s).2) ∧
      ∀ error, (f s).1 = .error error → E error) :
    Triple P me A (attempt f) B E := by
  intro s hInv hA
  refine safe_await _ hStable ⟨hInv, hA⟩ fun s' hBoth _ _ => ?_
  obtain ⟨hInv', hGuarantee, hPost, hError⟩ := hStep s' hBoth.1 hBoth.2
  refine ⟨hInv', hGuarantee, ?_⟩
  cases hResult : (f s').1 with
  | ok value =>
      exact ⟨hInv', fun _ hEq => hPost _ (hResult.trans hEq), fun _ hEq => by simp at hEq⟩
  | error error =>
      exact ⟨hInv', fun _ hEq => by simp at hEq, fun _ hEq => hError _ (hResult.trans hEq)⟩

theorem triple_blockUntil {ready : σ → Bool} {f : σ → α × σ}
    (hStable : P.Stable me fun s => P.inv s ∧ A s)
    (hStep : ∀ s, P.inv s → A s → ready s = true →
      P.inv (f s).2 ∧ P.guarantee me s (f s).2 ∧ B (f s).1 (f s).2) :
    Triple P me A (blockUntil ready f : Co σ ε α) B E := by
  intro s hInv hA
  refine safe_await _ hStable ⟨hInv, hA⟩ fun s' hBoth _ hReady => ?_
  obtain ⟨hInv', hGuarantee, hPost⟩ := hStep s' hBoth.1 hBoth.2 hReady
  refine ⟨hInv', hGuarantee, hInv', fun value hEq => ?_, fun _ hEq => by simp at hEq⟩
  obtain rfl := Except.ok.inj hEq
  exact hPost

theorem triple_atomic {f : σ → α × σ} (hStable : P.Stable me fun s => P.inv s ∧ A s)
    (hStep : ∀ s, P.inv s → A s →
      P.inv (f s).2 ∧ P.guarantee me s (f s).2 ∧ B (f s).1 (f s).2) :
    Triple P me A (atomic f : Co σ ε α) B E :=
  triple_blockUntil hStable fun s hInv hA _ => hStep s hInv hA

/-- Steps that need no assertions of their own, as a specification. -/
theorem Atoms.spec {c : Co σ ε α} (hKept : P.Kept A) (hAtoms : Atoms P me A c) :
    Spec P me A c fun _ => A := by
  intro s hInv hA
  refine (hAtoms.safe hKept hInv hA).mono fun r t hAfter => ?_
  exact ⟨hAfter.1, fun _ _ => hAfter.2, fun _ _ => trivial⟩

/-- Every outcome the coroutine can ever have satisfies `Q`. -/
def Ends (Q : Except ε α → Prop) : Co σ ε α → Prop
  | done value => Q (.ok value)
  | fail error => Q (.error error)
  | await _ _ next => ∀ s, Ends Q (next s)

theorem Ends.mono {Q Q' : Except ε α → Prop} (hMono : ∀ r, Q r → Q' r) {c : Co σ ε α}
    (hEnds : Ends Q c) : Ends Q' c := by
  induction c with
  | done value => exact hMono _ hEnds
  | fail error => exact hMono _ hEnds
  | await ready act next ih => exact fun s => ih s (hEnds s)

theorem Ends.bind {Q : Except ε α → Prop} {Q' : Except ε β → Prop} {c : Co σ ε α}
    {f : α → Co σ ε β} (hFirst : Ends Q c) (hRest : ∀ value, Q (.ok value) → Ends Q' (f value))
    (hError : ∀ error, Q (.error error) → Q' (.error error)) : Ends Q' (c.bind f) := by
  induction c with
  | done value => exact hRest value hFirst
  | fail error => exact hError error hFirst
  | await ready act next ih => exact fun s => ih s (hFirst s)

theorem Ends.tryCatch {Q : Except ε α → Prop} {Q' : Except ε' α → Prop} {c : Co σ ε α}
    {handler : ε → Co σ ε' α} (hFirst : Ends Q c) (hValue : ∀ value, Q (.ok value) → Q' (.ok value))
    (hHandler : ∀ error, Q (.error error) → Ends Q' (handler error)) :
    Ends Q' (c.tryCatch handler) := by
  induction c with
  | done value => exact hValue value hFirst
  | fail error => exact hHandler error hFirst
  | await ready act next ih => exact fun s => ih s (hFirst s)

theorem ends_attempt {Q : Except ε α → Prop} {f : σ → Except ε α × σ} (hEnds : ∀ s, Q (f s).1) :
    Ends Q (attempt f) := by
  intro s
  have hEnd := hEnds s
  dsimp only
  cases hResult : (f s).1 with
  | ok value =>
      rw [hResult] at hEnd
      exact hEnd
  | error error =>
      rw [hResult] at hEnd
      exact hEnd

/-- Sequencing, for a second part whose steps rest on what the first part can end
with. -/
theorem Atoms.bind_ends {Q : Except ε α → Prop} {c : Co σ ε α} {f : α → Co σ ε β}
    (hFirst : Atoms P me A c) (hEnds : Ends Q c)
    (hRest : ∀ value, Q (.ok value) → Atoms P me A (f value)) : Atoms P me A (c.bind f) := by
  induction c with
  | done value => exact hRest value hEnds
  | fail error => trivial
  | await ready act next ih =>
      intro s hInv hA hReady
      obtain ⟨hInv', hGuarantee, hNext⟩ := hFirst s hInv hA hReady
      exact ⟨hInv', hGuarantee, ih s hNext (hEnds s)⟩

/-- What a coroutine can end with sharpens its specification. -/
theorem Triple.and_ends {Q : Except ε α → Prop} {c : Co σ ε α} (hSpec : Spec P me A c B)
    (hEnds : Ends Q c) :
    Triple P me A c (fun value t => B value t ∧ Q (.ok value)) fun error => Q (.error error) := by
  intro s hInv hA
  have hSafe := hSpec s hInv hA
  clear hSpec hA hInv
  induction c generalizing s with
  | done value =>
      refine ⟨hSafe.1, fun value' hEq => ⟨hSafe.2.1 value' hEq, ?_⟩, fun _ hEq => by simp at hEq⟩
      obtain rfl := Except.ok.inj hEq
      exact hEnds
  | fail error =>
      refine ⟨hSafe.1, fun _ hEq => by simp at hEq, fun error' hEq => ?_⟩
      obtain rfl := Except.error.inj hEq
      exact hEnds
  | await ready act next ih =>
      intro s' hEnv hInv' hReady
      obtain ⟨hInvNext, hGuarantee, hNext⟩ := hSafe s' hEnv hInv' hReady
      exact ⟨hInvNext, hGuarantee, ih s' (hEnds s') (act s') hNext⟩

end Triple

/-! ## However it ends

A postcondition that holds after an error as well is what a handler or a cleanup
can start from. -/

/-- Started in a state with the invariant and `A`, the coroutine is safe, and `B`
holds where it ends, be it with a value or with an error. -/
def Leads (P : Protocol σ) (me : Nat) (A : σ → Prop) (c : Co σ ε α) (B : σ → Prop) : Prop :=
  ∀ s, P.inv s → A s → Safe P me (fun _ t => P.inv t ∧ B t) c s

section Leads

variable {A B C : σ → Prop}

theorem leads_done {value : α} (hPost : ∀ s, P.inv s → A s → B s) :
    Leads P me A (.done value : Co σ ε α) B :=
  fun s hInv hA => ⟨hInv, hPost s hInv hA⟩

theorem leads_fail {error : ε} (hPost : ∀ s, P.inv s → A s → B s) :
    Leads P me A (.fail error : Co σ ε α) B :=
  fun s hInv hA => ⟨hInv, hPost s hInv hA⟩

theorem Leads.spec {c : Co σ ε α} (hLeads : Leads P me A c B) : Spec P me A c fun _ => B := by
  intro s hInv hA
  refine (hLeads s hInv hA).mono fun r t hAfter => ?_
  exact ⟨hAfter.1, fun _ _ => hAfter.2, fun _ _ => trivial⟩

theorem Leads.bind {c : Co σ ε α} {f : α → Co σ ε β} (hFirst : Leads P me A c B)
    (hRest : ∀ value, Leads P me B (f value) C) (hError : ∀ s, P.inv s → B s → C s) :
    Leads P me A (c.bind f) C := by
  intro s hInv hA
  rw [safe_bind]
  refine (hFirst s hInv hA).mono fun r t hAfter => ?_
  cases r with
  | ok value => exact hRest value t hAfter.1 hAfter.2
  | error error => exact ⟨hAfter.1, hError t hAfter.1 hAfter.2⟩

theorem Leads.tryCatch {c : Co σ ε α} {handler : ε → Co σ ε' α} (hFirst : Leads P me A c B)
    (hHandler : ∀ error, Leads P me B (handler error) C) (hValue : ∀ s, P.inv s → B s → C s) :
    Leads P me A (c.tryCatch handler) C := by
  intro s hInv hA
  rw [safe_tryCatch]
  refine (hFirst s hInv hA).mono fun r t hAfter => ?_
  cases r with
  | ok value => exact ⟨hAfter.1, hValue t hAfter.1 hAfter.2⟩
  | error error => exact hHandler error t hAfter.1 hAfter.2

/-- A loop that works through a list: `A` speaks of what is left of it. -/
theorem Leads.forEach {A : List β → σ → Prop} {body : β → Co σ ε Unit}
    (hBody : ∀ item rest, Leads P me (A (item :: rest)) (body item) (A rest))
    (hNone : ∀ rest s, P.inv s → A rest s → A [] s) (items : List β) :
    Leads P me (A items) (Co.forEach items body) (A []) := by
  induction items with
  | nil => exact leads_done fun _ _ hA => hA
  | cons item rest ih => exact (hBody item rest).bind (fun _ => ih) (hNone rest)

theorem leads_attempt {f : σ → Except ε α × σ} (hStable : P.Stable me fun s => P.inv s ∧ A s)
    (hStep : ∀ s, P.inv s → A s →
      P.inv (f s).2 ∧ P.guarantee me s (f s).2 ∧ B (f s).2) : Leads P me A (attempt f) B := by
  intro s hInv hA
  refine safe_await _ hStable ⟨hInv, hA⟩ fun s' hBoth _ _ => ?_
  obtain ⟨hInv', hGuarantee, hPost⟩ := hStep s' hBoth.1 hBoth.2
  refine ⟨hInv', hGuarantee, ?_⟩
  cases (f s').1 with
  | ok value => exact ⟨hInv', hPost⟩
  | error error => exact ⟨hInv', hPost⟩

theorem leads_modify {f : σ → σ} (hStable : P.Stable me fun s => P.inv s ∧ A s)
    (hStep : ∀ s, P.inv s → A s → P.inv (f s) ∧ P.guarantee me s (f s) ∧ B (f s)) :
    Leads P me A (modify f : Co σ ε Unit) B := by
  intro s hInv hA
  refine safe_await _ hStable ⟨hInv, hA⟩ fun s' hBoth _ _ => ?_
  obtain ⟨hInv', hGuarantee, hPost⟩ := hStep s' hBoth.1 hBoth.2
  exact ⟨hInv', hGuarantee, hInv', hPost⟩

theorem leads_read {f : σ → α} (hStable : P.Stable me fun s => P.inv s ∧ A s)
    (hIdle : ∀ s, P.inv s → P.guarantee me s s) : Leads P me A (read f : Co σ ε α) A := by
  intro s hInv hA
  exact safe_await _ hStable ⟨hInv, hA⟩ fun s' hBoth _ _ =>
    ⟨hBoth.1, hIdle s' hBoth.1, hBoth.1, hBoth.2⟩

/-- Steps of a kind that keeps the assertion. -/
theorem Steps.leads {R : σ → σ → Prop} {c : Co σ ε α}
    (hStable : P.Stable me fun s => P.inv s ∧ A s)
    (hKeep : ∀ s s', P.inv s → A s → R s s' → P.inv s' ∧ P.guarantee me s s' ∧ A s')
    (hSteps : Steps R c) : Leads P me A c A := by
  intro s hInv hA
  induction c generalizing s with
  | done value => exact ⟨hInv, hA⟩
  | fail error => exact ⟨hInv, hA⟩
  | await ready act next ih =>
      refine safe_await _ hStable ⟨hInv, hA⟩ fun s' hBoth _ hReady => ?_
      obtain ⟨-, hStep, hNext⟩ := hSteps s' trivial trivial hReady
      obtain ⟨hInv', hGuarantee, hA'⟩ := hKeep s' (act s') hBoth.1 hBoth.2 hStep
      exact ⟨hInv', hGuarantee, ih s' hNext (act s') hInv' hA'⟩

theorem Steps.spec {R : σ → σ → Prop} {c : Co σ ε α}
    (hStable : P.Stable me fun s => P.inv s ∧ A s)
    (hKeep : ∀ s s', P.inv s → A s → R s s' → P.inv s' ∧ P.guarantee me s s' ∧ A s')
    (hSteps : Steps R c) : Spec P me A c fun _ => A :=
  (hSteps.leads hStable hKeep).spec

end Leads

/-! ## Coroutines that are safe wherever they start -/

/-- Safe from every state that satisfies the invariant. -/
def Secure (P : Protocol σ) (me : Nat) (c : Co σ ε α) : Prop :=
  ∀ s, P.inv s → Safe P me (fun _ t => P.inv t) c s

section Secure

theorem Atoms.secure {c : Co σ ε α} (hAtoms : Atoms P me (fun _ => True) c) : Secure P me c := by
  intro s hInv
  exact (hAtoms.safe (Protocol.Kept.true P) hInv trivial).mono fun _ _ hPost => hPost.1

theorem secure_done (value : α) : Secure P me (.done value : Co σ ε α) :=
  fun _ hInv => hInv

theorem secure_fail (error : ε) : Secure P me (.fail error : Co σ ε α) :=
  fun _ hInv => hInv

theorem Secure.bind {c : Co σ ε α} {f : α → Co σ ε β} (hFirst : Secure P me c)
    (hRest : ∀ value, Secure P me (f value)) : Secure P me (c.bind f) := by
  intro s hInv
  rw [safe_bind]
  refine (hFirst s hInv).mono fun r t hInv' => ?_
  cases r with
  | ok value => exact hRest value t hInv'
  | error error => exact hInv'

theorem Secure.tryCatch {c : Co σ ε α} {handler : ε → Co σ ε' α} (hFirst : Secure P me c)
    (hHandler : ∀ error, Secure P me (handler error)) : Secure P me (c.tryCatch handler) := by
  intro s hInv
  rw [safe_tryCatch]
  refine (hFirst s hInv).mono fun r t hInv' => ?_
  cases r with
  | ok value => exact hInv'
  | error error => exact hHandler error t hInv'

theorem Secure.forEach {items : List β} {body : β → Co σ ε Unit}
    (hBody : ∀ item, Secure P me (body item)) : Secure P me (Co.forEach items body) := by
  induction items with
  | nil => exact secure_done ()
  | cons item rest ih => exact (hBody item).bind fun _ => ih

end Secure

/-! ## Runs -/

/-- Beside an environment nothing is asked of a coroutine but its outcome. -/
theorem spec_beside {env : σ → σ → Prop} {A : σ → Prop} (c : Co σ ε α) :
    Spec (Protocol.beside env) 0 A c fun _ _ => True := by
  intro s hInv hA
  clear hInv hA
  induction c generalizing s with
  | done value => exact ⟨trivial, fun _ _ => trivial, fun _ _ => trivial⟩
  | fail error => exact ⟨trivial, fun _ _ => trivial, fun _ _ => trivial⟩
  | await ready act next ih => exact fun s' _ _ _ => ⟨trivial, rfl, ih s' (act s')⟩

/-- A coroutine that is safe beside an environment ends a run in its
postcondition. -/
theorem Safe.run_beside {env : σ → σ → Prop} {post : Except ε α → σ → Prop} {c : Co σ ε α}
    {s t : σ} {r : Except ε α} (hSafe : Safe (Protocol.beside env) 0 post c s)
    (hRun : Run env c s r t) : post r t := by
  induction hRun with
  | done value s => exact hSafe
  | fail error s => exact hSafe
  | await hEnv hReady _ ih =>
      have hRely := Relation.ReflTransGen.mono
        (fun u v hStep => (⟨trivial, Or.inr hStep⟩ : (Protocol.beside env).rely 0 u v)) _ _ hEnv
      exact ih (hSafe _ hRely trivial hReady).2.2

end Co

end Coop
