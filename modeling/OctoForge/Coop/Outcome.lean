import OctoForge.Coop.Alone

/-!
# Postconditions for errors

The triples of `RelyGuarantee` say of an error which one it is, and nothing about
the state it leaves.  Where a coroutine undoes what it has begun, that state is
the point.  `Deal` is a triple with a postcondition for both; a contract of
`Alone` is one for a coroutine that has only its surroundings.
-/

namespace Coop
namespace Co

variable {σ ε ε' α β : Type} {P : Protocol σ} {me : Nat} {A : σ → Prop} {B : α → σ → Prop}
  {E : ε → σ → Prop}

/-- Started in a state with the invariant and `A`, the coroutine keeps the
protocol; `B` holds where it returns and `E` where it raises. -/
def Deal (P : Protocol σ) (me : Nat) (A : σ → Prop) (c : Co σ ε α) (B : α → σ → Prop)
    (E : ε → σ → Prop) : Prop :=
  ∀ s, P.inv s → A s → Safe P me (fun r t => P.inv t ∧ Left B E r t) c s

theorem deal_done {value : α} (hPost : ∀ s, P.inv s → A s → B value s) :
    Deal P me A (.done value : Co σ ε α) B E :=
  fun s hInv hA => ⟨hInv, hPost s hInv hA⟩

theorem deal_fail {error : ε} (hError : ∀ s, P.inv s → A s → E error s) :
    Deal P me A (.fail error : Co σ ε α) B E :=
  fun s hInv hA => ⟨hInv, hError s hInv hA⟩

theorem Deal.mono {A' : σ → Prop} {B' : α → σ → Prop} {E' : ε → σ → Prop} {c : Co σ ε α}
    (hDeal : Deal P me A c B E) (hPre : ∀ s, P.inv s → A' s → A s)
    (hPost : ∀ value t, P.inv t → B value t → B' value t)
    (hError : ∀ error t, P.inv t → E error t → E' error t) : Deal P me A' c B' E' := by
  intro s hInv hA
  refine (hDeal s hInv (hPre s hInv hA)).mono fun r t hAfter => ⟨hAfter.1, ?_⟩
  cases r with
  | ok value => exact hPost value t hAfter.1 hAfter.2
  | error error => exact hError error t hAfter.1 hAfter.2

theorem Deal.bind {C : β → σ → Prop} {c : Co σ ε α} {f : α → Co σ ε β}
    (hFirst : Deal P me A c B E) (hRest : ∀ value, Deal P me (B value) (f value) C E) :
    Deal P me A (c.bind f) C E := by
  intro s hInv hA
  rw [safe_bind]
  refine (hFirst s hInv hA).mono fun r t hAfter => ?_
  cases r with
  | ok value => exact hRest value t hAfter.1 hAfter.2
  | error error => exact hAfter

theorem Deal.tryCatch {E' : ε' → σ → Prop} {c : Co σ ε α} {handler : ε → Co σ ε' α}
    (hFirst : Deal P me A c B E) (hHandler : ∀ error, Deal P me (E error) (handler error) B E') :
    Deal P me A (c.tryCatch handler) B E' := by
  intro s hInv hA
  rw [safe_tryCatch]
  refine (hFirst s hInv hA).mono fun r t hAfter => ?_
  cases r with
  | ok value => exact hAfter
  | error error => exact hHandler error t hAfter.1 hAfter.2

theorem deal_attemptWhen {ready : σ → Bool} {f : σ → Except ε α × σ}
    (hStable : P.Stable me fun s => P.inv s ∧ A s)
    (hStep : ∀ s, P.inv s → A s → ready s = true →
      P.inv (f s).2 ∧ P.guarantee me s (f s).2 ∧ Left B E (f s).1 (f s).2) :
    Deal P me A (attemptWhen ready f) B E := by
  intro s hInv hA
  refine safe_await _ hStable ⟨hInv, hA⟩ fun s' hBoth _ hReady => ?_
  obtain ⟨hInv', hGuarantee, hLeft⟩ := hStep s' hBoth.1 hBoth.2 hReady
  refine ⟨hInv', hGuarantee, ?_⟩
  cases hResult : (f s').1 with
  | ok value =>
      rw [hResult] at hLeft
      exact ⟨hInv', hLeft⟩
  | error error =>
      rw [hResult] at hLeft
      exact ⟨hInv', hLeft⟩

theorem deal_attempt {f : σ → Except ε α × σ} (hStable : P.Stable me fun s => P.inv s ∧ A s)
    (hStep : ∀ s, P.inv s → A s →
      P.inv (f s).2 ∧ P.guarantee me s (f s).2 ∧ Left B E (f s).1 (f s).2) :
    Deal P me A (attempt f) B E :=
  deal_attemptWhen hStable fun s hInv hA _ => hStep s hInv hA

theorem deal_blockUntil {ready : σ → Bool} {f : σ → α × σ}
    (hStable : P.Stable me fun s => P.inv s ∧ A s)
    (hStep : ∀ s, P.inv s → A s → ready s = true →
      P.inv (f s).2 ∧ P.guarantee me s (f s).2 ∧ B (f s).1 (f s).2) :
    Deal P me A (blockUntil ready f : Co σ ε α) B E := by
  intro s hInv hA
  refine safe_await _ hStable ⟨hInv, hA⟩ fun s' hBoth _ hReady => ?_
  obtain ⟨hInv', hGuarantee, hPost⟩ := hStep s' hBoth.1 hBoth.2 hReady
  exact ⟨hInv', hGuarantee, hInv', hPost⟩

theorem deal_atomic {f : σ → α × σ} (hStable : P.Stable me fun s => P.inv s ∧ A s)
    (hStep : ∀ s, P.inv s → A s →
      P.inv (f s).2 ∧ P.guarantee me s (f s).2 ∧ B (f s).1 (f s).2) :
    Deal P me A (atomic f : Co σ ε α) B E :=
  deal_blockUntil hStable fun s hInv hA _ => hStep s hInv hA

theorem deal_modify {f : σ → σ} {B : σ → Prop} (hStable : P.Stable me fun s => P.inv s ∧ A s)
    (hStep : ∀ s, P.inv s → A s → P.inv (f s) ∧ P.guarantee me s (f s) ∧ B (f s)) :
    Deal P me A (modify f : Co σ ε Unit) (fun _ => B) E := by
  intro s hInv hA
  refine safe_await _ hStable ⟨hInv, hA⟩ fun s' hBoth _ _ => ?_
  obtain ⟨hInv', hGuarantee, hPost⟩ := hStep s' hBoth.1 hBoth.2
  exact ⟨hInv', hGuarantee, hInv', hPost⟩

theorem deal_read {f : σ → α} (hStable : P.Stable me fun s => P.inv s ∧ A s)
    (hStep : ∀ s, P.inv s → A s → P.guarantee me s s ∧ B (f s) s) :
    Deal P me A (read f : Co σ ε α) B E := by
  intro s hInv hA
  refine safe_await _ hStable ⟨hInv, hA⟩ fun s' hBoth _ _ => ?_
  obtain ⟨hGuarantee, hPost⟩ := hStep s' hBoth.1 hBoth.2
  exact ⟨hBoth.1, hGuarantee, hBoth.1, hPost⟩

end Co
end Coop
