import OctoForge.Coop.RelyGuarantee

/-!
# Pools of coroutines

A `System` is a program that starts coroutines: `Call` lists the entry points,
`body` gives the coroutine behind each of them (told its own number, so that a
lock can name its holder), and `event` is what happens to the shared state
from outside (time passes, a message arrives).  `crash` is an event that takes
every running coroutine with it.

A run is a list of scheduler moves.  Any call may be started at any moment and
any ready coroutine may be resumed at any moment, so a statement about every
list of moves is a statement about every interleaving.  The moves are
executable: a witness is a concrete list of them.

`Run.sound` is the rule the developments use: if every entry point keeps the
protocol and the events keep the invariant, then the invariant holds in every
state of every run, and every step of a run is a promised one.
-/

namespace Coop

/-- A program that starts coroutines over a shared state. -/
structure System (σ ε : Type) where
  Call : Type
  body : Call → Nat → Co σ ε Unit
  Event : Type
  event : Event → σ → Option σ
  crash : σ → Option σ

/-- The shared state and the coroutines started so far, in order. -/
structure Pool (σ ε : Type) where
  st : σ
  threads : List (Co σ ε Unit) := []

namespace System

variable {σ ε : Type} (sys : System σ ε)

/-- One decision of the scheduler. -/
inductive Move where
  | start (call : sys.Call)
  | resume (thread : Nat)
  | event (event : sys.Event)
  | crash

variable {sys}

/-- Resume one coroutine: nothing happens unless it is suspended and ready. -/
def resumeThread (p : Pool σ ε) (thread : Nat) : Option (Pool σ ε) :=
  match p.threads[thread]? with
  | some (.await ready act next) =>
      if ready p.st then
        some { st := act p.st, threads := p.threads.set thread (next p.st) }
      else none
  | _ => none

/-- The pool after a move, if the move is possible. -/
def move (p : Pool σ ε) : sys.Move → Option (Pool σ ε)
  | .start call => some { p with threads := p.threads ++ [sys.body call p.threads.length] }
  | .resume thread => resumeThread p thread
  | .event event => (sys.event event p.st).map fun s => { p with st := s }
  | .crash => (sys.crash p.st).map fun s => { st := s, threads := [] }

/-- The pool after a list of moves. -/
def moves : List sys.Move → Pool σ ε → Option (Pool σ ε)
  | [], p => some p
  | m :: rest, p => (move p m).bind (moves rest)

/-- `q` is reached from `p` by some list of moves. -/
inductive Run (sys : System σ ε) : Pool σ ε → Pool σ ε → Prop
  | refl (p : Pool σ ε) : Run sys p p
  | step {p q r : Pool σ ε} (m : sys.Move) (hRun : Run sys p q)
      (hMove : move q m = some r) : Run sys p r

/-- Every list of possible moves is a run. -/
theorem Run.of_moves {p q r : Pool σ ε} (ms : List sys.Move)
    (hRun : Run sys p q) (hMoves : moves ms q = some r) :
    Run sys p r := by
  induction ms generalizing q with
  | nil =>
      simp only [moves, Option.some.injEq] at hMoves
      subst hMoves
      exact hRun
  | cons m rest ih =>
      simp only [moves, Option.bind_eq_some_iff] at hMoves
      obtain ⟨q', hMove, hRest⟩ := hMoves
      exact ih (Run.step m hRun hMove) hRest

/-- What a list of moves computes is true of a reachable pool. -/
theorem Run.exists_of_moves {α : Type} {p : Pool σ ε} {f : Pool σ ε → α} {value : α}
    (ms : List sys.Move) (hMoves : (moves ms p).map f = some value) :
    ∃ q, Run sys p q ∧ f q = value := by
  obtain ⟨q, hMoved, hValue⟩ := Option.map_eq_some_iff.mp hMoves
  exact ⟨q, Run.of_moves ms (Run.refl p) hMoved, hValue⟩

/-- The same for a list of moves with a stop on the way. -/
theorem Run.exists_of_moves_twice {α : Type} {p : Pool σ ε} {f : Pool σ ε → Pool σ ε → α}
    {value : α} (first second : List sys.Move)
    (hMoves : ((moves first p).bind fun q => (moves second q).map (f q)) = some value) :
    ∃ q r, Run sys p q ∧ Run sys q r ∧ f q r = value := by
  obtain ⟨q, hFirst, hRest⟩ := Option.bind_eq_some_iff.mp hMoves
  obtain ⟨r, hSecond, hValue⟩ := Option.map_eq_some_iff.mp hRest
  exact ⟨q, r, Run.of_moves first (Run.refl p) hFirst, Run.of_moves second (Run.refl q) hSecond,
    hValue⟩

theorem Run.trans {p q r : Pool σ ε} (hFirst : Run sys p q) (hSecond : Run sys q r) :
    Run sys p r := by
  induction hSecond with
  | refl => exact hFirst
  | step m _ hMove ih => exact Run.step m ih hMove

/-! ## The soundness rule -/

/-- A protocol a system follows: its entry points are safe, its events are
environment steps of the protocol, and a crash leaves the invariant intact. -/
structure Follows (sys : System σ ε) (P : Protocol σ) : Prop where
  body_safe : ∀ call me s, P.inv s → Co.Safe P me (fun _ _ => True) (sys.body call me) s
  event_env : ∀ event s s', P.inv s → sys.event event s = some s' →
    P.inv s' ∧ P.env s s'
  crash_inv : ∀ s s', P.inv s → sys.crash s = some s' → P.inv s'

/-- What holds between two moves: the invariant, and every coroutine is safe
from here on. -/
def PoolSafe (P : Protocol σ) (p : Pool σ ε) : Prop :=
  P.inv p.st ∧ ∀ (me : Nat) (c : Co σ ε Unit), p.threads[me]? = some c →
    Co.Safe P me (fun _ _ => True) c p.st

/-- One step of a run, as the protocol sees it. -/
inductive Promised (sys : System σ ε) (P : Protocol σ) (s s' : σ) : Prop
  | idle (hEq : s' = s)
  | guarantee (me : Nat) (hStep : P.guarantee me s s')
  | env (hStep : P.env s s')
  | crash (hCrash : sys.crash s = some s')

theorem resumeThread_cases {p q : Pool σ ε} {thread : Nat}
    (hResume : resumeThread p thread = some q) :
    ∃ ready act next, p.threads[thread]? = some (.await ready act next) ∧
      ready p.st = true ∧ q.st = act p.st ∧ q.threads = p.threads.set thread (next p.st) := by
  unfold resumeThread at hResume
  split at hResume
  · rename_i ready act next hThread
    split at hResume
    · rename_i hReady
      simp only [Option.some.injEq] at hResume
      subst hResume
      exact ⟨ready, act, next, hThread, hReady, rfl, rfl⟩
    · exact absurd hResume (by simp)
  · exact absurd hResume (by simp)

/-- A move keeps the pool safe and is a promised step. -/
theorem PoolSafe.move {P : Protocol σ} (hFollows : Follows sys P) {p q : Pool σ ε}
    (m : sys.Move) (hSafe : PoolSafe P p) (hMove : System.move p m = some q) :
    PoolSafe P q ∧ Promised sys P p.st q.st := by
  obtain ⟨hInv, hThreads⟩ := hSafe
  cases m with
  | start call =>
      simp only [System.move, Option.some.injEq] at hMove
      subst hMove
      refine ⟨⟨hInv, ?_⟩, .idle rfl⟩
      intro me c hThread
      -- The new thread is the last one.
      by_cases hOld : me < p.threads.length
      · rw [List.getElem?_append_left hOld] at hThread
        exact hThreads me c hThread
      · have hMe : me = p.threads.length := by
          have hBound := (List.getElem?_eq_some_iff.mp hThread).1
          simp only [List.length_append, List.length_singleton] at hBound
          omega
        subst hMe
        simp only [List.getElem?_concat_length, Option.some.injEq] at hThread
        subst hThread
        exact hFollows.body_safe call _ _ hInv
  | resume thread =>
      obtain ⟨ready, act, next, hThread, hReady, hSt, hSet⟩ := resumeThread_cases hMove
      have hThreadSafe := hThreads thread _ hThread
      obtain ⟨hInv', hGuarantee, hNext⟩ :=
        hThreadSafe p.st Relation.ReflTransGen.refl hInv hReady
      refine ⟨⟨by rw [hSt]; exact hInv', ?_⟩, .guarantee thread (by rw [hSt]; exact hGuarantee)⟩
      intro me c hMe
      rw [hSt]
      by_cases hSame : me = thread
      · subst hSame
        have hBound := (List.getElem?_eq_some_iff.mp hThread).1
        rw [hSet, List.getElem?_set_self hBound] at hMe
        simp only [Option.some.injEq] at hMe
        subst hMe
        exact hNext
      · rw [hSet, List.getElem?_set_ne (fun hEq => hSame hEq.symm)] at hMe
        -- What the thread guarantees is what the others rely on.
        exact (hThreads me c hMe).of_rely
          ⟨hInv', Or.inl ⟨thread, fun hEq => hSame hEq.symm, hGuarantee⟩⟩
  | event event =>
      simp only [System.move, Option.map_eq_some_iff] at hMove
      obtain ⟨s', hEvent, hEq⟩ := hMove
      subst hEq
      obtain ⟨hInv', hEnv⟩ := hFollows.event_env event _ _ hInv hEvent
      refine ⟨⟨hInv', ?_⟩, .env hEnv⟩
      intro me c hMe
      exact (hThreads me c hMe).of_rely ⟨hInv', Or.inr hEnv⟩
  | crash =>
      simp only [System.move, Option.map_eq_some_iff] at hMove
      obtain ⟨s', hCrash, hEq⟩ := hMove
      subst hEq
      refine ⟨⟨hFollows.crash_inv _ _ hInv hCrash, ?_⟩, .crash hCrash⟩
      intro me c hMe
      simp at hMe

/-- The soundness rule: along a run that starts safe, every pool is safe. -/
theorem Run.sound {P : Protocol σ} (hFollows : Follows sys P) {p q : Pool σ ε}
    (hRun : Run sys p q) (hSafe : PoolSafe P p) : PoolSafe P q := by
  induction hRun with
  | refl => exact hSafe
  | step m _ hMove ih => exact (ih.move hFollows m hMove).1

/-- A pool in which nothing runs yet is safe as soon as its state satisfies
the invariant. -/
theorem PoolSafe.initial {P : Protocol σ} {s : σ} (hInv : P.inv s) :
    PoolSafe P ({ st := s } : Pool σ ε) :=
  ⟨hInv, fun _ _ hThread => by simp at hThread⟩

/-- A property of the shared state that every promised step keeps, once
reached, is kept for the rest of the run. -/
theorem Run.preserves {P : Protocol σ} (hFollows : Follows sys P) {A : σ → Prop}
    (hKeep : ∀ s s', P.inv s → A s → Promised sys P s s' → A s')
    {p q : Pool σ ε} (hRun : Run sys p q) (hSafe : PoolSafe P p)
    (hA : A p.st) : A q.st := by
  induction hRun with
  | refl => exact hA
  | step m hPrefix hMove ih =>
      have hMid := hPrefix.sound hFollows hSafe
      exact hKeep _ _ hMid.1 ih (hMid.move hFollows m hMove).2

end System

end Coop
