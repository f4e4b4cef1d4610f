import OctoForge.Conversation.Coroutines

/-!
# What a stop covers

The stop button ends what the user asked for before: a run that is created
afterwards answers only an exchange that was OPEN at that moment or that has got
a message since.  The stop does not pass through the actor, so it meets
commands that are already queued.  A submit carries the number of stops it was
sent after, and its run is born cancelled when there has been another one.

The paths that resume an exchange carry nothing.  They rest on the exchange
being OPEN, and three writers open exchanges without looking for a stop: the
settling of a run that missed a message, the promotion of a collection and its
re-parenting.  A stop that is pressed while the termination waits in the inbox
is overtaken by it.  `stop_covers_what_came_before` says that this is the only
way, beside stops that fall into the start of a resumed run.
-/

namespace OctoForge
namespace Conversation

open Coop
open Dialog (ExchangeId)
open Sequence (Along)

/-! ## Deciding the condition -/

instance (x : ExchangeId) (stop : Nat) : DecidablePred (Note.FoundOpen x stop)
  | .stopped _ _ => inferInstanceAs (Decidable (_ ∧ _))
  | .attached .. | .created .. | .opened .. | .started .. | .restarted .. | .discounted _ =>
      inferInstanceAs (Decidable False)

instance (x : ExchangeId) (stop : Nat) : DecidablePred (Note.SentAfter x stop)
  | .attached _ _ => inferInstanceAs (Decidable (_ ∧ _))
  | .stopped .. | .created .. | .opened .. | .started .. | .restarted .. | .discounted _ =>
      inferInstanceAs (Decidable False)

instance (x : ExchangeId) (stop : Nat) : DecidablePred (Note.CreatedAfter x stop)
  | .created _ _ _ => inferInstanceAs (Decidable (_ ∧ _))
  | .stopped .. | .attached .. | .opened .. | .started .. | .restarted .. | .discounted _ =>
      inferInstanceAs (Decidable False)

instance (notes : List Note) (x : ExchangeId) (stop : Nat) : Decidable (Covered notes x stop) :=
  inferInstanceAs (Decidable ((∃ n ∈ notes, _) ∨ ∃ n ∈ notes, _))

instance (notes : List Note) (x : ExchangeId) (stop : Nat) : Decidable (Belated notes x stop) :=
  inferInstanceAs (Decidable (∃ n ∈ notes, _))

instance (before : List Note) : DecidablePred (Note.Fair before)
  | .opened _ _ => inferInstanceAs (Decidable (∀ stop < _, _))
  | .started _ _ _ _ => inferInstanceAs (Decidable (_ → ∀ stop < _, _))
  | .restarted _ _ _ => inferInstanceAs (Decidable (_ = _))
  | .stopped .. | .attached .. | .created .. | .discounted _ => inferInstanceAs (Decidable True)

/-! ## The runs that are created -/

/-- A run that is created, and not told to stop, answers an exchange that every
earlier stop found OPEN or that has got a message since. -/
def Note.Obeys (before : List Note) : Note → Prop
  | .started x _ stops cancelled => cancelled = false → ∀ stop < stops, Covered before x stop
  | .restarted x stops _ => ∀ stop < stops, Covered before x stop
  | _ => True

instance (before : List Note) : DecidablePred (Note.Obeys before)
  | .started _ _ _ _ => inferInstanceAs (Decidable (_ → ∀ stop < _, _))
  | .restarted _ _ _ => inferInstanceAs (Decidable (∀ stop < _, _))
  | .stopped .. | .attached .. | .created .. | .opened .. | .discounted _ =>
      inferInstanceAs (Decidable True)

theorem Note.Plain.obeys {n : Note} (hPlain : n.Plain) (before : List Note) : n.Obeys before := by
  cases n with
  | started => exact absurd hPlain id
  | restarted => exact absurd hPlain id
  | _ => trivial

section Steps

variable {cfg : RunnerConfig} {me : Nat} {s s' : World}

/-- The run of a message that is not older than the last stop is covered by that
message. -/
theorem covered_of_message {x : ExchangeId} {epoch stops stop : Nat} {notes : List Note}
    (hAttached : .attached x epoch ∈ notes) (hFlag : decide (epoch < stops) = false)
    (hStop : stop < stops) : Covered notes x stop := by
  have hEpoch : ¬epoch < stops := of_decide_eq_false hFlag
  exact covered_of_attached hAttached (by omega)

/-- The run of an exchange that was read as OPEN. -/
theorem covered_of_resumed {x : ExchangeId} {since stops : Nat} {notes : List Note}
    (hPassed : Passed notes x since) (hFair : Note.Fair notes (.started x since stops false)) :
    ∀ stop < stops, Covered notes x stop := by
  intro stop hStop
  rcases Nat.lt_or_ge stop since with hBefore | hDuring
  · rcases hPassed stop hBefore with hCovered | hBelated
    · exact hCovered
    · exact hFair rfl stop hStop (Or.inr hBelated)
  · exact hFair rfl stop hStop (Or.inl hDuring)

/-- The runs created so far obey the stops, as long as the notes are fair. -/
def StopsObeyed (s : World) : Prop := Along Note.Fair s.notes → Along Note.Obeys s.notes

theorem StopsObeyed.act (hObeyed : StopsObeyed s) (hAct : Act cfg me s s') : StopsObeyed s' := by
  intro hFair
  cases hAct.notes with
  | plain more hNotes hPlain =>
      rw [hNotes] at hFair ⊢
      exact (hObeyed hFair.of_append).append fun n hMem => (hPlain n hMem).obeys
  | started seen cancelEpoch hJustified hNotes =>
      rw [hNotes] at hFair ⊢
      refine (hObeyed hFair.of_append).snoc fun hFlag => ?_
      have hLast := hFair.last
      rw [hFlag] at hLast
      cases cancelEpoch with
      | some epoch => exact fun stop hStop => covered_of_message hJustified hFlag hStop
      | none => exact covered_of_resumed (hJustified hFair.of_append) hLast
  | restarted x hNotes =>
      rw [hNotes] at hFair ⊢
      refine (hObeyed hFair.of_append).snoc fun stop hStop => ?_
      have hNone : s.cancelEpoch = 0 := hFair.last
      omega

end Steps

/-- Along every run from a fresh runner: as long as the notes are fair, every run
that was created after a stop, and was not told to stop, answers an exchange
that the stop found OPEN or that has got a message since. -/
theorem stop_covers_what_came_before {cfg : RunnerConfig} {start : World}
    {q : Pool World StoreError} (hStart : start.Fresh)
    (hRun : System.Run (conversation cfg) { st := start } q)
    (hFair : Along Note.Fair q.st.notes) : Along Note.Obeys q.st.notes := by
  have hKeep : ∀ s s', (runnerProtocol cfg).inv s → StopsObeyed s → Moved cfg s s' →
      StopsObeyed s' := by
    intro s s' _ hObeyed hMoved
    cases hMoved with
    | act me hAct => exact hObeyed.act hAct
    | crash => exact fun _ => .nil
  refine run_preserves hKeep hStart.safe (fun _ => ?_) hRun hFair
  rw [hStart.notes_eq]
  exact .nil

/-- Stop is pressed while a message is being routed, and another message follows. -/
def stoppedWhileRouted : List (System.Move (conversation {})) :=
  List.flatten [[.start (.submit { content := "question" } none)], List.replicate 7 (.resume 0),
    [.start .cancel], List.replicate 2 (.resume 1), List.replicate 15 (.resume 0),
    [.start (.submit { content := "again" } (some { action := "new" }))],
    List.replicate 23 (.resume 2)]

theorem stop_covers_what_came_before_routed :
    ∃ q : Pool World StoreError, System.Run (conversation {}) { st := {} } q ∧
      q.st.cancelEpoch = 1 ∧
      q.st.processes.map (fun p => (p.exchangeId, p.cancelled)) =
        [(some 0, true), (some 1, false)] ∧
      Along Note.Obeys q.st.notes := by
  have hMoves : (System.moves stoppedWhileRouted { st := {} }).map (fun q =>
      (q.st.cancelEpoch, q.st.processes.map (fun p => (p.exchangeId, p.cancelled)),
        decide (Along Note.Fair q.st.notes))) =
      some (1, [(some 0, true), (some 1, false)], true) := by decide +kernel
  obtain ⟨q, hRun, hSeen⟩ := System.Run.exists_of_moves _ hMoves
  simp only [Prod.mk.injEq, decide_eq_true_eq] at hSeen
  obtain ⟨hEpoch, hProcesses, hFair⟩ := hSeen
  exact ⟨q, hRun, hEpoch, hProcesses, stop_covers_what_came_before .empty hRun hFair⟩

/-- A run ends without having seen the second message of its exchange, and stop is
pressed before the actor has taken the termination. -/
def stoppedWhileQueued : List (System.Move (conversation {})) :=
  List.flatten [[.start (.submit { content := "question" } none)], List.replicate 22 (.resume 0),
    [.start (.submit { content := "one more thing" }
      (some { action := "continue", exchangeId := .id 0 }))],
    List.replicate 15 (.resume 1), [.start (.pump 0 (.finished "answer") .spoken true)],
    List.replicate 3 (.resume 2), [.start .cancel], List.replicate 3 (.resume 3)]

/-- The actor takes the termination. -/
def takenAfterwards : List (System.Move (conversation {})) :=
  List.flatten [[.start .terminated], List.replicate 18 (.resume 4)]

/-- The stop found the exchange IN_PROGRESS and no message came after it.  The
termination reopens the exchange all the same, and a new run answers it. -/
theorem stop_overtaken_by_termination :
    ∃ q r : Pool World StoreError, System.Run (conversation {}) { st := {} } q ∧
      System.Run (conversation {}) q r ∧
      q.st.cancelEpoch = 1 ∧ q.st.status 0 = some .inProgress ∧ q.st.processes = [] ∧
      r.st.submitted = q.st.submitted ∧ r.st.Running 0 ∧ ¬Along Note.Obeys r.st.notes := by
  have hMoves : ((System.moves stoppedWhileQueued { st := {} }).bind fun q =>
      (System.moves takenAfterwards q).map fun r =>
        decide (q.st.cancelEpoch = 1 ∧ q.st.status 0 = some .inProgress ∧ q.st.processes = [] ∧
          r.st.submitted = q.st.submitted ∧ r.st.Running 0 ∧ ¬Along Note.Obeys r.st.notes)) =
      some true := by decide +kernel
  obtain ⟨q, r, hFirst, hSecond, hSeen⟩ := System.Run.exists_of_moves_twice _ _ hMoves
  exact ⟨q, r, hFirst, hSecond, of_decide_eq_true hSeen⟩

end Conversation
end OctoForge
