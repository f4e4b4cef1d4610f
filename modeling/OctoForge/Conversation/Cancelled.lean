import OctoForge.Conversation.Coroutines

/-!
# Cancelled exchanges

A cancelled exchange should stay cancelled.  Two writers guard that in their
WHERE clause: the settling of a finished run and the reset of a dead runner's
exchanges.  The others write without a guard, after a look at the exchange that
may be old: the start of an answer run, a question to the user, a promotion, a
re-parenting, and the restart of an orphaned task.

A write is clean when its author had not seen the exchange cancelled, and
nobody cancelled it between that look and the write.  As long as every write is
clean, no exchange leaves CANCELLED, whatever the interleaving and wherever the
process crashes.  Recovery breaks the condition by itself: it restarts the task
of an exchange it has just read as CANCELLED.
-/

namespace OctoForge
namespace Conversation

open Coop
open Dialog (ExchangeId)

/-- Every move of a run is a step. -/
theorem Moved.step {cfg : RunnerConfig} {s s' : World} (hWell : s.WellFormed)
    (hMoved : Moved cfg s s') : Step s s' := by
  cases hMoved with
  | act me hAct => exact hAct.step hWell
  | crash => exact .restart s

/-- Along every run, with any interleaving and with crashes at any point, an
exchange that is cancelled stays cancelled as long as the writes made since are
clean. -/
theorem cancelled_stays_cancelled {cfg : RunnerConfig} {start : World}
    {q r : Pool World StoreError} {x : ExchangeId} (hStart : start.Fresh)
    (hRun : System.Run (conversation cfg) { st := start } q)
    (hLater : System.Run (conversation cfg) q r)
    (hCancelled : q.st.status x = some .cancelled)
    (hClean : CleanFrom q.st.log.length r.st.log) : r.st.status x = some .cancelled := by
  have hSafe := hRun.sound (conversation_follows cfg) hStart.safe
  have hKeep : ∀ s s', (runnerProtocol cfg).inv s →
      (q.st.log.length ≤ s.log.length ∧
        (CleanFrom q.st.log.length s.log → s.status x = some .cancelled)) →
      Moved cfg s s' →
      (q.st.log.length ≤ s'.log.length ∧
        (CleanFrom q.st.log.length s'.log → s'.status x = some .cancelled)) := by
    intro s s' hInv hBefore hMoved
    have hStep := hMoved.step hInv.1
    obtain ⟨more, hLog⟩ := hStep.log
    refine ⟨?_, fun hClean' => ?_⟩
    · rw [hLog, List.length_append]
      exact Nat.le_trans hBefore.1 (Nat.le_add_right _ _)
    · have hBeforeClean : CleanFrom q.st.log.length s.log := by
        rw [hLog] at hClean'
        exact hClean'.of_append
      exact hStep.kept x (hBefore.2 hBeforeClean) (hClean'.mono hBefore.1)
  exact (run_preserves hKeep hSafe ⟨Nat.le_refl _, fun _ => hCancelled⟩ hLater).2 hClean

/-- A question is asked and answered by a run, then the user takes it back while
that run is still going. -/
def takenBack : List (System.Move (conversation {})) :=
  List.flatten [[.start (.submit { content := "question" } none)], List.replicate 22 (.resume 0),
    [.start (.submit { content := "forget it" }
      (some { action := "command", cancelExchangeIds := .list [.id 0] }))],
    List.replicate 13 (.resume 1)]

/-- The run of the cancelled exchange ends, the process crashes and recovers, and
another question is asked. -/
def wentOn : List (System.Move (conversation {})) :=
  List.flatten [[.start (.pump 0 .cancelled .nothing false)], List.replicate 3 (.resume 2),
    [.start .terminated], List.replicate 7 (.resume 3), [.crash, .start .recover],
    List.replicate 2 (.resume 0), [.start (.submit { content := "another" } none)],
    List.replicate 22 (.resume 1)]

/-- The process crashes and its successor recovers the dialog. -/
def recovered : List (System.Move (conversation {})) :=
  List.flatten [[.crash, .start .recover], List.replicate 10 (.resume 0)]

theorem cancelled_stays_cancelled_beyond_crash :
    ∃ q r : Pool World StoreError, System.Run (conversation {}) { st := {} } q ∧
      System.Run (conversation {}) q r ∧ q.st.status 0 = some .cancelled ∧
      r.st.status 1 = some .inProgress ∧ r.st.status 0 = some .cancelled := by
  have hMoves : ((System.moves takenBack { st := {} }).bind fun q =>
      (System.moves wentOn q).map fun r =>
        (q.st.status 0, r.st.status 1, decide (CleanFrom q.st.log.length r.st.log))) =
      some (some .cancelled, some .inProgress, true) := by decide +kernel
  obtain ⟨q, r, hFirst, hSecond, hSeen⟩ := System.Run.exists_of_moves_twice _ _ hMoves
  simp only [Prod.mk.injEq, decide_eq_true_eq] at hSeen
  obtain ⟨hCancelled, hOther, hClean⟩ := hSeen
  exact ⟨q, r, hFirst, hSecond, hCancelled, hOther,
    cancelled_stays_cancelled .empty hFirst hSecond hCancelled hClean⟩

/-- The process dies before the run of the cancelled exchange has written its
end.  Recovery finds a running task and puts the exchange back in progress; no
message was submitted in between. -/
theorem cancelled_revived_by_recovery :
    ∃ q r : Pool World StoreError, System.Run (conversation {}) { st := {} } q ∧
      System.Run (conversation {}) q r ∧ q.st.status 0 = some .cancelled ∧
      r.st.status 0 = some .inProgress ∧ r.st.submitted = q.st.submitted := by
  have hMoves : ((System.moves takenBack { st := {} }).bind fun q =>
      (System.moves recovered q).map fun r =>
        (q.st.status 0, r.st.status 0, q.st.submitted, r.st.submitted)) =
      some (some .cancelled, some .inProgress, 2, 2) := by decide +kernel
  obtain ⟨q, r, hFirst, hSecond, hSeen⟩ := System.Run.exists_of_moves_twice _ _ hMoves
  simp only [Prod.mk.injEq] at hSeen
  obtain ⟨hCancelled, hRevived, hBefore, hAfter⟩ := hSeen
  exact ⟨q, r, hFirst, hSecond, hCancelled, hRevived, hAfter.trans hBefore.symm⟩

end Conversation
end OctoForge
