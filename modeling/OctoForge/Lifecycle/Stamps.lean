import OctoForge.Lifecycle.Runs

/-!
# What the outbox does to the task table

Nothing but stamping: every step of a flush, of a notice and of the handling of
a termination leaves a row as it is or sets its delivery stamp.
-/

namespace OctoForge
namespace Lifecycle

open Coop
open Dialog (ExchangeId)
open Conversation (TaskId)
open Outbox (TaskRow Terminated)

/-- Rows are left alone or stamped. -/
def Stamped (tasks tasks' : TaskId → Option TaskRow) : Prop :=
  ∀ task, tasks' task = tasks task ∨
    ∃ row, tasks task = some row ∧ tasks' task = some { row with delivered := true }

theorem Stamped.refl (tasks : TaskId → Option TaskRow) : Stamped tasks tasks := fun _ => Or.inl rfl

section Outbox

variable {me : Nat}

/-- Every step of the coroutine leaves the rows alone or stamps them. -/
abbrev Stamps {α : Type} (c : Outbox.Work α) : Prop :=
  Co.Steps (fun r r' => Stamped r.tasks r'.tasks) c

/-- A step that has no business with the table. -/
theorem atomOk_stamps {ready : Outbox.Runner → Bool} {f : Outbox.Runner → Outbox.Runner}
    (hTasks : ∀ r, Stamped r.tasks (f r).tasks) :
    Co.AtomOk (Protocol.ofStep (fun _ => True) fun r r' => Stamped r.tasks r'.tasks) 0
      (fun _ => True) ready f :=
  Co.atomOk_ofStep (fun _ _ _ _ => trivial) fun r _ _ _ => hTasks r

theorem stamps_modify {f : Outbox.Runner → Outbox.Runner} (hTasks : ∀ r, (f r).tasks = r.tasks) :
    Stamps (Co.modify f) :=
  Co.atoms_modify (atomOk_stamps fun r => hTasks r ▸ Stamped.refl _)

theorem stamps_markDelivered (task : TaskId) (notes : List Outbox.Note) :
    Stamps (Outbox.suppressNotFound (Outbox.markDelivered task notes)) := by
  refine Co.Atoms.tryCatch (Co.atoms_attempt (atomOk_stamps fun r => ?_)) fun error => ?_
  · split
    · exact Stamped.refl _
    split
    · exact Stamped.refl _
    · next row hRow =>
        intro other
        by_cases hOther : other = task
        · subst hOther
          exact Or.inr ⟨row, hRow, Function.update_self ..⟩
        · exact Or.inl (Function.update_of_ne hOther ..)
  · cases error with
    | unavailable => trivial
    | taskNotFound => trivial

@[simp] theorem tasks_discard (me : Nat) (delivery : Outbox.Delivery) (r : Outbox.Runner) :
    (r.discard me delivery).tasks = r.tasks := by
  unfold Outbox.Runner.discard
  split <;> rfl

@[simp] theorem tasks_remove (me : Nat) (delivery : Outbox.Delivery) (r : Outbox.Runner) :
    (r.remove me delivery).tasks = r.tasks := by
  unfold Outbox.Runner.remove
  split
  · split
    · rfl
    · exact tasks_discard me delivery r
  · exact tasks_discard me delivery r

theorem tasks_sendHead (me : Nat) (r : Outbox.Runner) : (r.sendHead me).2.tasks = r.tasks := by
  unfold Outbox.Runner.sendHead
  split
  · rfl
  split
  · rfl
  dsimp only
  split
  · rfl
  split
  · rfl
  · exact tasks_remove ..

theorem tasks_drainFor (me rounds : Nat) (r : Outbox.Runner) :
    (r.drainFor me rounds).2.tasks = r.tasks := by
  induction rounds generalizing r with
  | zero => rfl
  | succ rounds ih =>
      have hRound := tasks_sendHead me r
      unfold Outbox.Runner.drainFor
      split
      · next r' hEq => rw [hEq] at hRound; exact hRound
      · next r' hEq => rw [hEq] at hRound; exact hRound
      · next r' hEq =>
          rw [hEq] at hRound
          exact (ih r').trans hRound
      · next r' hEq => rw [hEq] at hRound; exact hRound

theorem tasks_resumeFlush (me : Nat) (stamped : Option Outbox.Delivery) (r : Outbox.Runner) :
    (r.resumeFlush me stamped).2.tasks = r.tasks := by
  cases stamped with
  | none => exact tasks_drainFor ..
  | some delivery => exact (tasks_drainFor ..).trans (tasks_remove ..)

theorem stamps_flushLoop (fuel : Nat) (stamped : Option Outbox.Delivery) :
    Stamps (Outbox.flushLoop me fuel stamped) := by
  induction fuel generalizing stamped with
  | zero => exact fun _ _ _ hReady => absurd hReady (by simp)
  | succ fuel ih =>
      refine Co.Atoms.bind (Co.atoms_atomic (atomOk_stamps fun r => ?_)) fun next => ?_
      · exact tasks_resumeFlush me stamped r ▸ Stamped.refl _
      cases next with
      | none => trivial
      | some next => exact (stamps_markDelivered _ _).bind fun _ => ih _

theorem stamps_flushDeliveries (fuel : Nat) : Stamps (Outbox.flushDeliveries me fuel) := by
  refine Co.Atoms.bind (Co.atoms_blockUntil (atomOk_stamps fun r => Stamped.refl _)) fun _ => ?_
  refine (stamps_flushLoop fuel none).ensure fun r _ _ => ⟨trivial, ?_⟩
  unfold Outbox.releaseFlushLock
  split <;> exact Stamped.refl _

theorem stamps_enqueue (events : List Outbox.LoopEvent) (taskId : Option TaskId)
    (exchangeId : Option ExchangeId) (front : Bool) :
    Stamps (Co.modify (Outbox.Runner.enqueue events taskId exchangeId front)) :=
  stamps_modify fun _ => rfl

theorem stamps_deliverNotice (fuel : Nat) (content : String) (exchangeId : Option ExchangeId) :
    Stamps (Outbox.deliverNotice me fuel content exchangeId) := by
  refine Co.Atoms.bind (Co.atoms_attempt (atomOk_stamps fun r => ?_)) fun _ =>
    (stamps_enqueue _ _ _ _).bind fun _ => stamps_flushDeliveries fuel
  split <;> exact Stamped.refl _

theorem stamps_markStreamedDelivered (task : TaskId) (row : TaskRow) :
    Stamps (Outbox.markStreamedDelivered task row) := by
  unfold Outbox.markStreamedDelivered
  split
  · trivial
  split
  · exact stamps_markDelivered task []
  · trivial

theorem stamps_recordOutcome (command : Terminated) (row : TaskRow) :
    Stamps (Outbox.recordOutcome command row) := by
  unfold Outbox.recordOutcome
  split
  · exact stamps_markStreamedDelivered _ _
  split
  · refine stamps_modify fun r => ?_
    unfold Outbox.enqueueRedelivery
    split
    · rfl
    split <;> rfl
  split
  · exact stamps_markStreamedDelivered _ _
  · refine stamps_modify fun r => ?_
    unfold Outbox.enqueueTerminal
    split <;> rfl

theorem stamps_deliverTerminated (fuel : Nat) (command : Terminated) :
    Stamps (Outbox.deliverTerminated me fuel command) := by
  have hRow : Stamps (Outbox.terminatedRow command) := by
    unfold Outbox.terminatedRow
    split
    · trivial
    · refine Co.atoms_attempt (atomOk_stamps fun r => ?_)
      split <;> exact Stamped.refl _
  refine hRow.bind fun row => ?_
  cases row with
  | none => trivial
  | some row => exact (stamps_recordOutcome command row).bind fun _ => stamps_flushDeliveries fuel

end Outbox

end Lifecycle
end OctoForge
