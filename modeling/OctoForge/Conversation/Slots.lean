import OctoForge.Conversation.Coroutines

/-!
# Runs and their slots

An exchange is answered by one run at a time, and no more than `maxProcesses`
runs are going.  Both are checked under the spawn lock, which is held until the
run is created, so runs can only end between the check and the creation.

Recovery restarts every task that was left running and does not ask whether the
exchange of the task has a run.  A run whose end could not be written leaves
such a task behind, and so does the run that took its place.  The cap is kept by
recovery too.  It breaks where a message cancels an exchange with two runs: one
of them is told to stop, and the exchange is left out of the count as long as
the other one is going.
-/

namespace OctoForge
namespace Conversation

open Coop
open Dialog (ExchangeId)

/-! ## One run for an exchange -/

/-- No task was restarted whose exchange had a run. -/
def World.RestartsAlone (s : World) : Prop :=
  ∀ n ∈ s.notes, ∀ x stops, n ≠ .restarted x stops false

section Steps

variable {cfg : RunnerConfig} {me : Nat} {s s' : World}

theorem World.RestartsAlone.before (hAct : Act cfg me s s') (hAlone : s'.RestartsAlone) :
    s.RestartsAlone :=
  fun n hMem => hAlone n (hAct.notes_mono hMem)

theorem owners_nodup_act (hNodup : s.RestartsAlone → s.owners.Nodup) (hAct : Act cfg me s s')
    (hAlone : s'.RestartsAlone) : s'.owners.Nodup := by
  have hBefore := hNodup (hAlone.before hAct)
  cases hAct.runs with
  | fewer hOwners _ => exact hBefore.sublist hOwners
  | more _ _ _ hOwners =>
      rcases hOwners with hSame | ⟨x, hNew, hRestarted⟩
      · rwa [hSame]
      · have hFree : x ∉ s.owners := by
          intro hMem
          obtain ⟨stops, hNote⟩ := hRestarted hMem
          exact hAlone _ hNote x stops rfl
        rw [hNew]
        exact List.nodup_append.mpr ⟨hBefore, List.nodup_singleton x, fun y hMem z hLast => by
          obtain rfl := List.mem_singleton.mp hLast
          exact fun hEq => hFree (hEq ▸ hMem)⟩

end Steps

/-- Along every run from a fresh runner over any tables: no exchange has two runs,
as long as no task was restarted whose exchange had one. -/
theorem one_run_per_exchange {cfg : RunnerConfig} {start : World} {q : Pool World StoreError}
    (hStart : start.Fresh) (hRun : System.Run (conversation cfg) { st := start } q)
    (hAlone : q.st.RestartsAlone) : q.st.owners.Nodup := by
  have hKeep : ∀ s s', (runnerProtocol cfg).inv s → (s.RestartsAlone → s.owners.Nodup) →
      Moved cfg s s' → (s'.RestartsAlone → s'.owners.Nodup) := by
    intro s s' _ hNodup hMoved
    cases hMoved with
    | act me hAct => exact owners_nodup_act hNodup hAct
    | crash => exact fun _ => List.nodup_nil
  refine run_preserves hKeep hStart.safe (fun _ => ?_) hRun hAlone
  simp [World.owners, hStart.processes_eq]

instance (s : World) : Decidable s.RestartsAlone :=
  decidable_of_iff (∀ n ∈ s.notes, (match n with | .restarted _ _ alone => alone | _ => true) = true)
    ⟨fun hAll n hMem x stops hEq => by
      have hTrue := hAll n hMem
      simp [hEq] at hTrue,
    fun hAlone n hMem => by
      have hNot := hAlone n hMem
      cases n with
      | restarted x stops alone =>
          cases alone with
          | true => rfl
          | false => exact absurd rfl (hNot x stops)
      | _ => rfl⟩

/-- A dialog is recovered and another question asked. -/
def recoveredOnce : List (System.Move (conversation {})) :=
  List.flatten [[.start (.submit { content := "question" } none)], List.replicate 22 (.resume 0),
    [.crash, .start .recover], List.replicate 10 (.resume 0),
    [.start (.submit { content := "another" } (some { action := "new" }))],
    List.replicate 23 (.resume 1)]

theorem one_run_per_exchange_after_recovery :
    ∃ q : Pool World StoreError, System.Run (conversation {}) { st := {} } q ∧
      q.st.owners = [0, 1] ∧ q.st.owners.Nodup := by
  have hMoves : (System.moves recoveredOnce { st := {} }).map (fun q =>
      decide (q.st.owners = [0, 1] ∧ q.st.RestartsAlone)) = some true := by decide +kernel
  obtain ⟨q, hRun, hSeen⟩ := System.Run.exists_of_moves _ hMoves
  obtain ⟨hOwners, hAlone⟩ := of_decide_eq_true hSeen
  exact ⟨q, hRun, hOwners, one_run_per_exchange .empty hRun hAlone⟩

def twoSlots : RunnerConfig := { maxProcesses := 2 }

/-- The end of a run that missed a message cannot be written.  The exchange is
reopened and gets another run, and then the process crashes. -/
def leftTwice : List (System.Move (conversation twoSlots)) :=
  List.flatten [[.start (.submit { content := "question" } none)], List.replicate 22 (.resume 0),
    [.start (.submit { content := "one more thing" }
      (some { action := "continue", exchangeId := .id 0 }))],
    List.replicate 15 (.resume 1),
    [.event (.store true), .start (.pump 0 (.finished "answer") .spoken true)],
    List.replicate 3 (.resume 2), [.event (.store false), .start .terminated],
    List.replicate 18 (.resume 3), [.crash, .start .recover], List.replicate 18 (.resume 0)]

/-- Both tasks are still marked running, and both are restarted. -/
theorem exchange_recovered_twice :
    ∃ q : Pool World StoreError, System.Run (conversation twoSlots) { st := {} } q ∧
      q.st.owners = [0, 0] ∧ ¬q.st.owners.Nodup := by
  have hMoves : (System.moves leftTwice { st := {} }).map (fun q => q.st.owners) =
      some [0, 0] := by decide +kernel
  obtain ⟨q, hRun, hOwners⟩ := System.Run.exists_of_moves _ hMoves
  refine ⟨q, hRun, hOwners, ?_⟩
  rw [hOwners]
  decide +kernel

/-! ## The process limit -/

/-- Whenever a run was let in, every exchange whose run was left out of the count
had a run that was told to stop. -/
def World.DiscountsSound (s : World) : Prop := ∀ n ∈ s.notes, n ≠ .discounted false

theorem going_le_act {cfg : RunnerConfig} {me : Nat} {s s' : World}
    (hGoing : s.DiscountsSound → s.going ≤ cfg.maxProcesses) (hAct : Act cfg me s s')
    (hSound : s'.DiscountsSound) : s'.going ≤ cfg.maxProcesses := by
  have hBefore : s.DiscountsSound := fun n hMem => hSound n (hAct.notes_mono hMem)
  cases hAct.runs with
  | fewer _ hFewer => exact Nat.le_trans hFewer (hGoing hBefore)
  | more _ hRoom hMore _ => exact Nat.le_trans hMore (hRoom hBefore)

/-- Along every run from a fresh runner over any tables: the runs that were not
told to stop are at most `maxProcesses`, as long as the runs that were left out
of the count had been told to stop. -/
theorem runs_within_limit {cfg : RunnerConfig} {start : World} {q : Pool World StoreError}
    (hStart : start.Fresh) (hRun : System.Run (conversation cfg) { st := start } q)
    (hSound : q.st.DiscountsSound) : q.st.going ≤ cfg.maxProcesses := by
  have hKeep : ∀ s s', (runnerProtocol cfg).inv s →
      (s.DiscountsSound → s.going ≤ cfg.maxProcesses) → Moved cfg s s' →
      (s'.DiscountsSound → s'.going ≤ cfg.maxProcesses) := by
    intro s s' _ hGoing hMoved
    cases hMoved with
    | act me hAct => exact going_le_act hGoing hAct
    | crash => exact fun _ => Nat.zero_le _
  refine run_preserves hKeep hStart.safe (fun _ => ?_) hRun hSound
  simp [World.going, hStart.processes_eq]

instance (s : World) : Decidable s.DiscountsSound :=
  inferInstanceAs (Decidable (∀ n ∈ s.notes, _))

def oneSlot : RunnerConfig := { maxProcesses := 1 }

/-- The message stops the only run and asks for another one. -/
def replaced : List (System.Move (conversation oneSlot)) :=
  List.flatten [[.start (.submit { content := "question" } none)], List.replicate 22 (.resume 0),
    [.start (.submit { content := "forget it, book a table" }
      (some { action := "new", cancelExchangeIds := .list [.id 0] }))],
    List.replicate 25 (.resume 1)]

theorem runs_within_limit_replaced :
    ∃ q : Pool World StoreError, System.Run (conversation oneSlot) { st := {} } q ∧
      q.st.processes.length = 2 ∧ q.st.Running 1 ∧ q.st.going ≤ oneSlot.maxProcesses := by
  have hMoves : (System.moves replaced { st := {} }).map (fun q =>
      decide (q.st.processes.length = 2 ∧ q.st.Running 1 ∧ q.st.DiscountsSound)) =
      some true := by decide +kernel
  obtain ⟨q, hRun, hSeen⟩ := System.Run.exists_of_moves _ hMoves
  obtain ⟨hLength, hRunning, hSound⟩ := of_decide_eq_true hSeen
  exact ⟨q, hRun, hLength, hRunning, runs_within_limit .empty hRun hSound⟩

/-- The exchange with two runs is cancelled by a message that asks for something
else.  The run that was told to stop ends, and a background run takes its slot
before the message gets its own. -/
def overbooked : List (System.Move (conversation twoSlots)) :=
  List.flatten [leftTwice,
    [.start (.submit { content := "forget it, book a table" }
      (some { action := "new", cancelExchangeIds := .list [.id 0] }))],
    List.replicate 14 (.resume 1), [.start (.pump 0 .cancelled .nothing false)],
    List.replicate 3 (.resume 2), [.start (.spawnTask "report")], List.replicate 6 (.resume 3),
    List.replicate 11 (.resume 1)]

/-- The second run of the exchange is going and is left out of the count. -/
theorem limit_exceeded_by_discount :
    ∃ q : Pool World StoreError, System.Run (conversation twoSlots) { st := {} } q ∧
      q.st.going = 3 ∧ ¬q.st.going ≤ twoSlots.maxProcesses := by
  have hMoves : (System.moves overbooked { st := {} }).map (fun q => q.st.going) = some 3 := by
    decide +kernel
  obtain ⟨q, hRun, hGoing⟩ := System.Run.exists_of_moves _ hMoves
  refine ⟨q, hRun, hGoing, ?_⟩
  rw [hGoing]
  decide +kernel

end Conversation
end OctoForge
