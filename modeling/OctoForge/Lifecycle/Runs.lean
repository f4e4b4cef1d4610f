import OctoForge.Conversation.Runner
import OctoForge.Coop.Zoom
import OctoForge.Outbox.Flush

/-!
# The life of a run

A run is a row of the task table, a process in the memory of the runner, and in
the end a message in the log.  It starts with the row, ends with a finishing
write, and its result is stamped when it has been delivered.  The process may
die between any two commits; the runner that is built next reads the table and
picks up what the previous one left: it restarts the tasks that were still
active and redelivers the results that were never stamped.

A coroutine takes one step from one await to the next, and a unit of work is one
step, its commit.  The outbox is the one of `Outbox.Flush`, run on its part of
the state.  Three things are left to the scheduler: what a run's loop ends with
and whether a queue accepted its terminal (`Outcome`, `accepted`); which checks
let a new run in, so that every start is let in at any moment; and the locks
around starts, which only take interleavings away.  The sweep that revives
stranded exchanges starts runs like any other start.  Rows that age out or that
a tool cancels by hand are not part of a run's life.

`started` and `trail` are read by nothing: which tasks this runner has added to
the table, and what its recovery did.
-/

namespace OctoForge
namespace Lifecycle

open Coop
open Dialog (ExchangeId MessageRole)
open Conversation (TaskId TaskKind TaskStatus restartLimitError)
open Outbox (Hub TaskRow StoreError Terminated blank)

/-- A row of the message log. -/
structure MessageRow where
  role : MessageRole
  content : String
  taskId : Option TaskId := none
  exchangeId : Option ExchangeId := none
  deriving DecidableEq, Repr

/-- `_Process`.  `pump` is the coroutine that streams it. -/
structure Process where
  taskId : TaskId
  title : String := ""
  exchangeId : Option ExchangeId := none
  pump : Option Nat := none
  deriving DecidableEq, Repr

inductive Note where
  /-- A recovery read the table.  `clean`: this runner had started none of the
  tasks that the read returned as orphaned. -/
  | listed (clean : Bool)
  /-- A recovery restarted the task.  `logged`: a message of it was in the log. -/
  | restarted (task : TaskId) (logged : Bool)
  deriving DecidableEq, Repr

/-- The tables of one dialog and the memory of the runner that has it. -/
structure Service where
  runner : Outbox.Runner
  messages : List MessageRow := []
  nextTask : TaskId := 0
  budget : Option String := none
  awaitingUser : ExchangeId → Bool := fun _ => false
  /-- The coroutine that recovers the dialog, once the runner has been built. -/
  recovery : Option Nat := none
  processes : List Process := []
  inbox : List Terminated := []
  started : List (TaskId × Nat) := []
  trail : List Note := []

abbrev Work (α : Type) := Co Service StoreError α

namespace Service

def tasks (s : Service) : TaskId → Option TaskRow := s.runner.tasks

def setTask (task : TaskId) (row : TaskRow) (s : Service) : Service :=
  { s with runner := { s.runner with tasks := Function.update s.runner.tasks task (some row) } }

def allTasks (s : Service) : List (TaskId × TaskRow) :=
  (List.range s.nextTask).filterMap fun task => (s.tasks task).map (task, ·)

/-- The status of a finished row whose outcome goes to the user. -/
def reported (status : TaskStatus) : Bool := status = .done || status = .failed

/-- `list_for_recovery`: the orphaned tasks and the undelivered ones. -/
def listForRecovery (s : Service) : List (TaskId × TaskRow) × List (TaskId × TaskRow) :=
  let tasks := s.allTasks.filter fun (_, row) =>
    row.status.isActive || (reported row.status && !row.delivered)
  (tasks.filter fun (_, row) => row.status.isActive,
    tasks.filter fun (_, row) => !row.status.isActive)

/-- A message of the task is in the log. -/
def logged (task : TaskId) (s : Service) : Bool := s.messages.any (·.taskId = some task)

def idle? (task : TaskId) (s : Service) : Option Process :=
  s.processes.find? fun p => p.taskId = task && p.pump.isNone

/-- `_processes[process.id] = process`. -/
def createProcess (process : Process) (s : Service) : Service :=
  { s with processes := s.processes.filter (·.taskId ≠ process.taskId) ++ [process] }

/-- `_remove_process`. -/
def removeProcess (task : TaskId) (s : Service) : Service :=
  { s with processes := s.processes.filter (·.taskId ≠ task) }

/-- Only what is in the database outlives the process. -/
def restart (s : Service) : Service where
  runner := { hub := { dialogId := s.runner.hub.dialogId }, tasks := s.runner.tasks,
              nextMessage := s.runner.nextMessage, storeDown := s.runner.storeDown }
  messages := s.messages
  nextTask := s.nextTask
  budget := s.budget
  awaitingUser := s.awaitingUser
  trail := s.trail

end Service

/-- The outbox at work. -/
def onOutbox {α : Type} (c : Outbox.Work α) : Work α :=
  Co.zoom Service.runner (fun runner s => { s with runner }) c

/-- A read of the database. -/
def select {α : Type} (f : Service → α) : Work α :=
  Co.attempt fun s => if s.runner.storeDown then (.error .unavailable, s) else (.ok (f s), s)

/-! ## Starting -/

/-- The runner has been built. -/
def awaitRunner : Work Unit := Co.blockUntil (fun s => s.recovery.isSome) fun s => ((), s)

/-- `_prepare_process_task`: the row of a new run. -/
def prepareProcessTask (me : Nat) (kind : TaskKind) (title : String)
    (exchangeId : Option ExchangeId) : Work TaskId :=
  Co.attempt fun s =>
    if s.runner.storeDown then (.error .unavailable, s)
    else
      let s' := s.setTask s.nextTask { title, kind, exchangeId, status := .running }
      (.ok s.nextTask, { s' with
        nextTask := s.nextTask + 1, started := s.started ++ [(s.nextTask, me)] })

/-- The start of an answer, of a spawned task or of a cron job. -/
def startRun (me : Nat) (kind : TaskKind) (title : String) (exchangeId : Option ExchangeId) :
    Work Unit := do
  awaitRunner
  let task ← prepareProcessTask me kind title exchangeId
  Co.modify (Service.createProcess { taskId := task, title, exchangeId })

/-! ## The end of a run -/

/-- What the loop of a run ends with.  A cancelled run may leave the message it
was writing; a run that is stopped with its runner does not get to finalize. -/
inductive Outcome where
  | finished (content : String) (sourceClientMessageId : Option String)
  | failed (error : String)
  | cancelled (latest : Option String)
  | stopped

/-- `INTERRUPTED_NOTE`. -/
def interruptedNote : String :=
  "[The previous assistant message was interrupted and may be incomplete.]"

/-- The row after `_finish`. -/
def finishRow (status : TaskStatus) (result error : Option String) (delivered : Bool)
    (row : TaskRow) : TaskRow :=
  { row with
    status
    result := result.or row.result
    error := error.or row.error
    delivered := delivered || row.delivered }

/-- `_finish`, in one commit with the message rows of its unit of work.  Where
the row is missing the unit is rolled back. -/
def finish (task : TaskId) (status : TaskStatus) (result error : Option String) (delivered : Bool)
    (rows : List MessageRow) : Work TaskRow :=
  Co.attempt fun s =>
    if s.runner.storeDown then (.error .unavailable, s)
    else
      match s.tasks task with
      | none => (.error .taskNotFound, s)
      | some row =>
          let row' := finishRow status result error delivered row
          (.ok row', { s.setTask task row' with messages := s.messages ++ rows })

/-- `_delivery_is_certain`. -/
def deliveryIsCertain (process : Process) (accepted : Bool) (content : String) : Bool :=
  blank content || (process.exchangeId.isSome && accepted)

/-- `_salvage_interrupted_turn`: the pair of rows for what a run was writing. -/
def salvagedRows (task : TaskId) : Option String → List MessageRow
  | none => []
  | some content =>
      [{ role := .assistant, content, taskId := some task },
        { role := .system, content := interruptedNote }]

/-- The store writes of `_finalize`. -/
def finalize (process : Process) (accepted : Bool) : Outcome → Work TaskRow
  | .finished content _ =>
      let delivered := deliveryIsCertain process accepted content
      if blank content then finish process.taskId .done (some content) none delivered []
      else
        finish process.taskId .done (some content) none delivered
          [{ role := .assistant, content, taskId := some process.taskId,
             exchangeId := process.exchangeId }]
  | .failed error =>
      finish process.taskId .failed none (some error) (deliveryIsCertain process accepted error) []
  | .cancelled latest =>
      finish process.taskId .cancelled none none false (salvagedRows process.taskId latest)
  | .stopped => Co.throw .unavailable

/-- `_record_run_usage` writes to another table. -/
def recordRunUsage : Work Unit := select fun _ => ()

/-- The finalization of a pump: the row it leaves behind, unless it failed. -/
def finalizeGuarded (process : Process) (accepted : Bool) (outcome : Outcome) :
    Work (Option TaskRow) :=
  Co.tryCatch (do
    let row ← finalize process accepted outcome
    recordRunUsage
    pure (some row)) fun _ => pure none

/-- The terminal a run hands to the actor. -/
def Outcome.terminal? : Outcome → Option Outbox.Terminal
  | .finished content source => some (.finished { role := .assistant, content } source)
  | .failed error => some (.failed error)
  | .cancelled _ => none
  | .stopped => none

/-- The status a pump reports. -/
def Outcome.status (row : Option TaskRow) : Outcome → TaskStatus
  | .finished .. => if row.isSome then .done else .failed
  | .cancelled _ => if row.isSome then .cancelled else .failed
  | _ => .failed

/-- `_terminate_process`. -/
def terminateProcess (process : Process) (accepted : Bool) (outcome : Outcome)
    (row : Option TaskRow) (s : Service) : Service :=
  let s := s.removeProcess process.taskId
  let completed := .processCompleted process.taskId process.title (outcome.status row)
  { s with
    runner := { s.runner with hub := (s.runner.hub.broadcast completed process.exchangeId).2 }
    inbox := s.inbox ++ [{ taskId := process.taskId, task := row, terminal := outcome.terminal?,
                           exchangeId := process.exchangeId, deliveredLive := accepted }] }

/-- The pump of a process starts. -/
def claimPump (me : Nat) (task : TaskId) : Work Process :=
  Co.blockUntil (fun s => (s.idle? task).isSome) fun s =>
    ((s.idle? task).getD { taskId := task },
      { s with processes := s.processes.map fun p =>
          if p.taskId = task ∧ p.pump = none then { p with pump := some me } else p })

/-- `_pump_process`. -/
def pumpProcess (me : Nat) (task : TaskId) (accepted : Bool) (outcome : Outcome) : Work Unit := do
  let process ← claimPump me task
  let row ← finalizeGuarded process accepted outcome
  Co.modify (terminateProcess process accepted outcome row)

/-- The next termination in the inbox, as far as its delivery goes. -/
def handleTerminated (me fuel : Nat) : Work Unit := do
  let command ← Co.blockUntil (fun s => s.inbox.head?.isSome) fun s =>
    (s.inbox.head?, { s with inbox := s.inbox.tail })
  match command with
  | some command => onOutbox (Outbox.deliverTerminated me fuel command)
  | none => pure ()

/-! ## Recovery -/

/-- The replacement process of an orphaned task. -/
def restartProcess (task : TaskId) (row : TaskRow) (s : Service) : Service :=
  { s.createProcess { taskId := task, title := row.title, exchangeId := row.exchangeId } with
    trail := s.trail ++ [.restarted task (s.logged task)] }

/-- `_admit_orphaned`. -/
def admitOrphaned (me fuel : Nat) (task : TaskId) : Work Bool := do
  match ← select (·.budget) with
  | none => pure true
  | some error => do
      onOutbox (Outbox.refuseRestart me fuel task error)
      pure false

/-- `_exchange_awaits_user`, for a task that has an exchange. -/
def exchangeAwaitsUser : Option ExchangeId → Work Bool
  | none => pure false
  | some x => select (·.awaitingUser x)

/-- A write of the exchange of a task. -/
def writeExchange : Option ExchangeId → Work Unit
  | none => pure ()
  | some _ => select fun _ => ()

/-- The restart of an answer.  Its narrative is read before its process exists. -/
def restartAnswer (me fuel : Nat) (task : TaskId) (row : TaskRow) : Work Unit := do
  match ← admitOrphaned me fuel task with
  | true => do
      select fun _ => ()
      Co.modify (restartProcess task row)
      writeExchange row.exchangeId
  | false => writeExchange row.exchangeId

/-- The row of an answer whose exchange waits for the user is closed silently. -/
def closeSilently (task : TaskId) : Work Unit := do
  let _ ← finish task .done (some "") none false []
  pure ()

/-- `_start_orphaned`. -/
def startOrphaned (me fuel : Nat) (task : TaskId) (row : TaskRow) : Work Unit :=
  match row.kind with
  | .run => do
      match ← admitOrphaned me fuel task with
      | true => Co.modify (restartProcess task row)
      | false => pure ()
  | .answer => do
      match ← exchangeAwaitsUser row.exchangeId with
      | true => closeSilently task
      | false => restartAnswer me fuel task row

/-- `restart_task`. -/
def restartTask (maxProcesses me fuel : Nat) (task : TaskId) (row : TaskRow) : Work Unit := do
  match ← Co.read fun s : Service => decide (s.processes.length < maxProcesses) with
  | true => startOrphaned me fuel task row
  | false => onOutbox (Outbox.refuseRestart me fuel task restartLimitError)

/-- The read of the table that recovery works from. -/
def readForRecovery : Work (List (TaskId × TaskRow) × List (TaskId × TaskRow)) :=
  Co.attempt fun s =>
    if s.runner.storeDown then (.error .unavailable, s)
    else
      let clean := s.listForRecovery.1.all fun orphan => !(s.started.map (·.1)).contains orphan.1
      (.ok s.listForRecovery, { s with trail := s.trail ++ [.listed clean] })

/-- `_for_recovery`: nothing is recovered when the read fails. -/
def forRecovery : Work (List (TaskId × TaskRow) × List (TaskId × TaskRow)) :=
  Co.tryCatch readForRecovery fun _ => pure ([], [])

/-- `request_result_delivery`. -/
def requestResultDelivery (task : TaskId) (s : Service) : Service :=
  { s with inbox := s.inbox ++ [{ taskId := task, task := none, terminal := none,
                                  exchangeId := none, deliveredLive := false }] }

/-- The runner is built, and `_recover_dialog` runs. -/
def recoverDialog (maxProcesses me fuel : Nat) : Work Unit := do
  Co.blockUntil (fun s => s.recovery.isNone) fun s => ((), { s with recovery := some me })
  let tasks ← forRecovery
  Co.forEach tasks.1 fun orphan =>
    Co.tryCatch (restartTask maxProcesses me fuel orphan.1 orphan.2) fun _ => pure ()
  Co.forEach tasks.2 fun task => Co.modify (requestResultDelivery task.1)

/-! ## The system -/

inductive LifecycleCall where
  | recover (fuel : Nat)
  | startRun (kind : TaskKind) (title : String) (exchangeId : Option ExchangeId)
  | pump (task : TaskId) (accepted : Bool) (outcome : Outcome)
  | handleTerminated (fuel : Nat)
  | flush (fuel : Nat)
  | deliverNotice (fuel : Nat) (content : String) (exchangeId : Option ExchangeId)

def lifecycleBody (maxProcesses : Nat) : LifecycleCall → Nat → Work Unit
  | .recover fuel, me => recoverDialog maxProcesses me fuel
  | .startRun kind title exchangeId, me => startRun me kind title exchangeId
  | .pump task accepted outcome, me => pumpProcess me task accepted outcome
  | .handleTerminated fuel, me => handleTerminated me fuel
  | .flush fuel, me => onOutbox (Outbox.flushDeliveries me fuel)
  | .deliverNotice fuel content exchangeId, me =>
      onOutbox (Outbox.deliverNotice me fuel content exchangeId)

inductive LifecycleEvent where
  | queue (op : Outbox.Op)
  | store (down : Bool)
  | budget (refusal : Option String)
  | awaiting (x : ExchangeId) (waits : Bool)

def lifecycleEvent : LifecycleEvent → Service → Option Service
  | .queue op, s => some { s with runner := { s.runner with hub := s.runner.hub.step op } }
  | .store down, s => some { s with runner := { s.runner with storeDown := down } }
  | .budget refusal, s => some { s with budget := refusal }
  | .awaiting x waits, s => some { s with awaitingUser := Function.update s.awaitingUser x waits }

/-- One dialog, its runs, and the processes that come and go. -/
def lifecycle (maxProcesses : Nat) : System Service StoreError where
  Call := LifecycleCall
  body := lifecycleBody maxProcesses
  Event := LifecycleEvent
  event := lifecycleEvent
  crash s := some s.restart

/-- An empty database. -/
def Service.fresh (dialogId : String) : Service where
  runner := { hub := { dialogId } }

end Lifecycle
end OctoForge
