import Mathlib.Logic.Function.Basic
import OctoForge.Coop.Pool
import OctoForge.Conversation.Router

/-!
# The exchanges of a dialog and the runner that answers them

An exchange is one obligation to the user.  Its status lives in the database;
the runs that answer it live in the memory of the dialog's runner, and so do
the stop counter, the tariff notes of the day and the queue of terminations.
`World` holds both sides, for one dialog and the runner that has it.

* The tables are functions of the row id.  Ids count up, so creation order is
  the order of the ids.
* What the database does in one transaction is one function of this module.
* A run's branch and its watermark belong to `Dialog`; here a run is its task,
  its exchange, its cancel flag and whether it has asked.
* The budget is the verdict that would refuse a run now, if any.

`log`, `gathered`, `notes` and `submitted` are a record for the statements; no
branch reads them.  Every write of a status is appended to `log`.  A write that
has no guard in its WHERE clause carries the look its author last took at the
exchange: what the author saw, how long the log was at that moment and how many
stops there had been.  `notes` is what the runner did since it was built.
-/

namespace OctoForge
namespace Conversation

open Coop
open Dialog (ExchangeId MessageId ChatMessage MessageRole MessageKind)

abbrev TaskId := Nat

inductive ExchangeStatus where
  | collecting
  | opened
  | inProgress
  | awaitingUser
  | answered
  | cancelled
  | failed
  deriving DecidableEq, Repr

/-- `LIVE_EXCHANGE_STATUSES`. -/
def ExchangeStatus.isLive : ExchangeStatus → Bool
  | .collecting | .opened | .inProgress | .awaitingUser => true
  | .answered | .cancelled | .failed => false

structure ExchangeRow where
  status : ExchangeStatus
  title : String
  updatedAt : Nat
  pendingQuestion : Option String := none
  deriving DecidableEq, Repr

structure Exchange extends ExchangeRow where
  id : ExchangeId
  deriving DecidableEq, Repr

inductive TaskKind where
  | answer
  | run
  deriving DecidableEq, Repr

inductive TaskStatus where
  | pending
  | running
  | done
  | failed
  | cancelled
  deriving DecidableEq, Repr

def TaskStatus.isActive : TaskStatus → Bool
  | .pending | .running => true
  | .done | .failed | .cancelled => false

structure Task where
  id : TaskId
  kind : TaskKind
  exchangeId : Option ExchangeId
  title : String
  status : TaskStatus
  deriving DecidableEq, Repr

/-- `_Process`, as far as the exchanges depend on it. -/
structure Process where
  task : TaskId
  title : String
  exchangeId : Option ExchangeId
  /-- `control.cancel()` was called. -/
  cancelled : Bool := false
  asked : Bool := false
  deriving DecidableEq, Repr

/-- A refusing verdict of the plan's run budget. -/
structure LimitVerdict where
  reason : String := ""
  used : Nat := 0
  limit : Nat := 0
  deriving DecidableEq, Repr

structure Delivery where
  text : String
  task : Option TaskId := none
  exchangeId : Option ExchangeId := none
  deriving DecidableEq, Repr

inductive Unseen where
  | nothing
  | materialOnly
  | spoken
  deriving DecidableEq, Repr

/-- `_ProcessTerminated`.  `terminal` is the text of a final or of an error; a
cancelled run has none.  `byCancel` says that the run's cancel flag was set. -/
structure Terminated where
  taskId : TaskId
  exchangeId : Option ExchangeId
  exchangeStatus : ExchangeStatus
  unseen : Unseen
  terminal : Option String
  deliveredLive : Bool
  byCancel : Bool
  deriving DecidableEq, Repr

/-- What the author of a write last saw of the exchange, and how long the log
and how many stops there had been then. -/
structure Look where
  index : Nat
  saw : Option ExchangeStatus
  stops : Nat
  deriving DecidableEq, Repr

structure StatusWrite where
  exchange : ExchangeId
  status : ExchangeStatus
  look : Option Look := none
  deriving DecidableEq, Repr

/-- What the runner did.  Stops are numbered from 0, so a message or a step that
carries `stops` comes after the stops below that number. -/
inductive Note where
  /-- Stop was pressed while these exchanges were OPEN. -/
  | stopped (stop : Nat) (opened : List ExchangeId)
  /-- A message submitted after `stops` stops went to the exchange. -/
  | attached (x : ExchangeId) (stops : Nat)
  /-- The exchange was created after `stops` stops, for a message submitted after
  `epoch` stops. -/
  | created (x : ExchangeId) (epoch stops : Nat)
  /-- OPEN was written to the exchange. -/
  | opened (x : ExchangeId) (stops : Nat)
  /-- A run of the exchange was created by `_start_answer`, which had read the
  exchange after `since` stops. -/
  | started (x : ExchangeId) (since stops : Nat) (cancelled : Bool)
  /-- A run of the exchange was created by `restart_task`.  `alone` says that it
  had no run. -/
  | restarted (x : ExchangeId) (stops : Nat) (alone : Bool)
  /-- A run was let in by the limit.  `sound` says that every exchange whose run
  was not counted had a run that was told to stop. -/
  | discounted (sound : Bool)
  deriving DecidableEq, Repr

/-- What moves with a collection. -/
def Note.moved? (collection target : ExchangeId) : Note → Option Note
  | .attached x stops => if x = collection then some (.attached target stops) else none
  | _ => none

structure RunnerConfig where
  maxProcesses : Nat := 3
  materialQuietSeconds : Nat := 30
  nudgeAfterSeconds : Nat := 300

structure World where
  row : ExchangeId → Option ExchangeRow := fun _ => none
  nextExchange : ExchangeId := 0
  task : TaskId → Option Task := fun _ => none
  nextTask : TaskId := 0
  messages : List ChatMessage := []
  clientIds : List String := []
  /-- The generation of the dialog's claim, as stored. -/
  generation : Option Nat := none
  budget : Option LimitVerdict := none
  /-- Seconds. -/
  now : Nat := 0
  /-- The database does not answer. -/
  storeDown : Bool := false
  /-- The generation this runner claimed. -/
  claimGeneration : Nat := 0
  narrative : List ChatMessage := []
  processes : List Process := []
  cancelEpoch : Nat := 0
  /-- `_tariff_notes`: the day a notice was last sent. -/
  tariffNotes : String → Option Nat := fun _ => none
  pendingDeliveries : List Delivery := []
  subscribed : Bool := false
  /-- The terminations the actor has not taken yet. -/
  inbox : List Terminated := []
  preempted : Bool := false
  /-- Whose command the actor is handling. -/
  actor : Option Nat := none
  /-- Who holds `_spawn_lock`. -/
  spawnLock : Option Nat := none
  log : List StatusWrite := []
  /-- For every run that left its exchange COLLECTING: whether it was the only
  collection then. -/
  gathered : List Bool := []
  notes : List Note := []
  submitted : Nat := 0

namespace World

/-! ## Reads -/

def status (s : World) (x : ExchangeId) : Option ExchangeStatus := (s.row x).map (·.status)

def exchange (s : World) (x : ExchangeId) : Option Exchange :=
  (s.row x).map fun row => { row with id := x }

/-- The look a read of the exchange takes now. -/
def look (s : World) (x : ExchangeId) : Look :=
  { index := s.log.length, saw := s.status x, stops := s.cancelEpoch }

def allExchanges (s : World) : List Exchange := (List.range s.nextExchange).filterMap s.exchange

def allTasks (s : World) : List Task := (List.range s.nextTask).filterMap s.task

/-- `list_live`, oldest first. -/
def listLive (s : World) : List Exchange := s.allExchanges.filter (·.status.isLive)

/-- `find_collecting`. -/
def findCollecting (s : World) : Option Exchange :=
  s.allExchanges.find? fun e => e.status = .collecting

/-- `_has_live_task`. -/
def hasLiveTask (s : World) (x : ExchangeId) : Bool :=
  s.allTasks.any fun task => task.exchangeId = some x && task.status.isActive

/-- `list_unowned_open`. -/
def listUnownedOpen (s : World) : List Exchange :=
  s.allExchanges.filter fun e => e.status = .opened && !s.hasLiveTask e.id

/-- `_newest_task_of`. -/
def newestTaskOf (s : World) (x : ExchangeId) : Option TaskId :=
  (s.allTasks.reverse.find? fun task => task.exchangeId = some x).map (·.id)

/-- The tasks of `list_for_recovery` that no run works on. -/
def listOrphaned (s : World) : List Task := s.allTasks.filter (·.status.isActive)

def process? (s : World) (task : TaskId) : Option Process :=
  s.processes.find? fun p => p.task = task

/-- `_live_process_for`. -/
def liveProcessFor (s : World) (x : ExchangeId) : Option Process :=
  s.processes.find? fun p => p.exchangeId = some x

/-- How many of the just-cancelled exchanges have a run that still takes a slot:
`len(self._cancelled_tasks(cancelled))`. -/
def cancelledTasks (s : World) (cancelled : List ExchangeId) : Nat :=
  (cancelled.dedup.filter fun x => (s.liveProcessFor x).isSome).length

/-- Every exchange that `cancelledTasks` counts has a run that was told to stop. -/
def discountSound (s : World) (cancelled : List ExchangeId) : Bool :=
  cancelled.all fun x => (s.liveProcessFor x).isNone ||
    s.processes.any fun p => p.exchangeId = some x && p.cancelled

/-- `_exceeds_limit`. -/
def exceedsLimit (cfg : RunnerConfig) (s : World) (cancelled : List ExchangeId) : Bool :=
  decide (cfg.maxProcesses + s.cancelledTasks cancelled < s.processes.length + 1)

/-- The exchanges that are stored OPEN. -/
def openedExchanges (s : World) : List ExchangeId :=
  (List.range s.nextExchange).filter fun x => s.status x = some .opened

/-- No exchange but this one is a collection. -/
def soleCollection (s : World) (x : ExchangeId) : Bool :=
  (List.range s.nextExchange).all fun y => y = x || s.status y ≠ some .collecting

def activeTitles (s : World) : String := ", ".intercalate (s.processes.map (·.title))

/-- `utc_now().strftime("%Y-%m-%d")`. -/
def today (s : World) : Nat := s.now / 86400

def note (n : Note) (s : World) : World := { s with notes := s.notes ++ [n] }

/-- What is noted of a status that is written now. -/
def noteOf (s : World) (x : ExchangeId) : ExchangeStatus → List Note
  | .opened => [.opened x s.cancelEpoch]
  | _ => []

/-! ## Writes to the store -/

/-- `append`; the id of the row is its position. -/
def persist (message : ChatMessage) (clientId : Option String) (s : World) : MessageId × World :=
  (s.messages.length,
    { s with
      messages := s.messages ++ [{ message with id := some s.messages.length }]
      clientIds := s.clientIds ++ clientId.toList })

/-- `set_exchange`. -/
def setExchange (id : MessageId) (x : ExchangeId) (s : World) : World :=
  { s with
    messages := s.messages.map fun m =>
      if m.id = some id then { m with exchangeId := some x } else m }

/-- `create`. -/
def create (title : String) (status : ExchangeStatus) (s : World) : Exchange × World :=
  let row : ExchangeRow := { status, title := clampTitle title, updatedAt := s.now }
  ({ row with id := s.nextExchange },
    { s with
      row := Function.update s.row s.nextExchange (some row)
      nextExchange := s.nextExchange + 1
      log := s.log ++ [{ exchange := s.nextExchange, status }] })

/-- Rewrite the row of an exchange, which also stamps it. -/
def updateExchange (x : ExchangeId) (f : ExchangeRow → ExchangeRow) (s : World) : World :=
  { s with
    row := Function.update s.row x ((s.row x).map fun e => { f e with updatedAt := s.now }) }

/-- `touch`. -/
def touch (x : ExchangeId) : World → World := updateExchange x id

/-- `set_title`. -/
def setTitle (x : ExchangeId) (title : String) : World → World :=
  updateExchange x fun e => { e with title := clampTitle title }

/-- Write the status of an exchange, beside what else changes in its row. -/
def writeRow (x : ExchangeId) (status : ExchangeStatus) (look : Option Look)
    (f : ExchangeRow → ExchangeRow) (s : World) : World :=
  { updateExchange x (fun e => { f e with status }) s with
    log := s.log ++ [{ exchange := x, status, look }]
    notes := s.notes ++ s.noteOf x status }

/-- The write of `set_status`. -/
def writeStatus (x : ExchangeId) (status : ExchangeStatus) (look : Option Look)
    (pendingQuestion : Option String) : World → World :=
  writeRow x status look fun e => { e with pendingQuestion }

/-- The guard of `settle_owned`. -/
def ownsLive (x : ExchangeId) (task : TaskId) (keepIfAwaiting : Bool) (s : World) : Bool :=
  decide (s.newestTaskOf x = some task) &&
    (s.status x).any fun status =>
      status.isLive && !(keepIfAwaiting && decide (status = .awaitingUser))

/-- A run that missed only material leaves its exchange as a collection. -/
def gather (x : ExchangeId) (status : ExchangeStatus) (s : World) : World :=
  if status = .collecting then { s with gathered := s.gathered ++ [s.soleCollection x] } else s

/-- `settle_owned`: whether the guard let the write through. -/
def settleOwned (x : ExchangeId) (task : TaskId) (status : ExchangeStatus) (keepIfAwaiting : Bool)
    (s : World) : Bool × World :=
  if s.ownsLive x task keepIfAwaiting then
    (true, (s.gather x status).writeStatus x status none none)
  else (false, s)

/-- The first statement of `reopen_and_list_stranded`. -/
def reopen (s : World) : World :=
  (List.range s.nextExchange).foldl
    (fun s x => if s.status x = some .inProgress then s.writeRow x .opened none id else s) s

/-- `_prepare_process_task`. -/
def addTask (kind : TaskKind) (own : Option ExchangeId) (title : String) (s : World) :
    Task × World :=
  let task : Task := { id := s.nextTask, kind, exchangeId := own, title, status := .running }
  (task,
    { s with task := Function.update s.task s.nextTask (some task), nextTask := s.nextTask + 1 })

/-- `mark_done`, `mark_failed` and `mark_cancelled`. -/
def finishTask (task : TaskId) (status : TaskStatus) (s : World) : World :=
  { s with
    task := Function.update s.task task ((s.task task).map fun row => { row with status }) }

/-! ## The memory of the runner -/

/-- `_create_process`.  Where a task is restarted while it still has a run, the
source's dictionary forgets the older run, which goes on; here both are listed. -/
def createProcess (task : Task) (cancelled : Bool) (s : World) : World :=
  { s with
    processes := s.processes ++
      [{ task := task.id, title := task.title, exchangeId := task.exchangeId, cancelled }] }

/-- `_cancel_process`. -/
def cancelProcess (task : TaskId) (s : World) : World :=
  { s with
    processes := s.processes.map fun p => if p.task = task then { p with cancelled := true } else p }

/-- `_handle_cancel`: every answer run is told to stop. -/
def handleCancel (s : World) : World :=
  { s with
    cancelEpoch := s.cancelEpoch + 1
    processes := s.processes.map fun p =>
      if p.exchangeId.isSome then { p with cancelled := true } else p
    notes := s.notes ++ [.stopped s.cancelEpoch s.openedExchanges] }

/-- `_exchange_outcome`. -/
def exchangeOutcome : TaskStatus → ExchangeStatus
  | .done => .answered
  | .cancelled => .cancelled
  | _ => .failed

/-- `_terminate_process`. -/
def terminateProcess (task : TaskId) (status : TaskStatus) (unseen : Unseen)
    (terminal : Option String) (deliveredLive : Bool) (s : World) : World :=
  match s.process? task with
  | none => s
  | some p =>
      { s with
        processes := s.processes.eraseP fun q => q.task = task
        inbox := s.inbox ++
          [{ taskId := task, exchangeId := p.exchangeId, exchangeStatus := exchangeOutcome status
             unseen, terminal, deliveredLive, byCancel := p.cancelled }] }

/-- `self._narrative.append` of a message that was submitted after `stops` stops. -/
def appendNarrative (message : ChatMessage) (stops : Nat) (s : World) : World :=
  { s with
    narrative := s.narrative ++ [message]
    notes := s.notes ++ message.exchangeId.toList.map fun x => .attached x stops }

/-- A question of an exchange jumps the queue. -/
def queueNotice (notice : ChatMessage) (s : World) : World :=
  let delivery : Delivery := { text := notice.content, exchangeId := notice.exchangeId }
  { s with
    narrative := s.narrative ++ [notice]
    pendingDeliveries :=
      if notice.exchangeId.isSome then delivery :: s.pendingDeliveries
      else s.pendingDeliveries ++ [delivery] }

/-- `_flush_deliveries`: what is left in the queue.  A delivery of a task is
stamped in the store before it is removed. -/
def undelivered (s : World) : List Delivery :=
  if !s.subscribed then s.pendingDeliveries
  else if s.storeDown then s.pendingDeliveries.dropWhile (·.task.isNone)
  else []

/-- The latest message of the user in the exchange. -/
def latestMessageOf (s : World) (x : ExchangeId) : Option ChatMessage :=
  s.narrative.reverse.find? fun m => decide (m.Carries x)

/-- The loop of `_reparent_material` over the narrative, and the rows to move. -/
def relabel (collection target : ExchangeId) (s : World) : List MessageId × World :=
  ((s.narrative.filter fun m => m.exchangeId = some collection).filterMap (·.id),
    { s with
      narrative := s.narrative.map fun m =>
        if m.exchangeId = some collection then { m with exchangeId := some target } else m
      notes := s.notes ++ s.notes.filterMap (Note.moved? collection target) })

/-- A crash takes the memory of the runner with it.  The next owner claims the
dialog and loads the narrative again. -/
def restart (s : World) : World where
  row := s.row
  nextExchange := s.nextExchange
  task := s.task
  nextTask := s.nextTask
  messages := s.messages
  clientIds := s.clientIds
  generation := some (s.generation.getD 0 + 1)
  budget := s.budget
  now := s.now
  storeDown := s.storeDown
  claimGeneration := s.generation.getD 0 + 1
  narrative := s.messages
  log := s.log
  gathered := s.gathered
  submitted := s.submitted

/-- The task has been created, and so has its exchange.  A background task has
none. -/
structure HasTask (s : World) (task : Task) : Prop where
  id : task.id < s.nextTask
  exchange : ∀ x, task.exchangeId = some x → x < s.nextExchange
  background : task.kind = .run → task.exchangeId = none

/-- The foreign keys of the tables, and of what the runner took from them. -/
structure WellFormed (s : World) : Prop where
  exchanges : ∀ x, s.nextExchange ≤ x → s.status x = none
  tasks : ∀ id task, s.task id = some task → s.HasTask task
  processes : ∀ p ∈ s.processes, p.task < s.nextTask ∧
    ∀ x, p.exchangeId = some x → x < s.nextExchange

end World

end Conversation
end OctoForge
