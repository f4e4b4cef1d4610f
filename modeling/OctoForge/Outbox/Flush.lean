import OctoForge.Outbox.Streams
import OctoForge.Coop.Pool

/-!
# The outbox

Results that no transport watched and notices of the broker wait in a deque,
`_pending_deliveries`, until a flush has broadcast them.  A flush takes the
delivery at the head, broadcasts its events, and if the last of them reached a
queue it stamps the task as delivered and takes the delivery out.  While it
waits for the stamp to be written a question may jump the queue, so it takes
out that very delivery and not the head.

Flushes run as coroutines: the code between two awaits is one step, and the
steps of several flushes and of everything else interleave freely.  Taking and
giving back the flush lock are steps of their own.  `fuel` bounds the rounds of
a flush that wait for a stamp; a flush that has used it up is one the scheduler
never resumes, so every finite run of the program is a run of the model for
some fuel.

`trail` records what the outbox does.  Nothing reads it.  An offer is recorded
with the subscriber queues as they were before it, so that a statement about it
can say what each of them did.
-/

namespace OctoForge
namespace Outbox

open Coop
open Dialog (ExchangeId MessageId ChatMessage)
open Conversation (TaskId TaskKind TaskStatus)

/-- A row of the task table.  `delivered` says that `delivered_at` is set. -/
structure TaskRow where
  title : String
  kind : TaskKind := .run
  exchangeId : Option ExchangeId := none
  status : TaskStatus
  result : Option String := none
  error : Option String := none
  sourceClientMessageId : Option String := none
  delivered : Bool := false
  deriving DecidableEq, Repr

/-- `_Delivery`.  Deliveries are compared by identity; `id` says which object
this is. -/
structure Delivery where
  id : Nat
  events : List LoopEvent
  taskId : Option TaskId
  exchangeId : Option ExchangeId := none
  deriving DecidableEq, Repr

inductive Note where
  | queued (delivery : Delivery)
  /-- A flush broadcast the events of the delivery. -/
  | offered (flush : Nat) (delivery : Delivery) (before : Hub)
  | stamped (flush : Nat) (delivery : Delivery) (task : TaskId)
  /-- A flush that had sent `delivery` took `taken` out of the deque. -/
  | left (flush : Nat) (delivery taken : Delivery)
  deriving DecidableEq, Repr

/-- The part of a conversation runner that delivers, and the tables it uses. -/
structure Runner where
  hub : Hub
  pendingDeliveries : List Delivery := []
  flushLock : Option Nat := none
  tasks : TaskId → Option TaskRow := fun _ => none
  nextMessage : MessageId := 0
  storeDown : Bool := false
  nextDelivery : Nat := 0
  trail : List Note := []

inductive StoreError where
  | unavailable
  | taskNotFound
  deriving DecidableEq, Repr

abbrev Work (α : Type) := Co Runner StoreError α

/-- The loop over the events of a delivery: what the last broadcast returned. -/
def Hub.broadcastAll (events : List LoopEvent) (exchangeId : Option ExchangeId) (h : Hub) :
    Nat × Hub :=
  events.foldl (fun sent event => sent.2.broadcast event exchangeId) (0, h)

/-- What the synchronous part of a round of the flush ends with. -/
inductive Sent where
  /-- Nothing is queued or nobody is attached. -/
  | idle
  /-- The last event reached no queue. -/
  | refused
  | sent
  | stamp (delivery : Delivery) (task : TaskId)

namespace Runner

/-- Put a new delivery at the head or at the end of the deque. -/
def enqueue (events : List LoopEvent) (taskId : Option TaskId) (exchangeId : Option ExchangeId)
    (front : Bool) (s : Runner) : Runner :=
  let delivery : Delivery := { id := s.nextDelivery, events, taskId, exchangeId }
  { s with
    pendingDeliveries :=
      if front then delivery :: s.pendingDeliveries else s.pendingDeliveries ++ [delivery]
    nextDelivery := s.nextDelivery + 1
    trail := s.trail ++ [.queued delivery] }

/-- `remove`, by identity; the `ValueError` of a delivery that is not there is
suppressed. -/
def discard (me : Nat) (delivery : Delivery) (s : Runner) : Runner :=
  match s.pendingDeliveries.find? (·.id = delivery.id) with
  | some taken =>
      { s with
        pendingDeliveries := s.pendingDeliveries.eraseP (·.id = delivery.id)
        trail := s.trail ++ [.left me delivery taken] }
  | none => s

/-- The delivery leaves the deque: `popleft` if it is the head, else `remove`. -/
def remove (me : Nat) (delivery : Delivery) (s : Runner) : Runner :=
  match s.pendingDeliveries with
  | head :: rest =>
      if head.id = delivery.id then
        { s with pendingDeliveries := rest, trail := s.trail ++ [.left me delivery head] }
      else s.discard me delivery
  | [] => s.discard me delivery

/-- One round of the loop of `_flush_deliveries` up to the stamp. -/
def sendHead (me : Nat) (s : Runner) : Sent × Runner :=
  match s.pendingDeliveries with
  | [] => (.idle, s)
  | delivery :: _ =>
      if s.hub.subscribers.isEmpty then (.idle, s)
      else
        let accepted := s.hub.broadcastAll delivery.events delivery.exchangeId
        let s' := { s with
          hub := accepted.2
          trail := s.trail ++ [.offered me delivery s.hub] }
        if accepted.1 = 0 then (.refused, s')
        else
          match delivery.taskId with
          | some task => (.stamp delivery task, s')
          | none => (.sent, s'.remove me delivery)

/-- The rounds up to the first stamp.  A round that goes on has taken one
delivery out and nothing is queued meanwhile, so there are at most as many as
deliveries. -/
def drainFor (me : Nat) : Nat → Runner → Option (Delivery × TaskId) × Runner
  | 0, s => (none, s)
  | rounds + 1, s =>
      match s.sendHead me with
      | (.idle, s') => (none, s')
      | (.refused, s') => (none, s')
      | (.sent, s') => s'.drainFor me rounds
      | (.stamp delivery task, s') => (some (delivery, task), s')

def drain (me : Nat) (s : Runner) : Option (Delivery × TaskId) × Runner :=
  s.drainFor me s.pendingDeliveries.length

/-- What a flush does when it is resumed: the delivery that has been stamped
leaves, and the loop goes on. -/
def resumeFlush (me : Nat) (stamped : Option Delivery) (s : Runner) :
    Option (Delivery × TaskId) × Runner :=
  match stamped with
  | some delivery => (s.remove me delivery).drain me
  | none => s.drain me

end Runner

/-- `mark_delivered`: one UPDATE, which raises when it meets no row. -/
def markDelivered (task : TaskId) (notes : List Note) : Work Unit :=
  Co.attempt fun s =>
    if s.storeDown then (.error .unavailable, s)
    else
      match s.tasks task with
      | none => (.error .taskNotFound, s)
      | some row =>
          (.ok (), { s with
            tasks := Function.update s.tasks task (some { row with delivered := true })
            trail := s.trail ++ notes })

/-- `with suppress(TaskNotFoundError)`. -/
def suppressNotFound (c : Work Unit) : Work Unit :=
  Co.tryCatch c fun
    | .taskNotFound => pure ()
    | .unavailable => Co.throw .unavailable

def flushLoop (me : Nat) : Nat → Option Delivery → Work Unit
  | 0, _ => Co.blockUntil (fun _ => false) fun s => ((), s)
  | fuel + 1, stamped => do
      match ← Co.atomic (Runner.resumeFlush me stamped) with
      | none => pure ()
      | some (delivery, task) => do
          suppressNotFound (markDelivered task [.stamped me delivery task])
          flushLoop me fuel (some delivery)

def acquireFlushLock (me : Nat) : Work Unit :=
  Co.blockUntil (fun s => s.flushLock.isNone) fun s => ((), { s with flushLock := some me })

/-- Only the holder releases the lock. -/
def releaseFlushLock (me : Nat) (s : Runner) : Runner :=
  if s.flushLock = some me then { s with flushLock := none } else s

/-- `_flush_deliveries`. -/
def flushDeliveries (me fuel : Nat) : Work Unit := do
  acquireFlushLock me
  Co.ensure (releaseFlushLock me) (flushLoop me fuel none)

/-! ## What queues deliveries -/

/-- `_persist` of a notice: the id of its row. -/
def persistNotice : Work MessageId :=
  Co.attempt fun s =>
    if s.storeDown then (.error .unavailable, s)
    else (.ok s.nextMessage, { s with nextMessage := s.nextMessage + 1 })

/-- `_deliver_notice`: a question of an exchange jumps the queue. -/
def deliverNotice (me fuel : Nat) (content : String) (exchangeId : Option ExchangeId) :
    Work Unit := do
  let id ← persistNotice
  let notice : ChatMessage := { role := .assistant, content, id := some id, exchangeId }
  Co.modify (Runner.enqueue [.textDelta content, .finished notice none none] none exchangeId
    exchangeId.isSome)
  flushDeliveries me fuel

/-- `mark_failed`. -/
def markFailed (task : TaskId) (error : String) : Work Unit :=
  Co.attempt fun s =>
    if s.storeDown then (.error .unavailable, s)
    else
      match s.tasks task with
      | none => (.error .taskNotFound, s)
      | some row =>
          (.ok (), { s with
            tasks := Function.update s.tasks task
              (some { row with status := .failed, error := some error }) })

/-- What `restart_task` and `_admit_orphaned` do with a task that may not be
restarted. -/
def refuseRestart (me fuel : Nat) (task : TaskId) (error : String) : Work Unit := do
  markFailed task error
  Co.modify (Runner.enqueue [.failed error] (some task) none false)
  flushDeliveries me fuel

/-- `DEFAULT_TASK_ERROR`. -/
def defaultTaskError : String := "unknown error"

/-- `task.error or DEFAULT_TASK_ERROR`. -/
def TaskRow.failure (row : TaskRow) : String :=
  match row.error with
  | some error => if error = "" then defaultTaskError else error
  | none => defaultTaskError

/-- `_delivery_started`. -/
def deliveryStarted (task : TaskId) (row : TaskRow) : LoopEvent :=
  .processStarted task row.title row.sourceClientMessageId

/-- `_enqueue_redelivery`: the stored outcome of a finished task. -/
def enqueueRedelivery (task : TaskId) (row : TaskRow) (s : Runner) : Runner :=
  if row.delivered then s
  else
    match row.status with
    | .done =>
        let content := row.result.getD ""
        s.enqueue [deliveryStarted task row, .textDelta content,
            .finished { role := .assistant, content } (some task) row.sourceClientMessageId]
          (some task) row.exchangeId false
    | .failed =>
        s.enqueue [deliveryStarted task row, .failed row.failure]
          (some task) row.exchangeId false
    | _ => s

/-- The `Finished` or `Failed` of a run. -/
inductive Terminal where
  | finished (message : ChatMessage) (sourceClientMessageId : Option String)
  | failed (error : String)
  deriving DecidableEq, Repr

/-- `_enqueue_terminal`. -/
def enqueueTerminal (task : TaskId) (row : TaskRow) (terminal : Terminal) (s : Runner) : Runner :=
  match terminal with
  | .finished message source =>
      s.enqueue [deliveryStarted task row, .textDelta message.content,
          .finished message (some task) source]
        (some task) row.exchangeId false
  | .failed error =>
      s.enqueue [deliveryStarted task row, .failed error] (some task) row.exchangeId false

/-- `_mark_streamed_delivered`. -/
def markStreamedDelivered (task : TaskId) (row : TaskRow) : Work Unit :=
  if row.delivered then pure ()
  else if row.status = .done ∨ row.status = .failed then suppressNotFound (markDelivered task [])
  else pure ()

/-- `str.isspace` of a character. -/
def isSpace (c : Char) : Bool :=
  let n := c.toNat
  (0x09 ≤ n && n ≤ 0x0d) || (0x1c ≤ n && n ≤ 0x20) || n == 0x85 || n == 0xa0 || n == 0x1680 ||
    (0x2000 ≤ n && n ≤ 0x200a) || n == 0x2028 || n == 0x2029 || n == 0x202f || n == 0x205f ||
    n == 0x3000

/-- Nothing is left of the text when it is stripped. -/
def blank (text : String) : Bool := text.toList.all isSpace

/-- `_silent_done`. -/
def silentDone (row : TaskRow) : Bool := row.status = .done && blank (row.result.getD "")

/-- `_ProcessTerminated`, as far as the delivery of the outcome reads it.
`task` is the row as the finishing write left it. -/
structure Terminated where
  taskId : TaskId
  task : Option TaskRow
  terminal : Option Terminal
  exchangeId : Option ExchangeId
  deliveredLive : Bool

/-- The row of a terminated task: the command's, or the stored one. -/
def terminatedRow (command : Terminated) : Work (Option TaskRow) :=
  match command.task with
  | some row => pure (some row)
  | none => Co.attempt fun s =>
      if s.storeDown then (.error .unavailable, s) else (.ok (s.tasks command.taskId), s)

/-- The branches of `_handle_terminated`: an outcome that was watched, or that
is empty on purpose, is stamped; every other one is queued. -/
def recordOutcome (command : Terminated) (row : TaskRow) : Work Unit :=
  if silentDone row then markStreamedDelivered command.taskId row
  else
    match command.terminal with
    | none => Co.modify (enqueueRedelivery command.taskId row)
    | some terminal =>
        if command.exchangeId.isSome && command.deliveredLive then
          markStreamedDelivered command.taskId row
        else Co.modify (enqueueTerminal command.taskId row terminal)

/-- `_handle_terminated` between the settling of the exchange and the sweep. -/
def deliverTerminated (me fuel : Nat) (command : Terminated) : Work Unit := do
  match ← terminatedRow command with
  | none => pure ()
  | some row => do
      recordOutcome command row
      flushDeliveries me fuel

inductive OutboxCall where
  | flush (fuel : Nat)
  | deliverNotice (fuel : Nat) (content : String) (exchangeId : Option ExchangeId)
  | refuseRestart (fuel : Nat) (task : TaskId) (error : String)
  | terminated (fuel : Nat) (command : Terminated)

def outboxBody : OutboxCall → Nat → Work Unit
  | .flush fuel, me => flushDeliveries me fuel
  | .deliverNotice fuel content exchangeId, me => deliverNotice me fuel content exchangeId
  | .refuseRestart fuel task error, me => refuseRestart me fuel task error
  | .terminated fuel command, me => deliverTerminated me fuel command

/-- What happens beside the outbox: the queues are used, rows of the task table
are written and deleted, and the store goes down and comes back. -/
inductive OutboxEvent where
  | queue (op : Op)
  | writeTask (task : TaskId) (row : Option TaskRow)
  | store (down : Bool)

def outboxEvent : OutboxEvent → Runner → Option Runner
  | .queue op, s => some { s with hub := s.hub.step op }
  | .writeTask task row, s => some { s with tasks := Function.update s.tasks task row }
  | .store down, s => some { s with storeDown := down }

/-- The outbox of one runner. -/
def outbox : System Runner StoreError where
  Call := OutboxCall
  body := outboxBody
  Event := OutboxEvent
  event := outboxEvent
  crash _ := none

end Outbox
end OctoForge
