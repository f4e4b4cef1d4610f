import Mathlib.Data.List.Basic

/-!
# Inboxes and workers

The poll loop puts a message into the inbox of its user and starts a worker where none
is alive; the worker drains the inbox and forgets the user when nothing comes for a
while.  A worker runs from one `await` to the next, so a step of it is what it does in
between: it may take several messages out of the inbox and put none of them to rest.

What `_handle` does is none of our concern, but how it ends is: it returns, it raises
something that is logged, or it raises `AccessRefusedError`, and then the refusal has to
be said, which may fail.

`arrivals` and `handled` are read by nothing: they say what has been enqueued for a user
and what has been passed to `_handle`.  Times are in milliseconds.
-/

namespace OctoForge
namespace Ingestion

abbrev UserId := String

structure TelegramMessage where
  messageId : Nat
  mediaGroupId : Option String := none
  deriving DecidableEq, Repr

/-- `_Inbox`. -/
structure Inbox where
  pending : List TelegramMessage := []
  arrived : Bool := false
  worker : Option Nat := none
  busy : Bool := false
  deriving DecidableEq, Repr

/-- The `await` a worker is at. -/
inductive Stage where
  /-- The task has not run yet. -/
  | created
  /-- It waits for a message. -/
  | idle (deadline : Nat)
  /-- It waits for the rest of an album. -/
  | collecting (deadline : Nat) (first : TelegramMessage) (batch : List TelegramMessage)
  /-- It is in `_handle`. -/
  | handling
  /-- It is in `_refuse_access`. -/
  | refusing
  | ended
  deriving DecidableEq, Repr

structure Worker where
  userId : UserId
  inbox : Nat
  stage : Stage := .created
  deriving DecidableEq, Repr

/-- `INBOX_IDLE_SECONDS`. -/
def inboxIdle : Nat := 60000

structure Poller where
  albumQuiet : Nat := 1500
  /-- `_inboxes`: an inbox is known by its place in `boxes`. -/
  inboxes : UserId → Option Nat := fun _ => none
  boxes : List Inbox := []
  workers : List Worker := []
  now : Nat := 0
  arrivals : UserId → List TelegramMessage := fun _ => []
  handled : UserId → List (List TelegramMessage) := fun _ => []

/-- The messages of an album have its group. -/
def IsAlbum (batch : List TelegramMessage) : Prop :=
  ∃ group, ∀ message ∈ batch, message.mediaGroupId = some group

/-! ## What a worker does between two awaits -/

/-- Where a worker has come to, and the batches it has passed to `_handle` on its way. -/
structure Segment where
  stage : Stage
  box : Inbox
  batches : List (List TelegramMessage) := []
  deriving DecidableEq, Repr

/-- The rounds of `_collect_album`.  A message of another group goes back to the head of
the queue, which is where it is here. -/
def collectAlbum (deadline : Nat) (first : TelegramMessage) (box : Inbox) :
    List TelegramMessage → List TelegramMessage → Segment
  | batch, [] =>
      { stage := .collecting deadline first batch
        box := { box with pending := [], arrived := false } }
  | batch, message :: rest =>
      if message.mediaGroupId ≠ first.mediaGroupId then
        { stage := .handling, box := { box with pending := message :: rest }, batches := [batch] }
      else collectAlbum deadline first box (batch ++ [message]) rest

namespace Poller

variable (s : Poller)

/-- The body of the loop of `_work`, for a message that has been taken out. -/
def takeUp (message : TelegramMessage) (box : Inbox) : Segment :=
  let box := { box with busy := true }
  if message.mediaGroupId = none then { stage := .handling, box, batches := [[message]] }
  else collectAlbum (s.now + s.albumQuiet) message box [message] box.pending

/-- The head of the loop of `_work`. -/
def work (box : Inbox) : Segment :=
  match box.pending with
  | [] => { stage := .idle (s.now + inboxIdle), box := { box with arrived := false } }
  | message :: rest => s.takeUp message { box with pending := rest }

/-- The wait in `_collect_album` is over. -/
def goOnCollecting (first : TelegramMessage) (batch : List TelegramMessage) (box : Inbox) :
    Segment :=
  match box.pending with
  | [] => { stage := .handling, box, batches := [batch] }
  | message :: rest => collectAlbum (s.now + s.albumQuiet) first box batch (message :: rest)

/-! ## Steps -/

def boxOf (w : Worker) : Inbox := s.boxes.getD w.inbox {}

/-- A worker has come to its next `await`. -/
def settle (k : Nat) (w : Worker) (segment : Segment) : Poller :=
  { s with
    boxes := s.boxes.set w.inbox segment.box
    workers := s.workers.set k { w with stage := segment.stage }
    handled := fun userId =>
      if userId = w.userId then s.handled userId ++ segment.batches else s.handled userId }

/-- Nothing has come for long enough: the user is forgotten. -/
def exit (k : Nat) (w : Worker) : Poller :=
  { s with
    inboxes := fun userId => if userId = w.userId then none else s.inboxes userId
    boxes := s.boxes.set w.inbox { s.boxOf w with worker := none }
    workers := s.workers.set k { w with stage := .ended } }

/-- The wait for a message is over: one has come, or the time is up. -/
def isOver (deadline : Nat) (w : Worker) : Bool := (s.boxOf w).arrived || deadline ≤ s.now

/-- A worker goes on that has been waiting for messages, or has not run yet. -/
def resume (k : Nat) (w : Worker) : Option Poller :=
  match w.stage with
  | .created => some (s.settle k w (s.work (s.boxOf w)))
  | .idle deadline =>
      if s.isOver deadline w then
        match (s.boxOf w).pending with
        | [] => some (s.exit k w)
        | message :: rest =>
            some (s.settle k w (s.takeUp message { s.boxOf w with pending := rest }))
      else none
  | .collecting deadline first batch =>
      if s.isOver deadline w then some (s.settle k w (s.goOnCollecting first batch (s.boxOf w)))
      else none
  | _ => none

/-- The batch has been handled, and the worker looks for the next message. -/
def goOn (k : Nat) (w : Worker) : Poller :=
  s.settle k w (s.work { s.boxOf w with busy := false })

/-- A worker that an error has ended. -/
def die (k : Nat) (w : Worker) : Poller :=
  s.settle k w { stage := .ended, box := { s.boxOf w with busy := false } }

/-- `worker is None or worker.done()`. -/
def isDone (worker : Option Nat) : Bool :=
  worker.all fun k => s.workers[k]?.all fun w => w.stage = .ended

/-- `_enqueue`. -/
def enqueue (userId : UserId) (message : TelegramMessage) : Poller :=
  let b := (s.inboxes userId).getD s.boxes.length
  let boxes := if s.inboxes userId = none then s.boxes ++ [({} : Inbox)] else s.boxes
  let box := boxes.getD b {}
  let box := { box with pending := box.pending ++ [message], arrived := true }
  let starts := s.isDone box.worker
  { s with
    inboxes := fun other => if other = userId then some b else s.inboxes other
    boxes := boxes.set b (if starts then { box with worker := some s.workers.length } else box)
    workers := if starts then s.workers ++ [{ userId, inbox := b }] else s.workers
    arrivals := fun other =>
      if other = userId then s.arrivals other ++ [message] else s.arrivals other }

end Poller

/-! ## Runs -/

inductive Move where
  | enqueue (userId : UserId) (message : TelegramMessage)
  | tick (elapsed : Nat)
  | resume (k : Nat)
  /-- `_handle` returns, or what it raises is logged. -/
  | handled (k : Nat)
  /-- `_handle` raises `AccessRefusedError`. -/
  | refused (k : Nat)
  /-- `_refuse_access` returns. -/
  | said (k : Nat)
  /-- `_refuse_access` raises. -/
  | unsaid (k : Nat)
  deriving DecidableEq, Repr

namespace Poller

/-- A step of a worker that is at the given `await`. -/
def stepAt (s : Poller) (k : Nat) (stage : Stage) (f : Worker → Poller) : Option Poller :=
  match s.workers[k]? with
  | some w => if w.stage = stage then some (f w) else none
  | none => none

def step (s : Poller) : Move → Option Poller
  | .enqueue userId message => some (s.enqueue userId message)
  | .tick elapsed => some { s with now := s.now + elapsed }
  | .resume k =>
      match s.workers[k]? with
      | some w => s.resume k w
      | none => none
  | .handled k => s.stepAt k .handling (s.goOn k)
  | .refused k => s.stepAt k .handling fun w => s.settle k w { stage := .refusing, box := s.boxOf w }
  | .said k => s.stepAt k .refusing (s.goOn k)
  | .unsaid k => s.stepAt k .refusing (s.die k)

def run : List Move → Poller → Option Poller
  | [], s => some s
  | m :: rest, s => (s.step m).bind (run rest)

/-- A refusal that cannot be said finds the inbox empty. -/
def gentle (s : Poller) : Move → Bool
  | .unsaid k => s.workers[k]?.all fun w => (s.boxOf w).pending = []
  | _ => true

/-- Every step of the run is gentle. -/
def gentleRun : List Move → Poller → Bool
  | [], _ => true
  | m :: rest, s =>
      match s.step m with
      | some s' => s.gentle m && gentleRun rest s'
      | none => true

/-! What is asked of a state. -/

/-- A worker of the user has not ended. -/
def Live (s : Poller) (userId : UserId) (k : Nat) : Prop :=
  ∃ w, s.workers[k]? = some w ∧ w.userId = userId ∧ w.stage ≠ .ended

structure OrderedFor (s : Poller) (userId : UserId) : Prop where
  inOrder : (s.handled userId).flatten <+: s.arrivals userId
  nothingLeft : (∀ k, ¬ s.Live userId k) → (s.handled userId).flatten = s.arrivals userId
  albums : ∀ batch ∈ s.handled userId, 1 < batch.length → IsAlbum batch
  oneWorker : ∀ k k', s.Live userId k → s.Live userId k' → k = k'

end Poller
end Ingestion
end OctoForge
