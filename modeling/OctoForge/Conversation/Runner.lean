import OctoForge.Conversation.Store

/-!
# The coroutines of the conversation runner

`_handle_submit` and everything else that reads or writes the status of an
exchange: the stop button, `ask_user`, the settling of a finished run, the
promotion and the re-parenting of collected material, the sweep, and the
recovery of a dialog whose runner died.

* The actor takes one command at a time, here in any order.
* The answer of the router's language model is an argument of the command that
  asks for it.
* Assembling the branch of a new run is one read; `Dialog` has the whole of it.
* A run of the loop is not modelled: how it ended and what it had not seen are
  arguments of its pump.
* Of the queued outcome of a task only the text is kept.  The redelivery of
  stored results is left out: it changes no exchange.
-/

namespace OctoForge
namespace Conversation

open Coop
open Dialog (ExchangeId MessageId ChatMessage MessageRole MessageKind)

inductive StoreError where
  | unavailable
  | exchangeNotFound
  deriving DecidableEq, Repr

abbrev Work (α : Type) := Co World StoreError α

/-- A transaction; it raises when the database does not answer. -/
def transaction {α : Type} (f : World → α × World) : Work α :=
  Co.attempt fun s =>
    if s.storeDown then (.error .unavailable, s) else (.ok (f s).1, (f s).2)

def select {α : Type} (f : World → α) : Work α := transaction fun s => (f s, s)

def execute (f : World → World) : Work Unit := transaction fun s => ((), f s)

/-- A transaction that raises when the exchange has no row. -/
def transactionOn {α : Type} (x : ExchangeId) (f : World → α × World) : Work α :=
  Co.attempt fun s =>
    if s.storeDown then (.error .unavailable, s)
    else if (s.status x).isNone then (.error .exchangeNotFound, s)
    else (.ok (f s).1, (f s).2)

/-- `with suppress(ExchangeNotFoundError)`. -/
def suppressNotFound {α : Type} (value : α) (c : Work α) : Work α :=
  Co.tryCatch c fun
    | .exchangeNotFound => pure value
    | .unavailable => Co.throw .unavailable

/-- `set_status`. -/
def setStatus (x : ExchangeId) (status : ExchangeStatus) (look : Option Look)
    (pendingQuestion : Option String) : Work Unit :=
  transactionOn x fun s => ((), s.writeStatus x status look pendingQuestion)

/-- An exchange as a read returned it, with the look that read took. -/
structure Seen where
  exchange : Exchange
  look : Look

/-- `get`. -/
def getExchange (x : ExchangeId) : Work Seen := do
  match ← select fun s => (s.exchange x).map fun exchange => { exchange, look := s.look x } with
  | some seen => pure seen
  | none => Co.throw .exchangeNotFound

def acquireSpawnLock (me : Nat) : Work Unit :=
  Co.blockUntil (fun s => s.spawnLock.isNone) fun s => ((), { s with spawnLock := some me })

/-- Only the holder releases the lock. -/
def releaseSpawnLock (me : Nat) (s : World) : World :=
  if s.spawnLock = some me then { s with spawnLock := none } else s

/-- `async with self._spawn_lock`; `me` is the coroutine that takes it. -/
def withSpawnLock {α : Type} (me : Nat) (body : Work α) : Work α := do
  acquireSpawnLock me
  Co.ensure (releaseSpawnLock me) body

def acquireActor (me : Nat) : Work Unit :=
  Co.blockUntil (fun s => s.actor.isNone && !s.preempted) fun s => ((), { s with actor := some me })

/-- Only the command that is being handled ends its turn. -/
def releaseActor (me : Nat) (s : World) : World :=
  if s.actor = some me then { s with actor := none } else s

/-- One turn of `_run_actor`: a failed command does not stop the actor, and a
preempted actor takes no more commands. -/
def onActor (me : Nat) (command : Work Unit) : Work Unit := do
  acquireActor me
  Co.ensure (releaseActor me) (Co.tryCatch command fun _ => pure ())

/-! ## Notices -/

def processLimitNotice (message : String) (limit : Nat) (titles : String) : String :=
  "I could not start handling '" ++ message ++ "': the process limit (" ++ toString limit ++
    ") is reached. Active processes: " ++ titles ++
    ". Cancel one of them or wait for it to finish."

def tariffLimitNotice (verdict : LimitVerdict) : String :=
  "I cannot answer right now: the daily limit of your plan is exhausted (" ++ verdict.reason ++
    ": " ++ toString verdict.used ++ "/" ++ toString verdict.limit ++
    "). Your message is saved; the counter resets at midnight UTC."

def tariffRestartError (verdict : LimitVerdict) : String :=
  "could not resume after the service restart: the daily limit of the plan is exhausted (" ++
    verdict.reason ++ ": " ++ toString verdict.used ++ "/" ++ toString verdict.limit ++ ")"

def restartLimitError : String :=
  "could not resume after the service restart: process limit reached"

def nudgeNotice (title question : String) : String :=
  "Кстати, я всё ещё жду ответа по «" ++ title ++ "» — я спрашивал: «" ++ question ++
    "». Ответь, когда будет удобно, или скажи, что это уже неактуально."

def cronLimitNotice (title : String) (limit : Nat) (titles : String) : String :=
  "Cron job '" ++ title ++ "' could not start: the process limit (" ++ toString limit ++
    ") is reached. Active processes: " ++ titles ++ "."

def tariffCronLimitNotice (title : String) (verdict : LimitVerdict) : String :=
  "Scheduled run '" ++ title ++ "' was skipped: the daily limit of your plan is exhausted (" ++
    verdict.reason ++ ": " ++ toString verdict.used ++ "/" ++ toString verdict.limit ++
    "). It will fire again after midnight UTC."

def answerNoteKey : String := "answer"

/-- `_flush_deliveries`. -/
def flushDeliveries : Work Unit :=
  Co.attempt fun s =>
    (if s.subscribed && !s.undelivered.isEmpty then .error .unavailable else .ok (),
      { s with pendingDeliveries := s.undelivered })

/-- `_deliver_notice`. -/
def deliverNotice (content : String) (own : Option ExchangeId) : Work Unit := do
  let notice : ChatMessage := { role := .assistant, content, exchangeId := own }
  let id ← transaction (World.persist notice none)
  Co.modify (World.queueNotice { notice with id := some id })
  flushDeliveries

/-- `_reject_for_limit`. -/
def rejectForLimit (cfg : RunnerConfig) (message : ChatMessage) : Work Unit := do
  let titles ← Co.read (·.activeTitles)
  deliverNotice (processLimitNotice message.content cfg.maxProcesses titles) none

/-! ## Starting an answer run -/

/-- What became of a message that was handed to a run: whether a notice was
queued for it, and the states in which two decisions were taken.  `looked` is
the state in which `_ensure_owner` looked for a live run.  `refused` is the
state in which a refused run was left without a notice, because there had been
one that day. -/
structure Assignment where
  notified : Bool := false
  looked : Option World := none
  refused : Option World := none

/-- `_tariff_notice_once`. -/
def tariffNoticeOnce (key notice : String) : Work Assignment := do
  let silent ← Co.atomic fun s =>
    if s.tariffNotes key = some s.today then (some s, s)
    else (none, { s with tariffNotes := Function.update s.tariffNotes key (some s.today) })
  match silent with
  | some s => pure { refused := some s }
  | none => do
      deliverNotice notice none
      pure { notified := true }

/-- `_still_owns_dialog`; it fails open. -/
def stillOwnsDialog : Work Bool :=
  Co.tryCatch
    (select fun s => s.generation.isNone || s.generation == some s.claimGeneration)
    fun _ => pure true

/-- The unit of work of `_start_answer`: the task and the status land together. -/
def beginAnswer (seen : Seen) : Work Task :=
  transactionOn seen.exchange.id fun s =>
    let added := s.addTask .answer (some seen.exchange.id) seen.exchange.title
    (added.1, added.2.writeStatus seen.exchange.id .inProgress (some seen.look) none)

/-- The end of `_start_answer`: a run whose submit predates the last stop starts
already cancelled. -/
def startProcess (seen : Seen) (task : Task) (cancelEpoch : Option Nat) (s : World) : World :=
  let cancelled := cancelEpoch.any fun epoch => decide (epoch < s.cancelEpoch)
  (s.createProcess task cancelled).note
    (.started seen.exchange.id seen.look.stops s.cancelEpoch cancelled)

/-- `_start_answer`. -/
def startAnswer (seen : Seen) (cancelEpoch : Option Nat) (notifyLimit : Bool) :
    Work Assignment := do
  if !(← stillOwnsDialog) then do
    Co.modify fun s => { s with preempted := true }
    pure {}
  else do
    match ← select (·.budget) with
    | some verdict =>
        if notifyLimit then tariffNoticeOnce answerNoteKey (tariffLimitNotice verdict) else pure {}
    | none => do
        let task ← beginAnswer seen
        select fun _ => ()
        Co.modify (startProcess seen task cancelEpoch)
        pure {}

/-- The exchange this very turn created needs no read. -/
def knownOrGet (x : ExchangeId) : Option Seen → Work Seen
  | some seen => pure seen
  | none => getExchange x

/-- Whether the limit leaves room for one more run.  The runs of the exchanges
that this very message cancelled do not count. -/
def letIn (cfg : RunnerConfig) (cancelled : List ExchangeId) (s : World) : Bool × World :=
  if s.exceedsLimit cfg cancelled then (false, s)
  else (true, s.note (.discounted (s.discountSound cancelled)))

/-- `_ensure_owner`.  `known` is the exchange this very turn created. -/
def ensureOwner (cfg : RunnerConfig) (me : Nat) (x : ExchangeId) (message : ChatMessage)
    (cancelled : List ExchangeId) (cancelEpoch : Nat) (known : Option Seen) : Work Assignment :=
  suppressNotFound {} <| withSpawnLock me do
    let looked ← Co.read id
    if (looked.liveProcessFor x).isSome then pure { looked := some looked }
    else do
      let seen ← knownOrGet x known
      if ← Co.atomic (letIn cfg cancelled) then do
        let assignment ← startAnswer seen (some cancelEpoch) true
        pure { assignment with looked := some looked }
      else do
        rejectForLimit cfg message
        pure { notified := true, looked := some looked }

/-- `_resume_open_exchange`. -/
def resumeOpenExchange (cfg : RunnerConfig) (me : Nat) (x : ExchangeId) (notifyLimit : Bool) :
    Work Unit := do
  match ← Co.read fun s => s.latestMessageOf x with
  | none => pure ()
  | some message =>
      suppressNotFound () <| withSpawnLock me do
        let seen ← getExchange x
        let busy ← Co.read fun s => (s.liveProcessFor x).isSome
        if seen.exchange.status ≠ .opened ∨ busy then pure ()
        else do
          if ← Co.read fun s => s.exceedsLimit cfg [] then
            if notifyLimit then rejectForLimit cfg message else pure ()
          else do
            let _ ← startAnswer seen none notifyLimit
            pure ()

/-- `_sweep_unowned_open`. -/
def sweepUnownedOpen (cfg : RunnerConfig) (me : Nat) : Work Unit := do
  let stranded ← Co.tryCatch (select (·.listUnownedOpen)) fun _ => pure []
  Co.forEach stranded fun exchange => resumeOpenExchange cfg me exchange.id false

/-! ## A message of the user -/

/-- `_Submit`.  `images` says that one of the attachments is an image. -/
structure Submit where
  content : String
  kind : MessageKind := .own
  clientMessageId : Option String := none
  replyToExchangeId : Option ExchangeId := none
  cancelEpoch : Nat := 0
  origin : Option String := none
  images : Bool := false

def Submit.message (command : Submit) : ChatMessage :=
  { role := .user, content := command.content, kind := command.kind }

/-- `_cancel_exchanges`: what was cancelled. -/
def cancelExchanges : List ExchangeId → Work (List ExchangeId)
  | [] => pure []
  | x :: rest => do
      Co.modify fun s =>
        match s.liveProcessFor x with
        | some answering => s.cancelProcess answering.task
        | none => s
      let done ← suppressNotFound [] do
        setStatus x .cancelled none none
        pure [x]
      let others ← cancelExchanges rest
      pure (done ++ others)

/-- `_retitle`; never fatal. -/
def retitle (x : ExchangeId) (title : Option String) : Work Unit :=
  match title with
  | none => pure ()
  | some title => Co.tryCatch (execute (World.setTitle x title)) fun _ => pure ()

/-- Whether `_nudge_stale_exchanges` reminds of the exchange. -/
def isStale (cfg : RunnerConfig) (now : Nat) (current : Option ExchangeId)
    (cancelled : List ExchangeId) (exchange : Exchange) : Bool :=
  decide (some exchange.id ≠ current) && !cancelled.contains exchange.id &&
    decide (exchange.status = .awaitingUser) &&
    decide (cfg.nudgeAfterSeconds ≤ now - exchange.updatedAt)

/-- `_nudge_stale_exchanges`; `live` is the read the routing used. -/
def nudgeStaleExchanges (cfg : RunnerConfig) (current : Option ExchangeId) (live : List Exchange)
    (cancelled : List ExchangeId) : Work Unit := do
  let now ← Co.read (·.now)
  Co.forEach (live.filter (isStale cfg now current cancelled)) fun exchange =>
    match exchange.pendingQuestion with
    | none => pure ()
    | some question => deliverNotice (nudgeNotice exchange.title question) none

/-- `_sole_fresh_collection`. -/
def soleFreshCollection (cfg : RunnerConfig) (now : Nat) : List Exchange → Option Exchange
  | [collection] =>
      if collection.status = .collecting ∧ now - collection.updatedAt < cfg.materialQuietSeconds then
        some collection
      else none
  | _ => none

/-- `_route`. -/
def route (cfg : RunnerConfig) (command : Submit) (live : List Exchange)
    (reply : Option RouteArguments) : Work RouteDecision := do
  let now ← Co.read (·.now)
  let ids := live.map (·.id)
  match command.replyToExchangeId.filter (fun x => x ∈ ids), live,
      soleFreshCollection cfg now live with
  | some x, _, _ => pure { action := .continue, exchangeId := some x }
  | none, [], _ => pure {}
  | none, _, some collection => pure { action := .continue, exchangeId := some collection.id }
  | none, _, none => do
      -- the language model takes its time
      Co.read fun _ => ()
      pure (llmRoute reply ids)

/-- What a submit came to.  A message that could not be stored is reported to
the transport. -/
inductive Handled where
  | duplicate
  | notStored
  | collected (x : ExchangeId)
  | routed (decision : RouteDecision) (exchangeId : Option ExchangeId) (assignment : Assignment)

/-- An exchange is created for the message. -/
def openFor (message : ChatMessage) (cancelEpoch : Nat) (s : World) : Seen × World :=
  let noted := (s.note (.attached s.nextExchange cancelEpoch)).note
    (.created s.nextExchange cancelEpoch s.cancelEpoch)
  let created := noted.create message.content .opened
  ({ exchange := created.1, look := created.2.look created.1.id }, created.2)

/-- The exchange the message goes to, and whether it was created for it; `none`
when the process limit refuses the message. -/
def chooseExchange (cfg : RunnerConfig) (message : ChatMessage) (decision : RouteDecision)
    (cancelled : List ExchangeId) (cancelEpoch : Nat) :
    Work (Option (Option (ExchangeId × Option Seen))) := do
  match decision.action, decision.exchangeId with
  | .continue, some x => do
      retitle x decision.title
      pure (some (some (x, none)))
  | .command, _ => pure (some none)
  | _, _ => do
      if ← Co.read fun s => s.exceedsLimit cfg cancelled then pure none
      else do
        let seen ← transaction (openFor message cancelEpoch)
        pure (some (some (seen.exchange.id, some seen)))

/-- The stored message is given its exchange. -/
def attachMessage (message : ChatMessage) : Work Unit :=
  match message.id, message.exchangeId with
  | some id, some x => execute (World.setExchange id x)
  | _, _ => pure ()

/-- Somebody owes an answer wherever the message went to an exchange. -/
def assignOwner (cfg : RunnerConfig) (me : Nat) (target : Option (ExchangeId × Option Seen))
    (message : ChatMessage) (cancelled : List ExchangeId) (cancelEpoch : Nat) :
    Work Assignment :=
  match target with
  | some (x, known) => ensureOwner cfg me x message cancelled cancelEpoch known
  | none => pure {}

/-- `_apply_route`. -/
def applyRoute (cfg : RunnerConfig) (me : Nat) (message : ChatMessage) (decision : RouteDecision)
    (cancelEpoch : Nat) (live : List Exchange) : Work Handled := do
  let cancelled ← cancelExchanges decision.cancelIds
  let chosen ← chooseExchange cfg message decision cancelled cancelEpoch
  let own := (chosen.bind id).map (·.1)
  let message := { message with exchangeId := own }
  Co.modify (World.appendNarrative message cancelEpoch)
  attachMessage message
  match chosen with
  | none => do
      rejectForLimit cfg message
      pure (.routed decision none { notified := true })
  | some target => do
      let assignment ← assignOwner cfg me target message cancelled cancelEpoch
      nudgeStaleExchanges cfg own live cancelled
      pure (.routed decision own assignment)

/-- `MATERIAL_TITLE_TEMPLATE` and `_untitled`. -/
def materialTitle (command : Submit) : String :=
  match command.origin with
  | some origin => "Переслано от " ++ origin
  | none => if command.images then "Присланные изображения" else "Пересланные сообщения"

/-- `_collecting_exchange`. -/
def collectingExchange (command : Submit) : Work ExchangeId := do
  match ← select (·.findCollecting) with
  | some exchange => pure exchange.id
  | none => do
      let exchange ← transaction (World.create (materialTitle command) .collecting)
      pure exchange.id

/-- The item that was updated last; of equals the first. -/
def lastUpdated : List Exchange → Option Exchange
  | [] => none
  | e :: rest =>
      match lastUpdated rest with
      | none => some e
      | some other => if e.updatedAt < other.updatedAt then some other else some e

/-- `_material_home`. -/
def materialHome (command : Submit) : Work ExchangeId := do
  let live ← select (·.listLive)
  let answering ← Co.read fun s => live.filter fun e => (s.liveProcessFor e.id).isSome
  match lastUpdated answering with
  | some exchange => pure exchange.id
  | none => collectingExchange command

/-- `_collect_material`. -/
def collectMaterial (message : ChatMessage) (command : Submit) : Work ExchangeId := do
  let x ← materialHome command
  let message := { message with exchangeId := some x }
  Co.modify (World.appendNarrative message command.cancelEpoch)
  attachMessage message
  execute (World.touch x)
  pure x

/-- `_is_duplicate`. -/
def isDuplicate : Option String → Work Bool
  | none => pure false
  | some key => select fun s => decide (key ∈ s.clientIds)

/-- Whether the submit is new, and then the id of its row. -/
def intake (command : Submit) : Work (Option MessageId) := do
  if ← isDuplicate command.clientMessageId then pure none
  else some <$> transaction (World.persist command.message command.clientMessageId)

/-- `_handle_submit`. -/
def handleSubmit (cfg : RunnerConfig) (me : Nat) (reply : Option RouteArguments)
    (command : Submit) : Work Handled := do
  let taken : Except Handled MessageId ← Co.tryCatch
    (do
      match ← intake command with
      | some id => pure (.ok id)
      | none => pure (.error .duplicate))
    fun _ => pure (.error .notStored)
  match taken with
  | .error handled => pure handled
  | .ok id => do
      let message := { command.message with id := some id }
      -- `_record_user_message`
      select fun _ => ()
      match message.kind with
      | .material => do
          let x ← collectMaterial message command
          pure (.collected x)
      | .own => do
          let live ← select (·.listLive)
          let decision ← route cfg command live reply
          -- `_record_routing`
          select fun _ => ()
          applyRoute cfg me message decision command.cancelEpoch live

/-! ## The stop button, questions and finished runs -/

/-- `_cancel_parked_exchanges`. -/
def cancelParkedExchanges : Work Unit := do
  let live ← select (·.listLive)
  Co.forEach live fun exchange => do
    let parked ← Co.read fun s =>
      decide (exchange.status = .awaitingUser) && (s.liveProcessFor exchange.id).isNone
    if parked ∨ exchange.status = .collecting then setStatus exchange.id .cancelled none none
    else pure ()

/-- `cancel`. -/
def cancel : Work Unit := do
  Co.modify World.handleCancel
  cancelParkedExchanges

/-- The start of `ask_user`: the exchange of the run. -/
def beginAsk (task : TaskId) (s : World) : Option (ExchangeId × Look) × World :=
  match (s.process? task).bind (·.exchangeId) with
  | none => (none, s)
  | some x =>
      (some (x, s.look x),
        { s with
          processes := s.processes.map fun p =>
            if p.task = task then { p with asked := true } else p })

/-- `ask_user`. -/
def askUser (task : TaskId) (question : String) : Work Bool := do
  match ← Co.atomic (beginAsk task) with
  | none => pure false
  | some (x, look) => do
      deliverNotice question (some x)
      suppressNotFound () (setStatus x .awaitingUser (some look) (some question))
      pure true

/-- `_settle_to`. -/
def settleTo (x : ExchangeId) (task : TaskId) (status : ExchangeStatus) (keepIfAwaiting : Bool) :
    Work Bool :=
  transaction (World.settleOwned x task status keepIfAwaiting)

/-- `_settle_exchange`. -/
def settleExchange (cfg : RunnerConfig) (me : Nat) (command : Terminated) : Work Unit :=
  match command.exchangeId with
  | none => pure ()
  | some x =>
      let isCancelled := decide (command.exchangeStatus = .cancelled)
      match isCancelled, command.unseen with
      | false, .spoken => do
          if ← settleTo x command.taskId .opened false then resumeOpenExchange cfg me x true
          else pure ()
      | false, .materialOnly => do
          if ← settleTo x command.taskId .collecting false then execute (World.touch x)
          else pure ()
      | _, _ => do
          let _ ← settleTo x command.taskId command.exchangeStatus !isCancelled
          pure ()

/-- `_enqueue_terminal`, unless the outcome was streamed or is empty. -/
def enqueueTerminal (command : Terminated) (s : World) : World :=
  match command.terminal with
  | none => s
  | some text =>
      if text = "" ∨ (command.exchangeId.isSome ∧ command.deliveredLive) then s
      else
        { s with
          pendingDeliveries := s.pendingDeliveries ++
            [{ text, task := some command.taskId, exchangeId := command.exchangeId }] }

/-- `_handle_terminated`. -/
def handleTerminated (cfg : RunnerConfig) (me : Nat) (command : Terminated) : Work Unit := do
  settleExchange cfg me command
  Co.modify (enqueueTerminal command)
  flushDeliveries
  sweepUnownedOpen cfg me

/-- The actor takes the next termination from the inbox. -/
def nextTerminated (cfg : RunnerConfig) (me : Nat) : Work Unit := do
  match ← Co.atomic fun s => (s.inbox.head?, { s with inbox := s.inbox.tail }) with
  | none => pure ()
  | some command => handleTerminated cfg me command

/-- How the loop of a run ended. -/
inductive Terminal where
  | finished (content : String)
  | failed (error : String)
  | cancelled

def Terminal.taskStatus : Terminal → TaskStatus
  | .finished _ => .done
  | .failed _ => .failed
  | .cancelled => .cancelled

def Terminal.text? : Terminal → Option String
  | .finished content => some content
  | .failed error => some error
  | .cancelled => none

/-- The end of `_pump_process`: `_finalize` and `_terminate_process`.  A run whose
task could not be written ends as failed. -/
def pumpProcess (task : TaskId) (terminal : Terminal) (unseen : Unseen) (deliveredLive : Bool) :
    Work Unit := do
  if ← Co.read fun s => (s.process? task).isSome then do
    let status ← Co.tryCatch
      (do
        execute (World.finishTask task terminal.taskStatus)
        pure terminal.taskStatus)
      fun _ => pure .failed
    Co.modify (World.terminateProcess task status unseen terminal.text? deliveredLive)
  else pure ()

/-- `delete_task`: the run of the task is told to stop. -/
def deleteTask (task : TaskId) : Work Unit := Co.modify (World.cancelProcess task)

/-- The start of a background run, if the limit leaves room for it. -/
def startBackground (cfg : RunnerConfig) (me : Nat) (title : String) : Work Bool :=
  withSpawnLock me do
    if ← Co.read fun s => decide (cfg.maxProcesses ≤ s.processes.length) then pure false
    else do
      let task ← transaction (World.addTask .run none title)
      Co.modify fun s => s.createProcess task false
      pure true

/-- `spawn_task`: whether a background run was started. -/
def spawnTask (cfg : RunnerConfig) (me : Nat) (title : String) : Work Bool := do
  match ← select (·.budget) with
  | some _ => pure false
  | none => startBackground cfg me title

/-- `wake`: whether the scheduled run was started. -/
def wake (cfg : RunnerConfig) (me : Nat) (title cronJobId : String) : Work Bool := do
  match ← select (·.budget) with
  | some verdict => do
      let _ ← tariffNoticeOnce cronJobId (tariffCronLimitNotice title verdict)
      pure false
  | none => do
      let started ← startBackground cfg me title
      if started then pure true
      else do
        let titles ← Co.read (·.activeTitles)
        deliverNotice (cronLimitNotice title cfg.maxProcesses titles) none
        pure false

/-! ## Collected material -/

/-- `_material_target`. -/
def materialTarget (collection : Exchange) (reply : Option RouteArguments) :
    Work (Option Seen) := do
  let items ← select fun s => s.listLive.map fun e => ({ exchange := e, look := s.look e.id } : Seen)
  let live := items.filter fun e =>
    e.exchange.id ≠ collection.id ∧ e.exchange.status ≠ .collecting
  if live.isEmpty then pure none
  else do
    let decision := llmRoute reply (live.map (·.exchange.id))
    select fun _ => ()
    match decision.action, decision.exchangeId with
    | .continue, some x => pure (live.find? fun e => e.exchange.id = x)
    | _, _ => pure none

/-- `_reparent_material`. -/
def reparentMaterial (cfg : RunnerConfig) (me : Nat) (collection : Exchange) (target : Seen) :
    Work Unit := do
  let x := target.exchange.id
  let rows ← Co.atomic (World.relabel collection.id x)
  Co.forEach rows fun id => execute (World.setExchange id x)
  setStatus collection.id .cancelled none none
  execute (World.touch x)
  if ← Co.read fun s => (s.liveProcessFor x).isSome then pure ()
  else do
    setStatus x .opened (some target.look) none
    resumeOpenExchange cfg me x false

/-- `_handle_promote`. -/
def handlePromote (cfg : RunnerConfig) (me : Nat) (x : ExchangeId)
    (reply : Option RouteArguments) : Work Unit := do
  match ← select fun s => (s.exchange x).map fun exchange => ({ exchange, look := s.look x } : Seen) with
  | none => pure ()
  | some { exchange := collection, look } => do
      let now ← Co.read (·.now)
      if collection.status ≠ .collecting ∨
          now - collection.updatedAt < cfg.materialQuietSeconds then pure ()
      else do
        match ← materialTarget collection reply with
        | some target => reparentMaterial cfg me collection target
        | none => do
            setStatus collection.id .opened (some look) none
            resumeOpenExchange cfg me collection.id false

/-! ## Recovery -/

/-- A task that could not be restarted is failed and reported. -/
def failTask (task : TaskId) (error : String) : Work Unit := do
  execute (World.finishTask task .failed)
  Co.modify fun s =>
    { s with pendingDeliveries := s.pendingDeliveries ++ [{ text := error, task := some task }] }
  flushDeliveries

/-- `_admit_orphaned`. -/
def admitOrphaned (task : Task) : Work Bool := do
  match ← select (·.budget) with
  | none => pure true
  | some verdict => do
      failTask task.id (tariffRestartError verdict)
      pure false

/-- The end of `_start_orphaned`. -/
def restartProcess (task : Task) (x : ExchangeId) (s : World) : World :=
  (s.createProcess task false).note (.restarted x s.cancelEpoch (s.liveProcessFor x).isNone)

/-- `_start_orphaned` of an answer task with its exchange.  `look` is what
`_exchange_awaits_user` saw. -/
def startOrphanedAnswer (task : Task) (x : ExchangeId) : Work Unit := do
  let look ← select fun s => s.look x
  if look.saw = some .awaitingUser then execute (World.finishTask task.id .done)
  else do
    if !(← admitOrphaned task) then
      suppressNotFound () (setStatus x .opened (some look) none)
    else do
      select fun _ => ()
      Co.modify (restartProcess task x)
      suppressNotFound () (setStatus x .inProgress (some look) none)

/-- `_start_orphaned`. -/
def startOrphaned (task : Task) : Work Unit :=
  match task.kind, task.exchangeId with
  | .answer, some x => startOrphanedAnswer task x
  | .answer, none => do
      if ← admitOrphaned task then do
        select fun _ => ()
        Co.modify fun s => s.createProcess task false
      else pure ()
  | .run, _ => do
      if ← admitOrphaned task then Co.modify fun s => s.createProcess task false else pure ()

/-- `restart_task`. -/
def restartTask (cfg : RunnerConfig) (me : Nat) (task : Task) : Work Unit := do
  let started ← withSpawnLock me do
    if ← Co.read fun s => decide (s.processes.length < cfg.maxProcesses) then do
      startOrphaned task
      pure true
    else pure false
  if started then pure () else failTask task.id restartLimitError

/-- `_reopen_and_list_stranded`. -/
def reopenAndListStranded : Work (List Exchange) :=
  Co.tryCatch (transaction fun s => (s.reopen.listUnownedOpen, s.reopen)) fun _ => pure []

/-- `_recover_dialog`. -/
def recoverDialog (cfg : RunnerConfig) (me : Nat) : Work Unit := do
  let stranded ← reopenAndListStranded
  let orphaned ← Co.tryCatch (select (·.listOrphaned)) fun _ => pure []
  Co.forEach orphaned fun task => Co.tryCatch (restartTask cfg me task) fun _ => pure ()
  if stranded.isEmpty then pure ()
  else Co.tryCatch (sweepUnownedOpen cfg me) fun _ => pure ()

/-! ## The runner as a system -/

/-- `submit`: the message is queued with the stop counter of the moment, and
handled later. -/
def submit (cfg : RunnerConfig) (me : Nat) (command : Submit) (reply : Option RouteArguments) :
    Work Unit := do
  let cancelEpoch ← Co.atomic fun s => (s.cancelEpoch, { s with submitted := s.submitted + 1 })
  onActor me do
    let _ ← handleSubmit cfg me reply { command with cancelEpoch }
    pure ()

inductive ConversationCall where
  | submit (command : Submit) (reply : Option RouteArguments)
  | cancel
  | askUser (task : TaskId) (question : String)
  | pump (task : TaskId) (terminal : Terminal) (unseen : Unseen) (deliveredLive : Bool)
  | terminated
  | spawnTask (title : String)
  | wake (title cronJobId : String)
  | deleteTask (task : TaskId)
  | promote (x : ExchangeId) (reply : Option RouteArguments)
  | recover

def conversationBody (cfg : RunnerConfig) : ConversationCall → Nat → Work Unit
  | .submit command reply, me => submit cfg me command reply
  | .cancel, _ => cancel
  | .askUser task question, _ => do
      let _ ← askUser task question
      pure ()
  | .pump task terminal unseen deliveredLive, _ => pumpProcess task terminal unseen deliveredLive
  | .terminated, me => onActor me (nextTerminated cfg me)
  | .spawnTask title, me => do
      let _ ← spawnTask cfg me title
      pure ()
  | .wake title cronJobId, me => do
      let _ ← wake cfg me title cronJobId
      pure ()
  | .deleteTask task, _ => deleteTask task
  | .promote x reply, me => onActor me (handlePromote cfg me x reply)
  | .recover, me => recoverDialog cfg me

/-- What happens without the runner. -/
inductive ConversationEvent where
  | tick (seconds : Nat)
  | budget (verdict : Option LimitVerdict)
  | store (down : Bool)
  | claimed (generation : Nat)
  | subscribe (attached : Bool)
  /-- Compaction takes the oldest messages out of the narrative. -/
  | trim (count : Nat)

def conversationEvent : ConversationEvent → World → Option World
  | .tick seconds, s => some { s with now := s.now + seconds }
  | .budget verdict, s => some { s with budget := verdict }
  | .store down, s => some { s with storeDown := down }
  | .claimed generation, s => some { s with generation := some generation }
  | .subscribe attached, s => some { s with subscribed := attached }
  | .trim count, s => some { s with narrative := s.narrative.drop count }

/-- One dialog and the runner that has it. -/
def conversation (cfg : RunnerConfig) : System World StoreError where
  Call := ConversationCall
  body := conversationBody cfg
  Event := ConversationEvent
  event := conversationEvent
  crash s := some s.restart

end Conversation
end OctoForge
