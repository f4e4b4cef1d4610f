import OctoForge.Conversation.Store
import OctoForge.Coop.Trace
import Mathlib.Logic.Function.Basic

/-!
# The agent loop

`AgentLoop.stream` alternates LLM calls and tool runs and yields events as it
goes.  Tool runs are tasks of their own: they are started while the LLM is still
streaming, they end in any order, and their results wait in a queue until the
loop drains it.

The loop is a coroutine over one state.  It is suspended at its awaits and at
its yields; between two of its steps the surroundings act (`Happening`): the
cancel flag is set, the LLM stream has its next event, a tool ends, the task that
consumes the events is cancelled, the generator is closed.  Statements between
two awaits are steps of their own as well, which only adds interleavings.

What the LLM streams is an input: `llm i` is the stream of iteration `i`, with
its events and how it ends.  The narrative part of the history belongs to the
runner; `own` is what the loop itself has appended.

Three fields are read by nothing.  `prompts` is what of `own` each LLM call was
given, `waitCancels` the iterations whose tool results were being waited for when
the cancel flag was set, and `slips` the moments at which a tool was left
running.
-/

namespace OctoForge
namespace Agent

open Coop
open Dialog (ExchangeId MessageRole)
open Conversation (TaskId)

structure ToolCall where
  id : String
  name : String
  arguments : List (String × String) := []
  deriving DecidableEq, Repr

structure ChatMessage where
  role : MessageRole
  content : String
  toolCalls : List ToolCall := []
  toolCallId : Option String := none
  taskId : Option TaskId := none
  exchangeId : Option ExchangeId := none
  deriving DecidableEq, Repr

def ChatMessage.assistant (content : String) (toolCalls : List ToolCall) : ChatMessage where
  role := .assistant
  content := content
  toolCalls := toolCalls

structure Usage where
  promptTokens : Nat
  completionTokens : Nat
  deriving DecidableEq, Repr

/-- What an LLM stream produces. -/
inductive StreamEvent where
  | textDelta (text : String)
  | reasoningDelta
  | toolCallStarted (index : Nat) (callId name : String)
  | toolCallReady (call : ToolCall)
  | toolCallBroken (index : Nat) (callId name error raw : String)
  /-- The complete assistant message. -/
  | streamFinished (content : String) (toolCalls : List ToolCall) (usage : Option Usage)
  | retryScheduled (attempt : Nat) (delaySeconds : Rat) (reason : String)
  deriving DecidableEq, Repr

/-- What the loop yields. -/
inductive LoopEvent where
  | iterationStarted (index : Nat)
  | textDelta (text : String)
  | reasoningDelta
  | assistantMessage (message : ChatMessage) (interrupted : Bool) (usage : Option Usage)
  | toolCallRequested (call : ToolCall)
  | toolCallCompleted (call : ToolCall) (output : String)
  | toolCallFailed (call : ToolCall) (error : String)
  | finished (message : ChatMessage) (usage : Option Usage)
  | cancelled
  | failed (error : String)
  | retryScheduled (attempt : Nat) (delaySeconds : Rat) (reason : String)
  deriving DecidableEq, Repr

/-- `Finished`, `Cancelled` or `Failed`. -/
def LoopEvent.terminal : LoopEvent → Bool
  | .finished .. | .cancelled | .failed _ => true
  | _ => false

/-- What leaves the generator without being yielded. -/
inductive LoopError where
  /-- The consuming task was cancelled from outside. -/
  | cancelledError
  /-- The generator was closed at a yield. -/
  | generatorExit
  | contextOverflow
  | raised (text : String)
  | assertionError
  deriving DecidableEq, Repr

inductive StreamEnd where
  | ends
  | overflows
  | raises (text : String)
  /-- Nothing comes any more. -/
  | stalls
  deriving DecidableEq, Repr

structure LlmStream where
  events : List StreamEvent
  ending : StreamEnd := .ends
  deriving DecidableEq, Repr

def maxIterationsMessage : String := "Agent loop reached the iteration limit"

def emptyStreamMessage : String := "LLM stream ended without a final message"

def streamIdleTimeoutMessage : String := "LLM stream idle timeout"

def errorOutputPrefix : String := "error: "

def cancelledOutput : String := "cancelled"

/-- `TOOL_TIMEOUT_MESSAGE`, for a name that needs no escapes. -/
def toolTimeoutMessage (name : String) (seconds : Nat) : String :=
  "tool '" ++ name ++ "' exceeded its " ++ toString seconds ++ "s time limit"

/-- `format_error`. -/
def formatError (className message : String) : String :=
  if message = "" then className else className ++ ": " ++ message

/-! ## Tool runs -/

/-- `_ToolRunResult`. -/
structure ToolRunResult where
  call : ToolCall
  content : String
  error : Option String
  deriving DecidableEq, Repr

namespace ToolRunResult

def completed (call : ToolCall) (output : String) : ToolRunResult where
  call := call
  content := output
  error := none

def failed (call : ToolCall) (error : String) : ToolRunResult where
  call := call
  content := errorOutputPrefix ++ error
  error := some error

/-- The event a drained result becomes. -/
def event (r : ToolRunResult) : LoopEvent :=
  match r.error with
  | some error => .toolCallFailed r.call error
  | none => .toolCallCompleted r.call r.content

end ToolRunResult

/-- How a tool itself ends. -/
inductive ToolOutcome where
  | output (text : String)
  | raised (className message : String)
  /-- It raised the cancellation of a task on its own account. -/
  | cancelled
  deriving DecidableEq, Repr

/-- Where the task of a run stands. -/
inductive RunStatus where
  /-- It waits for the tool, under the time limit. -/
  | waiting
  /-- The limit is over: the tool has been cancelled and is waited for. -/
  | expired
  | landed (result : ToolRunResult)
  | cancelled
  deriving DecidableEq, Repr

def RunStatus.isEnded : RunStatus → Bool
  | .landed _ | .cancelled => true
  | .waiting | .expired => false

/-- A call the tracker of an iteration has accepted, and its run.  A broken call
has landed before it could run.  `alive`: the tool itself has not ended;
`defiant`: it will not end when it is cancelled. -/
structure ToolRun where
  iteration : Nat
  call : ToolCall
  status : RunStatus := .waiting
  alive : Bool := true
  defiant : Bool := false
  deriving DecidableEq, Repr

namespace ToolRun

/-- The text its call is answered with, once the run has ended. -/
def outcome? (run : ToolRun) : Option String :=
  match run.status with
  | .landed result => some result.content
  | .cancelled => some cancelledOutput
  | .waiting | .expired => none

/-- `task.cancel()`.  A run whose limit is over goes on waiting for its tool. -/
def cancel (run : ToolRun) : ToolRun :=
  match run.status with
  | .waiting => { run with status := .cancelled, alive := run.alive && run.defiant }
  | _ => run

end ToolRun

/-- `_ToolRunTracker`, one for each iteration.  `tasks` has the number of the run
that each call id stands for. -/
structure Tracker where
  tasks : List (String × Nat) := []
  results : String → Option ToolRunResult := fun _ => none
  queue : List ToolRunResult := []
  order : List ToolCall := []
  seen : Bool := false

/-- `self._tasks[id] = task`. -/
def setTask (id : String) (number : Nat) (tasks : List (String × Nat)) : List (String × Nat) :=
  if tasks.any (·.1 = id) then tasks.map fun task => if task.1 = id then (id, number) else task
  else tasks ++ [(id, number)]

/-- `self._results[result.call.id] = result`. -/
def storeResult (results : String → Option ToolRunResult) (result : ToolRunResult) :
    String → Option ToolRunResult :=
  Function.update results result.call.id (some result)

namespace Tracker

/-- `drain`: the queued results become events and can be looked up. -/
def drain (t : Tracker) : Tracker :=
  { t with queue := [], results := t.queue.foldl storeResult t.results }

/-- `_result_content`. -/
def resultContent (t : Tracker) (call : ToolCall) : String :=
  match t.results call.id with
  | none => cancelledOutput
  | some result => result.content

/-- `tool_messages`. -/
def toolMessages (t : Tracker) (calls : List ToolCall) : List ChatMessage :=
  calls.map fun call =>
    { role := .tool, content := t.resultContent call, toolCallId := some call.id }

end Tracker

/-- `_IterationOutcome`. -/
structure IterationOutcome where
  message : Option ChatMessage := none
  interrupted : Bool := false
  failed : Bool := false
  usage : Option Usage := none
  deriving DecidableEq, Repr

/-- `observe`. -/
def IterationOutcome.observe (outcome : IterationOutcome) : LoopEvent → IterationOutcome
  | .assistantMessage message interrupted usage =>
      { outcome with message := some message, interrupted, usage }
  | .failed _ => { outcome with failed := true }
  | _ => outcome

/-- A moment at which a tool was left running. -/
inductive Slip where
  /-- A call took the place of a running one with the same id. -/
  | displaced
  /-- The stream ended without a final message, or with one that has no calls. -/
  | notWaitedFor
  /-- The generator was closed, or the wait for the tools was cancelled. -/
  | abandoned
  /-- The LLM stream could not be closed. -/
  | closeFailed
  /-- A tool did not end when it was cancelled. -/
  | defied
  deriving DecidableEq, Repr

/-- A run of the loop and what surrounds it. -/
structure Loop where
  own : List ChatMessage := []
  emitted : List LoopEvent := []
  /-- `control.is_cancelled`. -/
  cancelled : Bool := false
  runs : List ToolRun := []
  tracker : Tracker := {}
  outcome : IterationOutcome := {}
  /-- The LLM stream has its next event, or its end. -/
  arrived : Bool := false
  /-- Nothing came within the idle timeout. -/
  idle : Bool := false
  /-- The task that waits for the cancel flag has ended. -/
  watched : Bool := false
  /-- The consuming task is being cancelled. -/
  interrupted : Bool := false
  /-- The generator is being closed. -/
  closing : Bool := false
  /-- Closing the LLM stream, or stopping its pending read, raises. -/
  closeFails : Bool := false
  toolTimeout : Nat
  /-- The iteration whose tool results are being waited for. -/
  waiting : Option Nat := none
  prompts : List (List ChatMessage) := []
  waitCancels : List Nat := []
  slips : List Slip := []

abbrev Work (α : Type) := Co Loop LoopError α

namespace Loop

/-- Nothing has happened yet. -/
def fresh (toolTimeout : Nat) : Loop := { toolTimeout }

/-- How many trackers there have been. -/
def iterations (s : Loop) : Nat := s.prompts.length

/-- Some tool has not ended. -/
def busy (s : Loop) : Bool := s.runs.any (·.alive)

/-- The loop leaves here without looking after its tools. -/
def leave (slip : Slip) (s : Loop) : Loop :=
  if s.busy then { s with slips := s.slips ++ [slip] } else s

def ended (s : Loop) (number : Nat) : Bool :=
  match s.runs[number]? with
  | some run => run.status.isEnded
  | none => true

/-- The run a call id stands for, if it has not ended. -/
def displaces (call : ToolCall) (s : Loop) : Bool :=
  s.tracker.tasks.any fun task => task.1 = call.id && ((s.runs[task.2]?).any (·.alive))

/-- `spawn`. -/
def spawn (call : ToolCall) (s : Loop) : Loop :=
  { s with
    runs := s.runs ++ [{ iteration := s.iterations, call }]
    tracker := { s.tracker with
      seen := true
      order := s.tracker.order ++ [call]
      tasks := setTask call.id s.runs.length s.tracker.tasks }
    slips := if s.displaces call then s.slips ++ [.displaced] else s.slips }

/-- `mark_broken`. -/
def markBroken (callId name error : String) (s : Loop) : Loop :=
  let call : ToolCall := { id := callId, name, arguments := [] }
  let result := ToolRunResult.failed call error
  { s with
    runs := s.runs ++
      [{ iteration := s.iterations, call, status := .landed result, alive := false }]
    tracker := { s.tracker with
      seen := true
      order := s.tracker.order ++ [call]
      queue := s.tracker.queue ++ [result] } }

def drain (s : Loop) : Loop := { s with tracker := s.tracker.drain }

/-- The first half of `abort`: every task is cancelled. -/
def cancelTasks (s : Loop) : Loop :=
  let numbers := s.tracker.tasks.map (·.2)
  let runs := s.runs.mapIdx fun number run => if number ∈ numbers then run.cancel else run
  { s with
    runs
    slips := if runs.any fun run => run.alive && run.status = .cancelled then s.slips ++ [.defied]
      else s.slips }

/-- Every task of the tracker has ended. -/
def tasksEnded (s : Loop) : Bool := s.tracker.tasks.all fun task => s.ended task.2

/-- An event is yielded. -/
def deliver (event : LoopEvent) (s : Loop) : Loop := { s with emitted := s.emitted ++ [event] }

/-- An iteration begins: a new outcome, a new tracker and a new LLM call. -/
def beginIteration (s : Loop) : Loop :=
  { s with
    outcome := {}
    tracker := {}
    prompts := s.prompts ++ [s.own]
    arrived := false
    idle := false
    watched := false }

def appendOwn (messages : List ChatMessage) (s : Loop) : Loop :=
  { s with own := s.own ++ messages }

end Loop

/-! ## The generators -/

/-- The consumer asks for the next event, or closes the generator. -/
def resumed : Work Unit :=
  Co.attempt fun s =>
    if s.closing then (.error .generatorExit, s.leave .abandoned) else (.ok (), s)

/-- A yield of `_run`. -/
def emit (event : LoopEvent) : Work Unit := do
  Co.modify (Loop.deliver event)
  resumed

/-- A yield of `_stream_assistant`, observed and passed on by `_run`. -/
def emitObserved (event : LoopEvent) : Work Unit := do
  Co.modify fun s => { s.deliver event with outcome := s.outcome.observe event }
  resumed

/-- `abort`: `gather` waits for the cancelled tasks even when it is cancelled
itself. -/
def abort : Work Unit := do
  Co.modify Loop.cancelTasks
  Co.attemptWhen Loop.tasksEnded fun s =>
    if s.interrupted && !s.tracker.tasks.isEmpty then
      (.error .cancelledError, { s with interrupted := false })
    else (.ok (), s.drain)

/-- What `_next_event` comes back with. -/
inductive Next where
  | arrived
  | runCancelled
  | timeout
  deriving DecidableEq, Repr

/-- `asyncio.wait` on the stream's next event, the cancel watch and the timeout.
`comes`: there is something for the stream to come up with. -/
def awaitEvent (comes : Bool) : Work Next :=
  Co.attemptWhen (fun s => s.interrupted || (comes && s.arrived) || s.watched || s.idle) fun s =>
    if s.interrupted then (.error .cancelledError, { s with interrupted := false })
    else if comes && s.arrived then (.ok .arrived, { s with arrived := false })
    else if s.watched then (.ok .runCancelled, s)
    else (.ok .timeout, s)

/-- The pending read is stopped.  A cancellation of the consumer that arrives
here is suppressed along with that of the read. -/
def stopRead : Work Unit :=
  Co.attempt fun s =>
    if s.closeFails then (.error (.raised "stream"), s) else (.ok (), { s with interrupted := false })

/-- `_next_event`. -/
def nextEvent (comes : Bool) : Work Next := do
  match ← awaitEvent comes with
  | .arrived => pure .arrived
  | .runCancelled => do
      stopRead
      pure .runCancelled
  | .timeout => do
      stopRead
      pure .timeout

/-- `_AssistantStreamState`. -/
structure AssistantStreamState where
  contentParts : List String := []
  finalMessage : Option ChatMessage := none
  interrupted : Bool := false
  timedOut : Bool := false
  usage : Option Usage := none
  deriving DecidableEq, Repr

/-- What `_handle_stream_event` does to the tracker. -/
def track : StreamEvent → Loop → Loop
  | .toolCallReady call, s => s.spawn call
  | .toolCallBroken _ callId name error _, s => s.markBroken callId name error
  | _, s => s

/-- The loop events it makes of a stream event. -/
def translate : StreamEvent → List LoopEvent
  | .textDelta text => [.textDelta text]
  | .reasoningDelta => [.reasoningDelta]
  | .toolCallReady call => [.toolCallRequested call]
  | .retryScheduled attempt delaySeconds reason => [.retryScheduled attempt delaySeconds reason]
  | .toolCallStarted .. | .toolCallBroken .. | .streamFinished .. => []

/-- What the pump remembers of it. -/
def AssistantStreamState.note (state : AssistantStreamState) : StreamEvent → AssistantStreamState
  | .textDelta text => { state with contentParts := state.contentParts ++ [text] }
  | .streamFinished content toolCalls usage =>
      { state with finalMessage := some (.assistant content toolCalls), usage }
  | _ => state

/-- `_handle_stream_event`, up to its yields. -/
def handleStreamEvent (event : StreamEvent) : Work (List LoopEvent) :=
  Co.atomic fun s =>
    let s := track event s
    (translate event ++ s.tracker.queue.map ToolRunResult.event, s.drain)

/-- `_pump_stream`. -/
def pumpStream (ending : StreamEnd) :
    AssistantStreamState → List StreamEvent → Work AssistantStreamState
  | state, [] => do
      match ← nextEvent (ending ≠ .stalls) with
      | .timeout => pure { state with timedOut := true }
      | .runCancelled => pure { state with interrupted := true }
      | .arrived =>
          match ending with
          | .overflows => Co.throw .contextOverflow
          | .raises text => Co.throw (.raised text)
          | _ => pure state
  | state, event :: rest => do
      match ← nextEvent true with
      | .timeout => pure { state with timedOut := true }
      | .runCancelled => pure { state with interrupted := true }
      | .arrived => do
          match ← Co.read (·.cancelled) with
          | true => pure { state with interrupted := true }
          | false => do
              let events ← handleStreamEvent event
              Co.forEach events emitObserved
              pumpStream ending (state.note event) rest

/-- `stream.aclose()`. -/
def closeStream : Work Unit :=
  Co.attempt fun s =>
    if s.interrupted then (.error .cancelledError, { s with interrupted := false }.leave .closeFailed)
    else if s.closeFails then (.error (.raised "close"), s.leave .closeFailed)
    else (.ok (), s)

/-- `_interrupt_iteration`: the message is answered as it is appended. -/
def interruptIteration (contentParts : List String) : Work Unit := do
  abort
  let message ← Co.atomic fun s =>
    let message := ChatMessage.assistant (String.join contentParts) s.tracker.order
    (message, s.appendOwn (message :: s.tracker.toolMessages message.toolCalls))
  emitObserved (.assistantMessage message true none)

/-- `_finalize_assistant`. -/
def finalizeAssistant (state : AssistantStreamState) : Work Unit :=
  if state.timedOut then do
    abort
    emitObserved (.failed streamIdleTimeoutMessage)
  else if state.interrupted then interruptIteration state.contentParts
  else
    match state.finalMessage with
    | none => do
        Co.modify (Loop.leave .notWaitedFor)
        emitObserved (.failed emptyStreamMessage)
    | some message => do
        Co.modify (Loop.appendOwn [message])
        emitObserved (.assistantMessage message false state.usage)

/-- `except BaseException`, then `finally`.  What is raised at a yield is raised
in `_run`: the generators under it do not see it. -/
def streamDied (error : LoopError) : Work AssistantStreamState :=
  match error with
  | .generatorExit => Co.throw error
  | _ => do
      let raised ← Co.tryCatch (do abort; pure error) pure
      closeStream
      Co.throw raised

/-- `_stream_assistant`. -/
def streamAssistant (stream : LlmStream) : Work Unit := do
  let state ← Co.tryCatch (pumpStream stream.ending {} stream.events) streamDied
  closeStream
  finalizeAssistant state

/-- Yield what has landed. -/
def drainAndEmit : Work Unit := do
  let events ← Co.atomic fun s => (s.tracker.queue.map ToolRunResult.event, s.drain)
  Co.forEach events emit

/-- `asyncio.wait` on the pending runs and the cancel watch: the runs that are
still pending, or nothing when the run has been cancelled. -/
def awaitRuns (pending : List Nat) : Work (Option (List Nat)) :=
  Co.attemptWhen (fun s => s.interrupted || s.watched || pending.any s.ended) fun s =>
    if s.interrupted then (.error .cancelledError, { s with interrupted := false }.leave .abandoned)
    else if s.watched then (.ok none, s)
    else (.ok (some (pending.filter fun number => !s.ended number)), s)

/-- The loop of `wait`.  A run ends in every round, so there are at most as many
rounds as pending runs. -/
def waitRounds : Nat → List Nat → Work Unit
  | _, [] => drainAndEmit
  | 0, _ :: _ => drainAndEmit
  | rounds + 1, number :: rest => do
      match ← awaitRuns (number :: rest) with
      | none => pure ()
      | some pending => do
          drainAndEmit
          waitRounds rounds pending

/-- `wait`. -/
def wait (index : Nat) : Work Unit := do
  let pending ← Co.atomic fun s =>
    ((s.tracker.tasks.map (·.2)).filter fun number => !s.ended number,
      { s with watched := false, waiting := some index })
  waitRounds pending.length pending

/-- Streams without incremental tool-call events: every call of the final message
is started here. -/
def startCalls (message : ChatMessage) : Work Unit := do
  match ← Co.read (·.tracker.seen) with
  | true => pure ()
  | false =>
      Co.forEach message.toolCalls fun call => do
        Co.modify (Loop.spawn call)
        emit (.toolCallRequested call)

/-- The wait is over, and a stop aborts the runs that are left. -/
def abortIfCancelled : Work Unit := do
  match ← Co.atomic fun s => (s.cancelled, { s with waiting := none }) with
  | true => abort
  | false => pure ()

/-- `_stream_tool_calls`. -/
def streamToolCalls (index : Nat) (message : ChatMessage) : Work Unit := do
  startCalls message
  wait index
  abortIfCancelled
  Co.modify fun s => s.appendOwn (s.tracker.toolMessages message.toolCalls)

/-- The iterations that are left, from the one with this index on. -/
def iterate (llm : Nat → LlmStream) : Nat → Nat → Work Unit
  | _, 0 => emit (.failed maxIterationsMessage)
  | index, left + 1 => do
      emit (.iterationStarted index)
      match ← Co.read (·.cancelled) with
      | true => emit .cancelled
      | false => do
          Co.modify Loop.beginIteration
          streamAssistant (llm index)
          let outcome ← Co.read (·.outcome)
          if outcome.failed then pure ()
          else if outcome.interrupted then emit .cancelled
          else
            match outcome.message with
            | none => Co.throw .assertionError
            | some message =>
                if message.toolCalls = [] then do
                  Co.modify (Loop.leave .notWaitedFor)
                  emit (.finished message outcome.usage)
                else do
                  streamToolCalls index message
                  iterate llm (index + 1) left

/-- `AgentLoop._run`. -/
def runLoop (llm : Nat → LlmStream) (maxIterations : Nat) : Work Unit :=
  iterate llm 0 maxIterations

/-! ## What surrounds the loop -/

inductive Happening where
  /-- `LoopControl.cancel()`. -/
  | cancel
  | watch
  | arrive
  | idle
  | interrupt
  | close
  | closeFails (fails : Bool)
  | toolEnds (number : Nat) (outcome : ToolOutcome)
  /-- The time limit of a run is over. -/
  | toolExpires (number : Nat)
  /-- A tool that was cancelled ends, maybe with an exception of its own. -/
  | toolStops (number : Nat) (outcome : ToolOutcome)
  /-- A tool gets to where it will not end when it is cancelled. -/
  | toolDefies (number : Nat)
  deriving DecidableEq, Repr

namespace Loop

/-- A run lands: its result goes to the queue of its tracker. -/
def land (number : Nat) (run : ToolRun) (result : ToolRunResult) (s : Loop) : Loop :=
  { s with
    runs := s.runs.set number { run with status := .landed result, alive := false }
    tracker := if run.iteration = s.iterations then
        { s.tracker with queue := s.tracker.queue ++ [result] }
      else s.tracker }

/-- `_execute_one` and `_run_one` when the tool ends by itself. -/
def toolEnds (number : Nat) (run : ToolRun) (s : Loop) : ToolOutcome → Loop
  | .output text => s.land number run (.completed run.call text)
  | .raised className message => s.land number run (.failed run.call (formatError className message))
  | .cancelled =>
      { s with runs := s.runs.set number { run with status := .cancelled, alive := false } }

/-- The result of a run whose limit was over when its tool ended. -/
def overdue (run : ToolRun) (s : Loop) : ToolOutcome → ToolRunResult
  | .raised className message => .failed run.call (formatError className message)
  | _ => .failed run.call (toolTimeoutMessage run.call.name s.toolTimeout)

/-- A step of the surroundings.  What is not possible changes nothing. -/
def happen (s : Loop) : Happening → Loop
  | .cancel =>
      { s with
        cancelled := true
        waitCancels := if s.cancelled then s.waitCancels else s.waitCancels ++ s.waiting.toList }
  | .watch => { s with watched := s.watched || s.cancelled }
  | .arrive => { s with arrived := true }
  | .idle => { s with idle := true }
  | .interrupt => { s with interrupted := true }
  | .close => { s with closing := true }
  | .closeFails fails => { s with closeFails := fails }
  | .toolEnds number outcome =>
      match s.runs[number]? with
      | some run => if run.status = .waiting then s.toolEnds number run outcome else s
      | none => s
  | .toolExpires number =>
      match s.runs[number]? with
      | some run =>
          if run.status = .waiting then { s with runs := s.runs.set number { run with status := .expired } }
          else s
      | none => s
  | .toolStops number outcome =>
      match s.runs[number]? with
      | some run =>
          match run.status with
          | .expired => s.land number run (s.overdue run outcome)
          | .cancelled => { s with runs := s.runs.set number { run with alive := false } }
          | _ => s
      | none => s
  | .toolDefies number =>
      match s.runs[number]? with
      | some run => { s with runs := s.runs.set number { run with defiant := true } }
      | none => s

end Loop

/-- What may happen between two steps of the loop. -/
def Surroundings (s s' : Loop) : Prop := ∃ h : Happening, s' = s.happen h

/-- A schedule: what happens before each step of the loop. -/
abbrev Schedule := List (List Happening)

/-- Steps before which nothing happens. -/
def undisturbed (steps : Nat) : Schedule := List.replicate steps []

/-- The loop under a schedule, and its own steps. -/
def traceUnder (schedule : Schedule) {α : Type} (c : Work α) (s : Loop) :
    Option (List (Loop × Loop) × Except LoopError α × Loop) :=
  Co.traceWith (fun h s => s.happen h) schedule c s

theorem trace_of_traceUnder {α τ : Type} {c : Work α} {s : Loop}
    {f : List (Loop × Loop) × Except LoopError α × Loop → τ} {value : τ} (schedule : Schedule)
    (hTraces : (traceUnder schedule c s).map f = some value) :
    ∃ steps r t, Co.Trace Surroundings c s steps (Co.ended r) t ∧ f (steps, r, t) = value := by
  obtain ⟨steps, r, t, hTrace, hValue⟩ := Co.Trace.exists_of_traceWith schedule hTraces
  exact ⟨steps, r, t, hTrace.mono fun _ _ hStep => hStep, hValue⟩

end Agent
end OctoForge
