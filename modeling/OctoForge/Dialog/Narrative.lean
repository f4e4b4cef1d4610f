import Mathlib.Algebra.GroupWithZero.Nat
import OctoForge.Coop.Pool
import OctoForge.Dialog.Branch

/-!
# The narrative of a dialog and the runs that read it

A runner mirrors the message table of its dialog in a list, the narrative, and
keeps a process for every run.  A run's branch is assembled from the
compactor's summaries and the tail of the narrative; the assemble also trims
from the list what compaction has taken over.  How far a branch has seen the
narrative is a list index, the process's watermark.

This module gives the coroutines that touch the narrative, over one shared
state: a message is persisted and later appended; an assemble reads the
summaries and a count, takes its snapshot in the middle of several awaits, and
trims at the end; a pump syncs its branch at every iteration and ends its
process; a re-parenting rewrites exchange ids in place.

* What the database does in one transaction and what the code does between two
  awaits is one atomic step.
* Exchange statuses, tasks, budgets and deliveries are not part of this state:
  which exchanges are live is set by events, and the exchange a message goes to
  is an argument of its submit.
* A compaction is one that was asked for and either commits or fails.  It
  only moves the boundary forward.
* Loops whose length depends on what others append run for a number of rounds
  given with the call.

The fields after `turn` are a record of the run for the statements; no branch
reads them.
-/

namespace OctoForge
namespace Dialog

open Coop

abbrev ProcessId := Nat

structure NarrativeConfig where
  systemPrompt : String := ""
  hotMaxChars : Nat := 12000
  modelContextTokens : Nat := 0
  contextBufferTokens : Nat := 2000

/-- A row of the message table. -/
structure MessageRow where
  seq : Nat
  message : ChatMessage
  promptTokens : Option Nat := none
  deriving DecidableEq, Repr

structure DialogueSummary where
  seqFrom : Nat
  seqTo : Nat
  topics : List String := []
  content : String := ""
  deriving DecidableEq, Repr

/-- `_Process`, as far as the pull model reads it. -/
structure Process where
  id : ProcessId
  exchangeId : Option ExchangeId
  narrativeBuilt : Bool
  branch : List Line
  syncedLen : Nat := 0
  watermark : Nat := 0
  overflowRetried : Bool := false
  /-- How many messages had ever been appended to the narrative when the last
  completed assemble of this run took its snapshot. -/
  snapshot : Nat := 0
  deriving DecidableEq, Repr

/-- The part of the branch that the last sync put there. -/
def Process.synced (p : Process) : List Line := p.branch.take p.syncedLen

/-- Who asked for an assemble, and so what happens to its result: a new answer
run gets it, the branch of a run is replaced by it, or nobody looks at it. -/
inductive Purpose where
  | answer
  | sync (process : ProcessId)
  | check
  deriving DecidableEq, Repr

/-- What an assemble saw of the narrative, and how many messages had ever been
appended to it by then. -/
structure Snapshot where
  len : Nat
  tail : List Entry
  appended : Nat
  deriving DecidableEq, Repr

/-- Who holds `_assemble_lock`, and what the assemble has seen so far. -/
structure Assembling where
  holder : Nat
  purpose : Purpose
  own : Option ExchangeId
  snapshot : Option Snapshot := none
  deriving DecidableEq, Repr

inductive Unseen where
  | nothing
  | materialOnly
  | spoken
  deriving DecidableEq, Repr

/-- `_ProcessTerminated`, with the process that ended and how many messages had
been trimmed by then. -/
structure Terminated where
  process : Process
  unseen : Unseen
  trimmed : Nat
  deriving DecidableEq, Repr

structure Dialogue where
  rows : List MessageRow := []
  summaries : List DialogueSummary := []
  narrative : List Entry := []
  processes : List Process := []
  nextProcess : ProcessId := 0
  /-- `_assemble_lock`. -/
  assembling : Option Assembling := none
  compacting : Bool := false
  /-- The live exchanges of the dialog. -/
  live : List ExchangeId := []
  inbox : List Terminated := []
  now : String := ""
  /-- The database does not answer. -/
  storeDown : Bool := false
  /-- Which of two gathered coroutines is resumed next. -/
  turn : Bool := true
  /-- Messages that are persisted and not yet appended. -/
  pending : List Nat := []
  /-- How many messages have been trimmed from the narrative. -/
  trimmed : Nat := 0
  /-- A re-parenting took messages from a run's exchange, or gave a run
  messages that its branch was already past. -/
  misfiled : Bool := false
  deriving DecidableEq, Repr

/-! ## The stored side -/

/-- `max((summary.seq_to for summary in summaries), default=NO_COMPACTED_SEQ)`. -/
def maxSeqTo (summaries : List DialogueSummary) : Nat :=
  (summaries.map (·.seqTo)).foldr max 0

def Dialogue.boundary (s : Dialogue) : Nat := maxSeqTo s.summaries

/-- The rows past the compaction boundary. -/
def Dialogue.hotRows (s : Dialogue) : List MessageRow :=
  s.rows.filter fun row => s.boundary < row.seq

/-- `latest_prompt_tokens`. -/
def Dialogue.latestPromptTokens (s : Dialogue) (afterSeq : Nat) : Option Nat :=
  s.rows.reverse.findSome? fun row =>
    if afterSeq < row.seq ∧ row.message.role = .assistant then row.promptTokens else none

def Dialogue.nextSeq (s : Dialogue) : Nat := (s.rows.map (·.seq)).foldr max 0 + 1

/-- `append` or `append_pair`: one transaction. -/
def insertRows (messages : List ChatMessage) (promptTokens : Option Nat) (s : Dialogue) :
    List Nat × Dialogue :=
  let rows := messages.zipIdx.map fun (message, index) =>
    ({ seq := s.nextSeq + index, message, promptTokens } : MessageRow)
  (rows.map (·.seq),
    { s with rows := s.rows ++ rows, pending := s.pending ++ rows.map (·.seq) })

/-- `set_exchange`. -/
def setExchange (id : MessageId) (x : ExchangeId) (s : Dialogue) : Dialogue :=
  { s with
    rows := s.rows.map fun row =>
      if row.seq = id then { row with message := { row.message with exchangeId := some x } }
      else row }

/-! ## The narrative -/

/-- How many messages have ever been appended to the narrative. -/
def Dialogue.appended (s : Dialogue) : Nat := s.trimmed + s.narrative.length

/-- The entries a list of messages becomes when it is appended. -/
def Dialogue.entries (s : Dialogue) (messages : List (ChatMessage × Nat)) : List Entry :=
  messages.zipIdx.map fun (item, index) =>
    { message := item.1, seq := item.2, serial := s.appended + index }

/-- `self._narrative.append` and `self._narrative.extend`. -/
def appendMessages (messages : List (ChatMessage × Nat)) (s : Dialogue) : Dialogue :=
  { s with
    narrative := s.narrative ++ s.entries messages
    pending := s.pending.filter fun seq => seq ∉ messages.map (·.2) }

def Dialogue.process? (s : Dialogue) (id : ProcessId) : Option Process :=
  s.processes.find? fun p => p.id = id

def updateProcess (id : ProcessId) (f : Process → Process) (s : Dialogue) : Dialogue :=
  { s with processes := s.processes.map fun p => if p.id = id then f p else p }

/-- `_trim_narrative`. -/
def trimNarrative (drop : Nat) (s : Dialogue) : Dialogue :=
  { s with
    narrative := s.narrative.drop drop
    processes := s.processes.map fun p => { p with watermark := p.watermark - drop }
    trimmed := s.trimmed + min drop s.narrative.length }

/-- `_tail_of`. -/
def tailOf (history : List Entry) (tailCount : Nat) : List Entry :=
  history.drop (history.length - min tailCount history.length)

def chars (messages : List Entry) : Nat :=
  (messages.map fun e => e.message.content.length).sum

/-- `_topics_block`. -/
def topicsBlock (summaries : List DialogueSummary) : ChatMessage where
  role := .system
  content := "\n".intercalate
    (("Compressed summaries of earlier topics of this conversation " ++
      "(the verbatim recent history follows):") ::
      summaries.map fun summary =>
        "[seq " ++ toString summary.seqFrom ++ "-" ++ toString summary.seqTo ++ "] (topics: " ++
          (if summary.topics.isEmpty then "-" else ", ".intercalate summary.topics) ++ ") " ++
          summary.content)

/-- `AssembledContext`, with the summaries behind its topics block, the rows
that were counted, and the narrative and the append count at the snapshot. -/
structure Assembled where
  summaries : List DialogueSummary
  tail : List Entry
  snapshotLen : Nat
  counted : List MessageRow
  history : List Entry
  appended : Nat
  deriving DecidableEq, Repr

def Assembled.tailCount (a : Assembled) : Nat := a.tail.length

def Assembled.messages (a : Assembled) : List Piece :=
  if a.summaries.isEmpty then a.tail.map .entry
  else .block (topicsBlock a.summaries) :: a.tail.map .entry

/-- The snapshot moment of `assemble`. -/
def takeSnapshot (count : Nat) (s : Dialogue) : Snapshot × Dialogue :=
  let snapshot :=
    { len := s.narrative.length, tail := tailOf s.narrative count, appended := s.appended }
  (snapshot,
    { s with assembling := s.assembling.map fun a => { a with snapshot := some snapshot } })

/-- The run that an assemble starts. -/
def answering (cfg : NarrativeConfig) (own : Option ExchangeId) (narrative : List Line)
    (watermark snapshot : Nat) (id : ProcessId) : Process where
  id
  exchangeId := own
  narrativeBuilt := true
  branch := { piece := .block { role := .system, content := cfg.systemPrompt } } :: narrative
  syncedLen := 1 + narrative.length
  watermark
  snapshot

/-- What a sync makes of its run: the private suffix survives. -/
def synchronised (cfg : NarrativeConfig) (narrative : List Line) (watermark snapshot : Nat)
    (p : Process) : Process :=
  { p with
    branch := { piece := .block { role := .system, content := cfg.systemPrompt } } ::
      (narrative ++ p.branch.drop p.syncedLen)
    syncedLen := 1 + narrative.length
    watermark
    snapshot }

/-- What the caller of `_assemble_narrative` does with the rendered narrative
and the watermark, before its next await.  `snapshot` is the append count at
the snapshot. -/
def land (cfg : NarrativeConfig) (own : Option ExchangeId) (narrative : List Line)
    (watermark snapshot : Nat) (s : Dialogue) : Purpose → Dialogue
  | .answer =>
      { s with
        processes := s.processes ++ [answering cfg own narrative watermark snapshot s.nextProcess]
        nextProcess := s.nextProcess + 1 }
  | .sync id => updateProcess id (synchronised cfg narrative watermark snapshot) s
  | .check => s

/-- The end of `_assemble_narrative`: the trim, the release of the lock, the
marks, and the caller's own lines.  Returns what the trim removed. -/
def finishAssemble (cfg : NarrativeConfig) (purpose : Purpose) (own : Option ExchangeId)
    (a : Assembled) (liveIds : List ExchangeId) (s : Dialogue) : List Entry × Dialogue :=
  let drop := a.snapshotLen - a.tailCount
  let trimmed := { trimNarrative drop s with assembling := none }
  let narrative := withDateEnvelope s.now (renderBranch a.messages own liveIds)
  (s.narrative.take drop,
    land cfg own narrative a.tailCount a.appended trimmed purpose)

def backgroundTaskPrompt : String :=
  "You are solving a background task. User message is the task. " ++
    "Produce the final answer as the result."

/-- `_start_process`: a run with a self-contained branch. -/
def startProcess (prompt : String) (own : Option ExchangeId) (s : Dialogue) : Dialogue :=
  { s with
    processes := s.processes ++
      [{ id := s.nextProcess, exchangeId := own, narrativeBuilt := false
         branch :=
           [{ piece := .block { role := .system, content := backgroundTaskPrompt } },
            { piece := .block { role := .user, content := prompt }, dated := some s.now }] }]
    nextProcess := s.nextProcess + 1 }

/-- The run's loop adds to its branch. -/
def writePrivate (id : ProcessId) (message : ChatMessage) : Dialogue → Dialogue :=
  updateProcess id fun p => { p with branch := p.branch ++ [{ piece := .block message }] }

/-- The one reactive compaction a run may ask for. -/
def takeOverflowRetry (id : ProcessId) (s : Dialogue) : Bool × Dialogue :=
  match s.process? id with
  | none => (false, s)
  | some p =>
      if p.overflowRetried || !p.narrativeBuilt then (false, s)
      else (true, updateProcess id (fun p => { p with overflowRetried := true }) s)

/-- `_unseen_kind`. -/
def unseenKind (s : Dialogue) (p : Process) : Unseen :=
  match p.narrativeBuilt, p.exchangeId with
  | true, some x =>
      let arrived := (s.narrative.drop p.watermark).filter fun e => decide (e.message.Carries x)
      if arrived.isEmpty then .nothing
      else if arrived.all fun e => e.message.kind = .material then .materialOnly
      else .spoken
  | _, _ => .nothing

/-- `_terminate_process`. -/
def terminateProcess (id : ProcessId) (s : Dialogue) : Dialogue :=
  match s.process? id with
  | none => s
  | some p =>
      { s with
        processes := s.processes.filter fun q => q.id ≠ id
        inbox := s.inbox ++ [{ process := p, unseen := unseenKind s p, trimmed := s.trimmed }] }

/-- `_latest_assistant_with_content`. -/
def latestAssistantWithContent (branch : List ChatMessage) : Option ChatMessage :=
  match branch.reverse.dropWhile fun m => m.role = .tool with
  | m :: _ => if m.role = .assistant ∧ m.content ≠ "" then some m else none
  | [] => none

/-- One stretch of `_reparent_material`'s loop, from its position on: messages
of the collection are moved to the target until one of them has a row to
write.  Returns how many messages the loop went past and that row. -/
def moveUntilRow (collection target : ExchangeId) :
    List Entry → List Entry × Option (Nat × MessageId)
  | [] => ([], none)
  | e :: rest =>
      if e.message.exchangeId ≠ some collection then
        let (rest', next) := moveUntilRow collection target rest
        (e :: rest', next.map fun (passed, id) => (passed + 1, id))
      else
        let moved := { e with message := { e.message with exchangeId := some target } }
        match e.message.id with
        | some id => (moved :: rest, some (1, id))
        | none =>
            let (rest', next) := moveUntilRow collection target rest
            (moved :: rest', next.map fun (passed, id) => (passed + 1, id))

def userMessages (entries : List Entry) : List Entry :=
  entries.filter fun e => e.message.role = .user

/-- Whether moving messages from one exchange to another takes messages from a
live run, or hands a run messages that its branch, or the snapshot its branch
is being made from, is already past. -/
def misfiles (s : Dialogue) (collection target : ExchangeId) (moved : List Entry) : Bool :=
  (s.processes.any fun p =>
    p.narrativeBuilt &&
      (p.exchangeId = some collection && userMessages moved ≠ userMessages s.narrative ||
        p.exchangeId = some target &&
          userMessages (moved.take p.watermark) ≠ userMessages (s.narrative.take p.watermark))) ||
  (s.assembling.any fun a =>
    a.own = some target &&
      a.snapshot.any fun snapshot =>
        userMessages (moved.take snapshot.len) ≠ userMessages (s.narrative.take snapshot.len))

/-- The loop of `_reparent_material` from one await to the next.  `position` is
the list iterator's. -/
def reparentStep (collection target : ExchangeId) (position : Nat) (s : Dialogue) :
    Option (Nat × MessageId) × Dialogue :=
  let (rest, next) := moveUntilRow collection target (s.narrative.drop position)
  let moved := s.narrative.take position ++ rest
  (next.map fun (passed, id) => (position + passed, id),
    { s with
      narrative := moved
      misfiled := s.misfiled || misfiles s collection target moved })

/-! ## The coroutines -/

inductive RunError where
  | store
  | overflow
  deriving DecidableEq, Repr

abbrev Work (α : Type) := Co Dialogue RunError α

/-- A transaction; it raises when the database does not answer. -/
def transaction {α : Type} (f : Dialogue → α × Dialogue) : Work α :=
  Co.attempt fun s =>
    if s.storeDown then (.error .store, s) else (.ok (f s).1, (f s).2)

/-- A read of the database. -/
def select {α : Type} (f : Dialogue → α) : Work α :=
  transaction fun s => (f s, s)

def listForDialog : Work (List DialogueSummary) := select (·.summaries)

/-- `count_hot_tail`: the rows past the boundary, and that boundary. -/
def countHotTail : Work (List MessageRow × Nat) := select fun s => (s.hotRows, s.boundary)

/-- `_token_overflow`. -/
def tokenOverflow (cfg : NarrativeConfig) (afterSeq : Nat) : Work Bool :=
  if cfg.modelContextTokens = 0 then pure false
  else do
    match ← select fun s => s.latestPromptTokens afterSeq with
    | none => pure false
    | some promptTokens =>
        pure (decide (cfg.modelContextTokens ≤ promptTokens + cfg.contextBufferTokens))

/-- `_start_compact`. -/
def startCompact : Work Unit := Co.modify fun s => { s with compacting := true }

/-- The overflow check of `assemble`. -/
def triggerCompact (cfg : NarrativeConfig) (tail : List Entry) (afterSeq : Nat) : Work Unit := do
  let overflows ←
    if cfg.hotMaxChars < chars tail then pure true else tokenOverflow cfg afterSeq
  if overflows then startCompact else pure ()

/-- `LlmContextCompactor.assemble`. -/
def assemble (cfg : NarrativeConfig) : Work Assembled := do
  let (summaries, counted, countedBoundary) ← Co.gather (·.turn) listForDialog countHotTail
  let summaries ←
    if countedBoundary ≠ maxSeqTo summaries then listForDialog else pure summaries
  let (snapshot, history) ← Co.atomic fun s =>
    (((takeSnapshot counted.length s).1, s.narrative), (takeSnapshot counted.length s).2)
  triggerCompact cfg snapshot.tail (maxSeqTo summaries)
  pure
    { summaries, tail := snapshot.tail, snapshotLen := snapshot.len, counted, history
      appended := snapshot.appended }

/-- `_live_exchange_ids`. -/
def liveExchangeIds (own : Option ExchangeId) : Work (List ExchangeId) :=
  select fun s => s.live.filter fun x => some x ≠ own

def acquireAssembleLock (me : Nat) (purpose : Purpose) (own : Option ExchangeId) : Work Unit :=
  Co.blockUntil (fun s => s.assembling.isNone) fun s =>
    ((), { s with assembling := some { holder := me, purpose, own } })

/-- Only the holder releases the lock. -/
def releaseAssembleLock (me : Nat) : Work Unit :=
  Co.modify fun s =>
    if s.assembling.any fun a => a.holder = me then { s with assembling := none } else s

/-- `_assemble_narrative` and what its caller does with the result. -/
def assembleNarrative (cfg : NarrativeConfig) (me : Nat) (purpose : Purpose)
    (own : Option ExchangeId) : Work (Assembled × List Entry) := do
  acquireAssembleLock me purpose own
  Co.tryCatch
    (do
      let (assembled, liveIds) ← Co.gather (·.turn) (assemble cfg) (liveExchangeIds own)
      let removed ← Co.atomic (finishAssemble cfg purpose own assembled liveIds)
      pure (assembled, removed))
    fun error => do
      releaseAssembleLock me
      Co.throw error

/-- `_sync_branch`. -/
def syncBranch (cfg : NarrativeConfig) (me : Nat) (id : ProcessId) (force : Bool) : Work Unit := do
  let (process, length) ← Co.read fun s => (s.process? id, s.narrative.length)
  match process with
  | none => pure ()
  | some p =>
      if !p.narrativeBuilt || (!force && length = p.watermark) then pure ()
      else do
        let _ ← assembleNarrative cfg me (.sync id) p.exchangeId
        pure ()

/-- `_start_answer` and `_start_orphaned` of an answer task, from their
assemble on.  A restarted task may have no exchange. -/
def startAnswer (cfg : NarrativeConfig) (me : Nat) (own : Option ExchangeId) : Work Unit := do
  let _ ← assembleNarrative cfg me .answer own
  pure ()

/-- `_handle_submit` as the narrative sees it: the message is persisted, its
exchange is decided meanwhile, and then it is appended. -/
def submit (message : ChatMessage) (target : Option ExchangeId) : Work Unit := do
  let seqs ← transaction (insertRows [message] none)
  Co.modify fun s =>
    appendMessages (seqs.map fun seq => ({ message with id := some seq, exchangeId := target }, seq)) s
  match target with
  | none => pure ()
  | some x => Co.forEach seqs fun seq => transaction fun s => ((), setExchange seq x s)

/-- `_deliver_notice`. -/
def deliverNotice (content : String) (own : Option ExchangeId) : Work Unit := do
  let notice : ChatMessage := { role := .assistant, content, exchangeId := own }
  let seqs ← transaction (insertRows [notice] none)
  Co.modify fun s => appendMessages (seqs.map fun seq => ({ notice with id := some seq }, seq)) s

/-- `_reparent_material`, up to the status of the two exchanges. -/
def reparentMaterial (collection target : ExchangeId) : Nat → Nat → Work Unit
  | 0, _ => pure ()
  | rounds + 1, position => do
      match ← Co.atomic (reparentStep collection target position) with
      | none => pure ()
      | some (next, id) => do
          transaction fun s => ((), setExchange id target s)
          reparentMaterial collection target rounds next

/-- `_compact_after_run_final`. -/
def compactAfterRunFinal (cfg : NarrativeConfig) (me : Nat) : Work Unit :=
  Co.tryCatch
    (do
      let _ ← assembleNarrative cfg me .check none
      pure ())
    fun _ => pure ()

/-- Wait for the compaction under way; whether the boundary is past `before`. -/
def awaitCompact (before : Nat) : Work Bool := do
  Co.blockUntil (fun s => !s.compacting) fun s => ((), s)
  let now ← select (·.boundary)
  pure (decide (before < now))

/-- `compact_now`. -/
def compactNow : Work Bool := do
  let before ← select (·.boundary)
  let advanced ← (do
    let running ← Co.read (·.compacting)
    if running then awaitCompact before else pure false)
  if advanced then pure true
  else do
    startCompact
    awaitCompact before

/-- What the loop of a run does next. -/
inductive LoopEvent where
  | iterationStarted
  | wrote (message : ChatMessage)
  | contextOverflow

/-- One round of `_stream_once` or `_stream_terminal`. -/
def stream (cfg : NarrativeConfig) (me : Nat) (id : ProcessId) : LoopEvent → Work Unit
  | .iterationStarted => syncBranch cfg me id false
  | .wrote message => Co.modify (writePrivate id message)
  | .contextOverflow => do
      let retry ← Co.atomic (takeOverflowRetry id)
      if retry then do
        let advanced ← compactNow
        if advanced then syncBranch cfg me id true else Co.throw .overflow
      else Co.throw .overflow

/-- How a run's loop ends.  `silent` is a final with a blank text. -/
inductive Terminal where
  | finished (content : String) (promptTokens : Option Nat)
  | silent
  | failed
  | cancelled

/-- Persist messages in one transaction, then put them into the narrative. -/
def persistThenAppend (messages : List ChatMessage) (promptTokens : Option Nat) : Work Unit := do
  let seqs ← transaction (insertRows messages promptTokens)
  Co.modify (appendMessages (messages.zip seqs))

def interruptedNote : String :=
  "[The previous assistant message was interrupted and may be incomplete.]"

/-- `_salvage_interrupted_turn`: what a cancelled run leaves in the narrative. -/
def salvaged (p : Process) : List ChatMessage :=
  match latestAssistantWithContent ((p.branch.drop p.syncedLen).map (·.message)) with
  | none => []
  | some last => [last, { role := .system, content := interruptedNote }]

/-- `_finalize`; the task's own row is not part of this state. -/
def finalize (cfg : NarrativeConfig) (me : Nat) (p : Process) : Terminal → Work Unit
  | .finished content promptTokens => do
      persistThenAppend [{ role := .assistant, content, exchangeId := p.exchangeId }] promptTokens
      if p.narrativeBuilt then pure () else compactAfterRunFinal cfg me
  | .silent | .failed => select fun _ => ()
  | .cancelled =>
      match salvaged p with
      | [] => select fun _ => ()
      | messages => persistThenAppend messages none

/-- `_pump_process`. -/
def pumpProcess (cfg : NarrativeConfig) (me : Nat) (id : ProcessId) (events : List LoopEvent)
    (terminal : Terminal) : Work Unit := do
  let terminal ← Co.tryCatch
    (do
      Co.forEach events (stream cfg me id)
      pure terminal)
    fun _ => pure .failed
  match ← Co.read fun s => s.process? id with
  | none => pure ()
  | some p => do
      Co.tryCatch (finalize cfg me p terminal) fun _ => pure ()
      Co.modify (terminateProcess id)

/-! ## The runner as a system -/

inductive DialogueCall where
  | submit (message : ChatMessage) (target : Option ExchangeId)
  | deliverNotice (content : String) (own : Option ExchangeId)
  | startAnswer (own : Option ExchangeId)
  | startProcess (prompt : String) (own : Option ExchangeId)
  | pump (id : ProcessId) (events : List LoopEvent) (terminal : Terminal)
  | reparent (collection target : ExchangeId) (rounds : Nat)

def dialogueBody (cfg : NarrativeConfig) : DialogueCall → Nat → Work Unit
  | .submit message target, _ => submit message target
  | .deliverNotice content own, _ => deliverNotice content own
  | .startAnswer own, me => startAnswer cfg me own
  | .startProcess prompt own, _ => Co.modify (startProcess prompt own)
  | .pump id events terminal, me => pumpProcess cfg me id events terminal
  | .reparent collection target rounds, _ => reparentMaterial collection target rounds 0

/-- What happens without the runner. -/
inductive DialogueEvent where
  | compacted (summary : DialogueSummary)
  | compactionFailed
  | live (exchanges : List ExchangeId)
  | store (down : Bool)
  | tick (now : String)
  | turn (first : Bool)

def dialogueEvent : DialogueEvent → Dialogue → Option Dialogue
  | .compacted summary, s =>
      if s.compacting && decide (s.boundary < summary.seqTo) then
        some { s with summaries := [summary], compacting := false }
      else none
  | .compactionFailed, s => some { s with compacting := false }
  | .live exchanges, s => some { s with live := exchanges }
  | .store down, s => some { s with storeDown := down }
  | .tick now, s => some { s with now }
  | .turn first, s => some { s with turn := first }

/-- One runner over its dialog.  A crash ends the runner and its narrative. -/
def dialogue (cfg : NarrativeConfig) : System Dialogue RunError where
  Call := DialogueCall
  body := dialogueBody cfg
  Event := DialogueEvent
  event := dialogueEvent
  crash _ := none

/-- A runner that has just loaded its narrative: any messages and summaries,
but no process yet and nothing under way. -/
structure Dialogue.Fresh (s : Dialogue) : Prop where
  serials : s.narrative.map (·.serial) = List.range s.narrative.length
  trimmed : s.trimmed = 0
  processes : s.processes = []
  assembling : s.assembling = none
  inbox : s.inbox = []
  misfiled : s.misfiled = false

/-- A dialog of three messages whose first one is already compacted; the start of
the concrete runs. -/
def compactedDialogue : Dialogue where
  rows :=
    [{ seq := 1, message := { role := .user, content := "hello" } },
     { seq := 2, message := { role := .assistant, content := "hi" } },
     { seq := 3, message := { role := .user, content := "why", exchangeId := some 7 } }]
  summaries := [{ seqFrom := 1, seqTo := 1 }]
  narrative :=
    [{ message := { role := .user, content := "hello", id := some 1 }, seq := 1, serial := 0 },
     { message := { role := .assistant, content := "hi", id := some 2 }, seq := 2, serial := 1 },
     { message := { role := .user, content := "why", id := some 3, exchangeId := some 7 }
       seq := 3, serial := 2 }]
  live := [7]

theorem compactedDialogue_fresh : compactedDialogue.Fresh :=
  ⟨rfl, rfl, rfl, rfl, rfl, rfl⟩

/-- Resume one coroutine several times in a row. -/
def resumes {cfg : NarrativeConfig} (thread count : Nat) : List (System.Move (dialogue cfg)) :=
  List.replicate count (.resume thread)

end Dialog
end OctoForge
