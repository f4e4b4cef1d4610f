import OctoForge.Coop.Pool
import OctoForge.Dialog.Branch

/-!
# Compaction

A compaction reads how far the summaries of a dialog reach, takes the oldest
messages behind that, has the LLM merge them into the summary and then replaces
all summaries by the result.  Between the first read and the replacement lies a
call of the LLM.

Each process keeps at most one compaction of a dialog going (`running`).  The
guard is in the memory of the process: it says nothing about other processes, and
`aclose` drops it before the cancelled compaction has ended.  Here one dialog is
shared by any number of processes, the nodes.

A statement of the store is one step.  A commit that has been sent can take effect
although its task is being cancelled, or be lost.  `sources`, `replaced` and
`stale` are read by nothing: the messages a summary was made of, how often the
summaries were replaced, and whether one replacement was by a compaction that had
not seen the one before.
-/

namespace OctoForge
namespace Context

open Coop
open Dialog (MessageRole)

structure ArchivedMessage where
  seq : Nat
  role : MessageRole
  content : String
  deriving DecidableEq, Repr

structure DialogueSummary where
  seqFrom : Nat
  seqTo : Nat
  topics : List String := []
  content : String := ""
  sources : List Nat := []
  deriving DecidableEq, Repr

structure CompactorConfig where
  compactTargetChars : Nat := 6000
  segmentFetchLimit : Nat := 500

/-! ## What to compact -/

def interruptedNote : String :=
  "[The previous assistant message was interrupted and may be incomplete.]"

/-- The loop of `select_compact_segment`: whole messages up to the target, but
always the first. -/
def fillSegment (targetChars : Nat) : Bool → Nat → List ArchivedMessage → List ArchivedMessage
  | _, _, [] => []
  | first, total, m :: rest =>
      if !first && targetChars < total + m.content.length then []
      else m :: fillSegment targetChars false (total + m.content.length) rest

/-- `_is_split_pair`. -/
def isSplitPair (lastIn firstOut : ArchivedMessage) : Bool :=
  lastIn.role = .assistant && firstOut.role = .system && firstOut.content = interruptedNote

/-- `select_compact_segment`.  The last message of the tail is never taken, and a
salvaged pair is not split. -/
def selectCompactSegment (tail : List ArchivedMessage) (targetChars : Nat) : List ArchivedMessage :=
  let segment := fillSegment targetChars true 0 tail.dropLast
  match segment.getLast?, tail[segment.length]? with
  | some lastIn, some firstOut =>
      if isSplitPair lastIn firstOut then
        if segment.length + 1 = tail.length then segment.dropLast else segment ++ [firstOut]
      else segment
  | _, _ => segment

/-- What `_summarize` makes of the reply of the LLM. -/
def mergedSummary (topics : List String) (content : String) (first : ArchivedMessage)
    (rest : List ArchivedMessage) (previous : List DialogueSummary) : DialogueSummary where
  seqFrom := (previous.map (·.seqFrom)).foldr min first.seq
  seqTo := ((first :: rest).getLast (List.cons_ne_nil first rest)).seq
  topics := topics
  content := content
  sources := previous.flatMap (·.sources) ++ (first :: rest).map (·.seq)

/-! ## The stored side and the guards -/

inductive CompactError where
  | cancelled
  | failed
  deriving DecidableEq, Repr

/-- A compaction that has been started, and how its task stands. -/
structure CompactionTask where
  node : Nat
  begun : Bool := false
  cancelled : Bool := false
  /-- A commit of its own that is still on its way will not take effect. -/
  lost : Bool := false
  done : Bool := false
  error : Option CompactError := none
  deriving DecidableEq, Repr

structure Archive where
  rows : List ArchivedMessage := []
  summaries : List DialogueSummary := []
  tasks : List CompactionTask := []
  /-- `_running`, of each node. -/
  running : Nat → Option Nat := fun _ => none
  storeDown : Bool := false
  llmDown : Bool := false
  replaced : Nat := 0
  stale : Bool := false

def maxSeqTo (summaries : List DialogueSummary) : Nat :=
  (summaries.map (·.seqTo)).foldr max 0

namespace Archive

/-- `max_seq_to`. -/
def boundary (s : Archive) : Nat := maxSeqTo s.summaries

/-- `tail_after`. -/
def tailAfter (seq limit : Nat) (s : Archive) : List ArchivedMessage :=
  (s.rows.filter fun row => seq < row.seq).take limit

/-- `list_for_dialog`. -/
def listForDialog (s : Archive) : List DialogueSummary :=
  s.summaries.mergeSort fun x y => x.seqFrom ≤ y.seqFrom

/-- `replace_for_dialog`, by a compaction that read the boundary at `version`. -/
def replaceForDialog (version : Nat) (summary : DialogueSummary) (s : Archive) : Archive :=
  { s with
    summaries := [summary]
    replaced := s.replaced + 1
    stale := s.stale || s.replaced ≠ version }

/-- Somebody appends a message to the dialog. -/
def append (role : MessageRole) (content : String) (s : Archive) : Archive :=
  { s with rows := s.rows ++ [{ seq := (s.rows.map (·.seq)).foldr max 0 + 1, role, content }] }

def task (k : Nat) (s : Archive) : CompactionTask := s.tasks.getD k { node := 0 }

def setTask (k : Nat) (f : CompactionTask → CompactionTask) (s : Archive) : Archive :=
  { s with tasks := s.tasks.modify k f }

/-- The compaction the node has going. -/
def live (node : Nat) (s : Archive) : Option Nat :=
  (s.running node).filter fun k => !(s.task k).done

/-- `_start_compact`. -/
def startCompact (node : Nat) (s : Archive) : Nat × Archive :=
  match s.live node with
  | some k => (k, s)
  | none =>
      (s.tasks.length,
        { s with
          tasks := s.tasks ++ [{ node }]
          running := Function.update s.running node (some s.tasks.length) })

/-- `_on_compact_done`. -/
def onCompactDone (k : Nat) (s : Archive) : Archive :=
  let node := (s.task k).node
  if s.running node = some k then { s with running := Function.update s.running node none } else s

/-- The synchronous part of `aclose`. -/
def dropRunning (node : Nat) (s : Archive) : Option Nat × Archive :=
  match s.running node with
  | none => (none, s)
  | some k =>
      (some k,
        { s with running := Function.update s.running node none }.setTask k
          fun task => { task with cancelled := true })

end Archive

/-! ## The coroutines -/

abbrev Work (α : Type) := Co Archive CompactError α

/-- A read of the store, by the task with this number. -/
def select {α : Type} (k : Nat) (f : Archive → α) : Work α :=
  Co.attempt fun s =>
    if (s.task k).cancelled then (.error .cancelled, s)
    else if s.storeDown then (.error .failed, s)
    else (.ok (f s), s)

/-- The call of the LLM. -/
def complete (k : Nat) : Work Unit :=
  Co.attempt fun s =>
    if (s.task k).cancelled then (.error .cancelled, s)
    else if s.llmDown then (.error .failed, s)
    else (.ok (), s)

/-- The transaction of `replace_for_dialog`: it is sent, and then it lands. -/
def replace (k version : Nat) (summary : DialogueSummary) : Work Unit := do
  select k fun _ => ()
  Co.attempt fun s =>
    if (s.task k).cancelled then
      (.error .cancelled, if (s.task k).lost then s else s.replaceForDialog version summary)
    else if s.storeDown then (.error .failed, s)
    else (.ok (), s.replaceForDialog version summary)

/-- `_compact`, for the reply the LLM will give. -/
def compact (cfg : CompactorConfig) (topics : List String) (content : String) (k : Nat) :
    Work Unit := do
  let (boundary, version) ← select k fun s => (s.boundary, s.replaced)
  let tail ← select k (Archive.tailAfter boundary cfg.segmentFetchLimit)
  match selectCompactSegment tail cfg.compactTargetChars with
  | [] => pure ()
  | first :: rest => do
      let previous ← select k Archive.listForDialog
      complete k
      -- the meter
      select k fun _ => ()
      replace k version (mergedSummary topics content first rest previous)

/-- The task of a compaction, once it has been started. -/
def compactTask (cfg : CompactorConfig) (topics : List String) (content : String) (k : Nat) :
    Work Unit := do
  Co.blockUntil (fun s => decide (k < s.tasks.length) && !(s.task k).begun) fun s =>
    ((), s.setTask k fun task => { task with begun := true })
  let error ← Co.tryCatch (do compact cfg topics content k; pure none : Work (Option CompactError))
    fun error => pure (some error)
  Co.modify (Archive.setTask k fun task => { task with done := true, error })
  Co.modify (Archive.onCompactDone k)

/-- `await task`. -/
def awaitTask (k : Nat) : Work Unit :=
  Co.attemptWhen (fun s => (s.task k).done) fun s =>
    match (s.task k).error with
    | none => (.ok (), s)
    | some error => (.error error, s)

/-- `with suppress(asyncio.CancelledError): await task`. -/
def awaitQuietly (k : Nat) : Work Unit :=
  Co.tryCatch (awaitTask k) fun error =>
    match error with
    | .cancelled => pure ()
    | .failed => Co.throw .failed

/-- `_trigger_compact`. -/
def triggerCompact (node : Nat) : Work Unit := Co.modify fun s => (s.startCompact node).2

/-- The second half of `compact_now`. -/
def compactOwn (node before : Nat) : Work Bool := do
  let k ← Co.atomic (Archive.startCompact node)
  let compacted ← Co.tryCatch (do awaitTask k; pure true : Work Bool) fun error =>
    match error with
    | .cancelled => Co.throw .cancelled
    | .failed => pure false
  match compacted with
  | false => pure false
  | true => do
      let boundary ← Co.read Archive.boundary
      pure (before < boundary)

/-- `compact_now`. -/
def compactNow (node : Nat) : Work Bool := do
  let before ← Co.read Archive.boundary
  match ← Co.read (Archive.live node) with
  | none => compactOwn node before
  | some k => do
      awaitQuietly k
      let boundary ← Co.read Archive.boundary
      if before < boundary then pure true else compactOwn node before

/-- `aclose`. -/
def aclose (node : Nat) : Work Unit := do
  match ← Co.atomic (Archive.dropRunning node) with
  | none => pure ()
  | some k => awaitQuietly k

/-! ## The compactors as a system -/

inductive CompactorCall where
  | trigger (node : Nat)
  | compactNow (node : Nat)
  | aclose (node : Nat)
  | compact (k : Nat) (topics : List String) (content : String)

def compactorBody (cfg : CompactorConfig) : CompactorCall → Nat → Work Unit
  | .trigger node, _ => triggerCompact node
  | .compactNow node, _ => do
      let _ ← compactNow node
      pure ()
  | .aclose node, _ => aclose node
  | .compact k topics content, _ => compactTask cfg topics content k

inductive CompactorEvent where
  | append (role : MessageRole) (content : String)
  | storeDown (down : Bool)
  | llmDown (down : Bool)
  | lose (k : Nat)

def compactorEvent : CompactorEvent → Archive → Option Archive
  | .append role content, s => some (s.append role content)
  | .storeDown down, s => some { s with storeDown := down }
  | .llmDown down, s => some { s with llmDown := down }
  | .lose k, s => some (s.setTask k fun task => { task with lost := true })

/-- A crash takes all processes; what is stored stays. -/
def compactors (cfg : CompactorConfig) : System Archive CompactError where
  Call := CompactorCall
  body := compactorBody cfg
  Event := CompactorEvent
  event := compactorEvent
  crash s := some { s with tasks := [], running := fun _ => none }

end Context
end OctoForge
