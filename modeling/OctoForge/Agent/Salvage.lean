import OctoForge.Agent.Prompts
import OctoForge.Dialog.Narrative
import OctoForge.Outbox.Flush
import OctoForge.Sequence.Places

/-!
# What runs leave in the narrative

A run works on its branch: the system message, the narrative as it was last
assembled for it, and behind that its own messages.  When it has ended, its
outcome goes into the message log and then into the narrative, from which the
branches of later runs are assembled.  The messages a run exchanged with its
tools are left out, so what does go in has to stand on its own.

The runs of a dialog go on beside each other, and a dialog can be read back from
its log at any moment (`Talk`).  `Step may` is a step in which only processes
with `may` are finalized; what the code does is `Step fun _ => True`.

The task rows, the usage ledger and the subscribers are left out here: nothing
of them enters a branch.
-/

namespace OctoForge
namespace Agent

open Coop
open Dialog (ExchangeId MessageRole MessageKind)
open Conversation (TaskId)

/-- A message of the narrative or of the log, and whose words it is. -/
structure Spoken where
  message : ChatMessage
  kind : MessageKind := .own
  deriving DecidableEq, Repr

/-! ## Branches -/

/-- The message as `render_branch` looks at it. -/
def Spoken.piece (e : Spoken) : Dialog.Piece :=
  .block
    { role := e.message.role
      content := e.message.content
      kind := e.kind
      exchangeId := e.message.exchangeId }

/-- `render_branch`: marks change the text of a message and nothing else. -/
def renderBranch (messages : List Spoken) (own : Option ExchangeId) (live : List ExchangeId) :
    List ChatMessage :=
  messages.zipIdx.filterMap fun (e, index) =>
    (Dialog.renderPiece own live (Dialog.taskIndex (messages.map Spoken.piece) own) e.piece index).map
      fun line => { e.message with content := line.mark.note e.message.content }

/-- `_with_date_envelope`. -/
def ChatMessage.dated (now : String) (m : ChatMessage) : ChatMessage where
  role := m.role
  content := "[Current date and time: " ++ now ++ " (UTC)]\n" ++ m.content
  toolCalls := m.toolCalls
  toolCallId := m.toolCallId

/-- `narrative[-1] = _with_date_envelope(narrative[-1])`, if there is one. -/
def datedLast (now : String) (messages : List ChatMessage) : List ChatMessage :=
  match messages.getLast? with
  | none => []
  | some last => messages.dropLast ++ [last.dated now]

/-- What an assemble depends on besides the narrative: the prompts, the topics of
what has been compacted, how much of the narrative that is, the exchanges other
runs owe, and the time. -/
structure Assembling where
  systemPrompt : String
  topics : Option String
  compacted : Nat
  live : List ExchangeId
  now : String

/-- `_assemble_narrative`, with the system message in front of it. -/
def Assembling.part (a : Assembling) (own : Option ExchangeId) (narrative : List Spoken) :
    List ChatMessage :=
  let topics := a.topics.toList.map fun text => { message := { role := .system, content := text } }
  let messages := renderBranch (topics ++ narrative.drop a.compacted) own a.live
  { role := .system, content := a.systemPrompt } :: datedLast a.now messages

/-! ## Processes -/

/-- `_Process`, with the run of its loop: `rest` is what is left of it.  `part` is
the branch up to `synced_len`; what comes behind it is `loop.own`. -/
structure Process where
  taskId : TaskId
  exchangeId : Option ExchangeId
  narrativeBuilt : Bool
  part : List ChatMessage
  llm : Nat → LlmStream
  maxIterations : Nat
  /-- Where the loop was started, the last time. -/
  origin : Loop
  loop : Loop
  rest : Work Unit
  asked : Bool := false
  overflowRetried : Bool := false
  terminal : LoopEvent := .failed "loop ended without a terminal event"
  /-- What has been persisted and is to enter the narrative. -/
  persisted : Option (List ChatMessage) := none

namespace Process

def branch (p : Process) : List ChatMessage := p.part ++ p.loop.own

/-- `_outgoing`, and `_muted_after_ask` for a run that has asked. -/
def outgoing (p : Process) : LoopEvent → Option LoopEvent
  | .finished message usage =>
      some (.finished (if p.asked then { message with content := "" } else message) usage)
  | .textDelta text => if p.asked then none else some (.textDelta text)
  | .reasoningDelta => if p.asked then none else some .reasoningDelta
  | event => some event

/-- `_stream_once` takes the event in. -/
def take (p : Process) (event : LoopEvent) : Process :=
  match p.outgoing event with
  | none => p
  | some out => if out.terminal then { p with terminal := out } else p

/-- What the loop has yielded since. -/
def news (p : Process) (loop : Loop) : List LoopEvent := loop.emitted.drop p.loop.emitted.length

/-- What it has sent since, as the provider sees it. -/
def requests (p : Process) (loop : Loop) : List (List ChatMessage) :=
  (loop.prompts.drop p.loop.prompts.length).map (p.part ++ ·)

/-- The loop has gone on. -/
def advance (p : Process) (loop : Loop) (rest : Work Unit) : Process :=
  { (p.news loop).foldl take p with loop, rest }

/-- `_sync_branch`, once the assemble has come back. -/
def sync (part : List ChatMessage) (p : Process) : Process :=
  if p.narrativeBuilt then { p with part } else p

/-- The loop starts once more on the same branch, under the same control. -/
def retry (llm : Nat → LlmStream) (p : Process) : Process :=
  let again : Loop :=
    { Loop.fresh p.loop.toolTimeout with own := p.loop.own, cancelled := p.loop.cancelled }
  { p with
    llm
    origin := again
    loop := again
    rest := runLoop llm p.maxIterations
    overflowRetried := true
    terminal := .failed "loop ended without a terminal event" }

/-- `_stream_terminal` has come back: a stream that raised has failed.  A pump that
is cancelled itself does not finalize. -/
def result (p : Process) : Option LoopEvent :=
  match p.rest with
  | .done _ => some p.terminal
  | .fail (.raised text) => some (.failed text)
  | .fail .assertionError => some (.failed "AssertionError")
  | .fail .contextOverflow => some (.failed "ContextOverflowError")
  | _ => none

/-- What `_salvage_interrupted_turn` looks through.  The `synced_len` of a process
whose branch is not built from the narrative stays 0. -/
def salvageable (p : Process) : List ChatMessage :=
  if p.narrativeBuilt then p.loop.own else p.branch

end Process

/-- `_latest_assistant_with_content`. -/
def latestAssistantWithContent (branch : List ChatMessage) : Option ChatMessage :=
  match branch.reverse.dropWhile fun m => m.role = .tool with
  | m :: _ => if m.role = .assistant ∧ m.content ≠ "" then some m else none
  | [] => none

/-- `_salvage_interrupted_turn`. -/
def Process.salvage (p : Process) : List ChatMessage :=
  match latestAssistantWithContent p.salvageable with
  | none => []
  | some last =>
      [{ last with taskId := some p.taskId },
        { role := .system, content := Dialog.interruptedNote }]

/-- What `_finalize` persists. -/
def Process.outcome (p : Process) : LoopEvent → List ChatMessage
  | .finished message _ =>
      if Outbox.blank message.content then []
      else [{ message with taskId := some p.taskId, exchangeId := p.exchangeId }]
  | .cancelled => p.salvage
  | _ => []

/-! ## The dialog -/

/-- A dialog and its runs.  `assembled` has what assembles have made of the
narrative of their moment, for any run that is to start or to sync.  `sent` has the
branches that have gone to the LLM; it is read by nothing. -/
structure Talk where
  narrative : List Spoken := []
  log : List Spoken := []
  assembled : List (List ChatMessage) := []
  processes : List Process := []
  sent : List (List ChatMessage) := []

namespace Talk

/-- A message of the user, or a notice: it is persisted and enters the narrative. -/
def say (role : MessageRole) (content : String) (kind : MessageKind)
    (exchangeId : Option ExchangeId) (s : Talk) : Talk :=
  let e : Spoken := { message := { role, content, exchangeId }, kind }
  { s with narrative := s.narrative ++ [e], log := s.log ++ [e] }

/-- `_reparent_material`, for one message. -/
def reparent (index : Nat) (target : ExchangeId) (s : Talk) : Talk :=
  { s with
    narrative := s.narrative.modify index fun e =>
      { e with message := { e.message with exchangeId := some target } } }

/-- `_trim_narrative`. -/
def trim (drop : Nat) (s : Talk) : Talk := { s with narrative := s.narrative.drop drop }

/-- Another owner reads the dialog back from its log. -/
def reload (compacted : Nat) (s : Talk) : Talk :=
  { s with narrative := s.log.drop compacted, processes := [] }

/-- `_assemble_narrative`. -/
def assemble (a : Assembling) (own : Option ExchangeId) (s : Talk) : Talk :=
  { s with assembled := s.assembled ++ [a.part own s.narrative] }

def create (p : Process) (s : Talk) : Talk := { s with processes := s.processes ++ [p] }

/-- A run that answers the user, or a background run with a prompt of its own. -/
def opened (taskId : TaskId) (exchangeId : Option ExchangeId) (narrativeBuilt : Bool)
    (part : List ChatMessage) (llm : Nat → LlmStream) (maxIterations toolTimeout : Nat) : Process :=
  { taskId, exchangeId, narrativeBuilt, part, llm, maxIterations,
    origin := .fresh toolTimeout
    loop := .fresh toolTimeout
    rest := runLoop llm maxIterations }

def startAnswer (part : List ChatMessage) (taskId : TaskId) (exchangeId : Option ExchangeId)
    (llm : Nat → LlmStream) (maxIterations toolTimeout : Nat) (s : Talk) : Talk :=
  s.create (opened taskId exchangeId true part llm maxIterations toolTimeout)

def startProcess (now prompt : String) (taskId : TaskId) (exchangeId : Option ExchangeId)
    (llm : Nat → LlmStream) (maxIterations toolTimeout : Nat) (s : Talk) : Talk :=
  let part : List ChatMessage :=
    [{ role := .system, content := Dialog.backgroundTaskPrompt },
      ChatMessage.dated now { role := .user, content := prompt }]
  s.create (opened taskId exchangeId false part llm maxIterations toolTimeout)

def update (i : Nat) (p : Process) (s : Talk) : Talk := { s with processes := s.processes.set i p }

/-- The loop of a process goes on. -/
def advance (i : Nat) (p : Process) (loop : Loop) (rest : Work Unit) (s : Talk) : Talk :=
  { s.update i (p.advance loop rest) with sent := s.sent ++ p.requests loop }

/-- The unit of work of `_finalize` commits. -/
def persist (i : Nat) (p : Process) (messages : List ChatMessage) (s : Talk) : Talk :=
  { s.update i { p with persisted := some messages } with
    log := s.log ++ messages.map fun message => { message } }

/-- The outcome enters the narrative, and the process is removed. -/
def settle (i : Nat) (messages : List ChatMessage) (s : Talk) : Talk :=
  { s with
    narrative := s.narrative ++ messages.map fun message => { message }
    processes := s.processes.eraseIdx i }

end Talk

/-- A step of the dialog. -/
inductive Step (may : Process → Prop) : Talk → Talk → Prop
  | say (role content kind exchangeId) (s : Talk) : Step may s (s.say role content kind exchangeId)
  | reparent (index target) (s : Talk) : Step may s (s.reparent index target)
  | trim (drop) (s : Talk) : Step may s (s.trim drop)
  | reload (compacted) (s : Talk) : Step may s (s.reload compacted)
  | assemble (a own) (s : Talk) : Step may s (s.assemble a own)
  | startAnswer (taskId exchangeId llm maxIterations toolTimeout) {s : Talk}
      {part : List ChatMessage} (hPart : part ∈ s.assembled) :
      Step may s (s.startAnswer part taskId exchangeId llm maxIterations toolTimeout)
  | startProcess (now prompt taskId exchangeId llm maxIterations toolTimeout) (s : Talk) :
      Step may s (s.startProcess now prompt taskId exchangeId llm maxIterations toolTimeout)
  | advance {s : Talk} {i : Nat} {p : Process} {steps : List (Loop × Loop)} {loop : Loop}
      {rest : Work Unit} (hGet : s.processes[i]? = some p)
      (hTrace : Co.Trace Surroundings p.rest p.loop steps rest loop) :
      Step may s (s.advance i p loop rest)
  | sync {s : Talk} {i : Nat} {p : Process} {part : List ChatMessage}
      (hGet : s.processes[i]? = some p) (hPart : part ∈ s.assembled) :
      Step may s (s.update i (p.sync part))
  | ask {s : Talk} {i : Nat} {p : Process} (hGet : s.processes[i]? = some p) :
      Step may s (s.update i { p with asked := true })
  | retry (llm) {s : Talk} {i : Nat} {p : Process} (hGet : s.processes[i]? = some p)
      (hOverflow : p.rest = .fail .contextOverflow) (hBuilt : p.narrativeBuilt = true)
      (hFirst : p.overflowRetried = false) : Step may s (s.update i (p.retry llm))
  | persist {s : Talk} {i : Nat} {p : Process} {terminal : LoopEvent}
      (hGet : s.processes[i]? = some p) (hResult : p.result = some terminal)
      (hNew : p.persisted = none) (hMay : may p) :
      Step may s (s.persist i p (p.outcome terminal))
  | settle {s : Talk} {i : Nat} {p : Process} {messages : List ChatMessage}
      (hGet : s.processes[i]? = some p) (hPersisted : p.persisted = some messages) :
      Step may s (s.settle i messages)
  /-- Finalization failed, or the pump was cancelled. -/
  | remove (i) (s : Talk) : Step may s { s with processes := s.processes.eraseIdx i }

/-! ## Call-free messages -/

def CallFree (messages : List ChatMessage) : Prop := ∀ m ∈ messages, m.toolCalls = []

def SpokenFree (messages : List Spoken) : Prop := ∀ e ∈ messages, e.message.toolCalls = []

theorem SpokenFree.append {messages more : List Spoken} (hFirst : SpokenFree messages)
    (hSecond : SpokenFree more) : SpokenFree (messages ++ more) := by
  intro e hMem
  rcases List.mem_append.mp hMem with hMem | hMem
  · exact hFirst e hMem
  · exact hSecond e hMem

theorem SpokenFree.drop {messages : List Spoken} (hFree : SpokenFree messages) (count : Nat) :
    SpokenFree (messages.drop count) := fun e hMem => hFree e (List.mem_of_mem_drop hMem)

theorem CallFree.spoken {messages : List ChatMessage} (hFree : CallFree messages) :
    SpokenFree (messages.map fun message => { message }) := by
  intro e hMem
  obtain ⟨m, hHere, rfl⟩ := List.mem_map.mp hMem
  exact hFree m hHere

/-- A mark does not give a message calls. -/
theorem SpokenFree.render {messages : List Spoken} (hFree : SpokenFree messages)
    (own : Option ExchangeId) (live : List ExchangeId) :
    CallFree (renderBranch messages own live) := by
  intro m hMem
  obtain ⟨⟨e, index⟩, hHere, hLine⟩ := List.mem_filterMap.mp hMem
  obtain ⟨line, -, rfl⟩ := Option.map_eq_some_iff.mp hLine
  have hGet := List.mem_zipIdx_iff_getElem?.mp hHere
  exact hFree e (List.mem_of_getElem? hGet)

theorem CallFree.dated {messages : List ChatMessage} (hFree : CallFree messages) (now : String) :
    CallFree (datedLast now messages) := by
  unfold datedLast
  split
  · exact fun m hMem => by simp at hMem
  · rename_i last hLast
    intro m hMem
    rcases List.mem_append.mp hMem with hMem | hMem
    · exact hFree m (List.dropLast_subset _ hMem)
    · obtain rfl := List.mem_singleton.mp hMem
      exact hFree last (List.mem_of_getLast? hLast)

theorem SpokenFree.part {narrative : List Spoken} (hFree : SpokenFree narrative) (a : Assembling)
    (own : Option ExchangeId) : CallFree (a.part own narrative) := by
  have hTopics : SpokenFree (a.topics.toList.map fun text =>
      { message := { role := .system, content := text } }) := by
    intro e hMem
    obtain ⟨text, -, rfl⟩ := List.mem_map.mp hMem
    rfl
  intro m hMem
  rcases List.mem_cons.mp hMem with rfl | hMem
  · rfl
  · exact ((hTopics.append (hFree.drop a.compacted)).render own a.live).dated a.now m hMem

/-! ## The invariant -/

/-- What holds of a process. -/
structure Process.Proper (p : Process) : Prop where
  part : CallFree p.part
  started : Sound p.origin ∧ ValidTranscript p.origin.own
  run : ∃ steps, Co.Trace Surroundings (runLoop p.llm p.maxIterations) p.origin steps p.rest p.loop
  terminal : ∀ m usage, p.terminal = .finished m usage → m.toolCalls = []
  persisted : ∀ messages, p.persisted = some messages → CallFree messages

/-- No message of the narrative and the log carries calls, and everything that has
been sent is a valid transcript. -/
structure Talk.Valid (s : Talk) : Prop where
  narrative : SpokenFree s.narrative
  log : SpokenFree s.log
  sent : ∀ branch ∈ s.sent, ValidTranscript branch

structure Talk.Proper (s : Talk) : Prop extends s.Valid where
  assembled : ∀ part ∈ s.assembled, CallFree part
  processes : ∀ p ∈ s.processes, p.Proper

/-- The turn a cancelled run would leave has no calls: its newest message with a
text, behind the tool replies, called no tool. -/
def Process.Salvageable (p : Process) : Prop :=
  p.result = some .cancelled →
    ∀ last, latestAssistantWithContent p.salvageable = some last → last.toolCalls = []

theorem Process.Proper.take {p : Process} {event : LoopEvent}
    (hTerminal : ∀ m usage, p.terminal = .finished m usage → m.toolCalls = [])
    (hEvent : ∀ m usage, event = .finished m usage → m.toolCalls = []) :
    ∀ m usage, (p.take event).terminal = .finished m usage → m.toolCalls = [] := by
  unfold Process.take
  split
  · exact hTerminal
  · rename_i out hOut
    split
    · rintro m usage rfl
      cases event with
      | finished message used =>
          simp only [Process.outgoing, Option.some.injEq, LoopEvent.finished.injEq] at hOut
          have hFree := hEvent message used rfl
          rw [← hOut.1]
          split
          · exact hFree
          · exact hFree
      | textDelta text => simp [Process.outgoing] at hOut
      | reasoningDelta => simp [Process.outgoing] at hOut
      | _ => simp [Process.outgoing] at hOut
    · exact hTerminal

theorem foldl_take_fields (p : Process) (events : List LoopEvent) :
    (events.foldl Process.take p).part = p.part ∧ (events.foldl Process.take p).llm = p.llm ∧
      (events.foldl Process.take p).maxIterations = p.maxIterations ∧
      (events.foldl Process.take p).origin = p.origin ∧
      (events.foldl Process.take p).persisted = p.persisted := by
  induction events generalizing p with
  | nil => exact ⟨rfl, rfl, rfl, rfl, rfl⟩
  | cons event rest ih =>
      rw [List.foldl_cons]
      obtain ⟨hPart, hLlm, hMax, hOrigin, hPersisted⟩ := ih (p.take event)
      have hTake : (p.take event).part = p.part ∧ (p.take event).llm = p.llm ∧
          (p.take event).maxIterations = p.maxIterations ∧ (p.take event).origin = p.origin ∧
          (p.take event).persisted = p.persisted := by
        unfold Process.take
        split
        · exact ⟨rfl, rfl, rfl, rfl, rfl⟩
        · split
          · exact ⟨rfl, rfl, rfl, rfl, rfl⟩
          · exact ⟨rfl, rfl, rfl, rfl, rfl⟩
      exact ⟨hPart.trans hTake.1, hLlm.trans hTake.2.1, hMax.trans hTake.2.2.1,
        hOrigin.trans hTake.2.2.2.1, hPersisted.trans hTake.2.2.2.2⟩

theorem foldl_take_terminal {p : Process} {events : List LoopEvent}
    (hTerminal : ∀ m usage, p.terminal = .finished m usage → m.toolCalls = [])
    (hEvents : ∀ m usage, LoopEvent.finished m usage ∈ events → m.toolCalls = []) :
    ∀ m usage, (events.foldl Process.take p).terminal = .finished m usage → m.toolCalls = [] := by
  induction events generalizing p with
  | nil => exact hTerminal
  | cons event rest ih =>
      refine ih (Process.Proper.take hTerminal ?_) fun m usage hMem => ?_
      · rintro m usage rfl
        exact hEvents m usage List.mem_cons_self
      · exact hEvents m usage (List.mem_cons_of_mem _ hMem)

/-- The loop has gone on: what it has sent by then is valid, too. -/
theorem Process.Proper.advance {p : Process} (hProper : p.Proper) {loop : Loop} {rest : Work Unit}
    {steps : List (Loop × Loop)} (hTrace : Co.Trace Surroundings p.rest p.loop steps rest loop) :
    (p.advance loop rest).Proper ∧ ∀ branch ∈ p.requests loop, ValidTranscript branch := by
  obtain ⟨before, hBefore⟩ := hProper.run
  have hWhole := hBefore.trans hTrace
  have hSound := sound_trace hProper.started.1 hProper.started.2 hWhole
  obtain ⟨hPart, hLlm, hMax, hOrigin, hPersisted⟩ := foldl_take_fields p (p.news loop)
  refine ⟨⟨?_, ?_, ?_, ?_, ?_⟩, fun branch hMem => ?_⟩
  · show CallFree ((p.news loop).foldl Process.take p).part
    rw [hPart]
    exact hProper.part
  · show Sound ((p.news loop).foldl Process.take p).origin ∧
      ValidTranscript ((p.news loop).foldl Process.take p).origin.own
    rw [hOrigin]
    exact hProper.started
  · refine ⟨before ++ steps, ?_⟩
    show Co.Trace Surroundings (runLoop ((p.news loop).foldl Process.take p).llm
      ((p.news loop).foldl Process.take p).maxIterations)
      ((p.news loop).foldl Process.take p).origin _ rest loop
    rw [hLlm, hMax, hOrigin]
    exact hWhole
  · exact foldl_take_terminal hProper.terminal fun m usage hMem =>
      hSound.2.1 m usage (List.mem_of_mem_drop hMem)
  · show ∀ messages, ((p.news loop).foldl Process.take p).persisted = some messages → CallFree messages
    rw [hPersisted]
    exact hProper.persisted
  · obtain ⟨prompt, hHere, rfl⟩ := List.mem_map.mp hMem
    exact (valid_of_callFree hProper.part).append (hSound.1 prompt (List.mem_of_mem_drop hHere))

/-- After an overflow the turns so far are whole, and the loop starts behind them. -/
theorem Process.Proper.retry {p : Process} (hProper : p.Proper) (llm : Nat → LlmStream)
    (hOverflow : p.rest = .fail .contextOverflow) : (p.retry llm).Proper := by
  obtain ⟨steps, hTrace⟩ := hProper.run
  rw [hOverflow] at hTrace
  have hEnded : Co.Trace Surroundings (runLoop p.llm p.maxIterations) p.origin steps
      (Co.ended (.error .contextOverflow)) p.loop := hTrace
  have hOwn : ValidTranscript p.loop.own :=
    (sends_iterate p.llm 0 p.maxIterations).trace_left (fun _ _ hInv hStep => hInv.beside hStep)
      hProper.started.1 hProper.started.2 hEnded rfl
  refine ⟨hProper.part, ⟨⟨?_, ?_, ?_⟩, hOwn⟩, ⟨[], .stop _ _⟩, ?_, hProper.persisted⟩
  · simp [Process.retry, Loop.fresh]
  · simp [Process.retry, Loop.fresh]
  · simp [Process.retry, Loop.fresh]
  · simp [Process.retry]

theorem opened_proper {part : List ChatMessage} (hPart : CallFree part) (taskId : TaskId)
    (exchangeId : Option ExchangeId) (narrativeBuilt : Bool) (llm : Nat → LlmStream)
    (maxIterations toolTimeout : Nat) :
    (Talk.opened taskId exchangeId narrativeBuilt part llm maxIterations toolTimeout).Proper := by
  refine ⟨hPart, ⟨⟨?_, ?_, ?_⟩, ?_⟩, ⟨[], .stop _ _⟩, ?_, ?_⟩
  · simp [Talk.opened, Loop.fresh]
  · simp [Talk.opened, Loop.fresh]
  · simp [Talk.opened, Loop.fresh]
  · exact valid_of_callFree fun m hMem => by simp [Talk.opened, Loop.fresh] at hMem
  · simp [Talk.opened]
  · simp [Talk.opened]

/-- What is persisted carries no calls, if the salvaged turn has none. -/
theorem Process.Proper.outcome {p : Process} (hProper : p.Proper) {terminal : LoopEvent}
    (hResult : p.result = some terminal) (hMay : p.Salvageable) : CallFree (p.outcome terminal) := by
  cases terminal with
  | finished message usage =>
      have hFree : message.toolCalls = [] := by
        unfold Process.result at hResult
        split at hResult
        · exact hProper.terminal message usage (Option.some.inj hResult)
        all_goals simp at hResult
      simp only [Process.outcome]
      split
      · exact fun m hMem => by simp at hMem
      · intro m hMem
        obtain rfl := List.mem_singleton.mp hMem
        exact hFree
  | cancelled =>
      simp only [Process.outcome, Process.salvage]
      split
      · exact fun m hMem => by simp at hMem
      · rename_i last hLast
        intro m hMem
        rcases List.mem_cons.mp hMem with rfl | hMem
        · exact hMay hResult last hLast
        · obtain rfl := List.mem_singleton.mp hMem
          rfl
  | _ => exact fun m hMem => by simp [Process.outcome] at hMem

/-! ## The steps -/

theorem Talk.Proper.update {s : Talk} (hProper : s.Proper) {i : Nat} {p : Process}
    (hProcess : p.Proper) : (s.update i p).Proper :=
  { hProper with
    processes := Sequence.forall_mem_set hProper.processes hProcess }

theorem Talk.Proper.create {s : Talk} (hProper : s.Proper) {p : Process} (hProcess : p.Proper) :
    (s.create p).Proper :=
  { hProper with
    processes := fun q hMem => (List.mem_append.mp hMem).elim (hProper.processes q)
      fun hLast => List.mem_singleton.mp hLast ▸ hProcess }

theorem Step.proper {s s' : Talk} (hStep : Step Process.Salvageable s s') (hProper : s.Proper) :
    s'.Proper := by
  cases hStep with
  | say role content kind exchangeId =>
      have hSaid : SpokenFree [{ message := { role, content, exchangeId }, kind }] := by
        intro e hMem
        obtain rfl := List.mem_singleton.mp hMem
        rfl
      exact { hProper with
        narrative := hProper.narrative.append hSaid
        log := hProper.log.append hSaid }
  | reparent index target =>
      refine { hProper with narrative := fun e hMem => ?_ }
      obtain ⟨n, hGet⟩ := List.getElem?_of_mem hMem
      have hModified : (s.narrative.modify index _)[n]? = some e := hGet
      rw [List.getElem?_modify] at hModified
      obtain ⟨e', hGet', rfl⟩ := Option.map_eq_some_iff.mp hModified
      have hFree := hProper.narrative e' (List.mem_of_getElem? hGet')
      split
      · exact hFree
      · exact hFree
  | trim drop => exact { hProper with narrative := hProper.narrative.drop drop }
  | reload compacted =>
      exact { hProper with
        narrative := hProper.log.drop compacted
        processes := fun p hMem => by simp [Talk.reload] at hMem }
  | assemble a own =>
      exact { hProper with
        assembled := fun part hMem => (List.mem_append.mp hMem).elim (hProper.assembled part)
          fun hLast => List.mem_singleton.mp hLast ▸ hProper.narrative.part a own }
  | startAnswer taskId exchangeId llm maxIterations toolTimeout hPart =>
      exact hProper.create (opened_proper (hProper.assembled _ hPart) _ _ _ _ _ _)
  | startProcess now prompt taskId exchangeId llm maxIterations toolTimeout =>
      refine hProper.create (opened_proper (fun m hMem => ?_) _ _ _ _ _ _)
      rcases List.mem_cons.mp hMem with rfl | hMem
      · rfl
      · obtain rfl := List.mem_singleton.mp hMem
        rfl
  | @advance _ i p steps loop rest hGet hTrace =>
      obtain ⟨hProcess, hSent⟩ := (hProper.processes p (List.mem_of_getElem? hGet)).advance hTrace
      exact { hProper.update hProcess with
        sent := fun branch hMem => (List.mem_append.mp hMem).elim (hProper.sent branch)
          (hSent branch) }
  | @sync _ i p part hGet hPart =>
      have hProcess := hProper.processes p (List.mem_of_getElem? hGet)
      refine hProper.update ?_
      unfold Process.sync
      split
      · exact { hProcess with part := hProper.assembled part hPart }
      · exact hProcess
  | @ask _ i p hGet =>
      have hProcess := hProper.processes p (List.mem_of_getElem? hGet)
      exact hProper.update { hProcess with part := hProcess.part }
  | @retry llm _ i p hGet hOverflow hBuilt hFirst =>
      exact hProper.update
        ((hProper.processes p (List.mem_of_getElem? hGet)).retry llm hOverflow)
  | @persist _ i p terminal hGet hResult hNew hMay =>
      have hProcess := hProper.processes p (List.mem_of_getElem? hGet)
      -- An outcome that may be stored carries no tool calls.
      have hFree := hProcess.outcome hResult hMay
      refine { hProper.update (i := i) (p := { p with persisted := some (p.outcome terminal) })
        { hProcess with persisted := ?_ } with log := hProper.log.append hFree.spoken }
      intro messages hSome
      obtain rfl := Option.some.inj hSome
      exact hFree
  | @settle _ i p messages hGet hPersisted =>
      have hFree := (hProper.processes p (List.mem_of_getElem? hGet)).persisted messages hPersisted
      exact { hProper with
        narrative := hProper.narrative.append hFree.spoken
        processes := fun q hMem => hProper.processes q (List.mem_of_mem_eraseIdx hMem) }
  | remove i =>
      exact { hProper with
        processes := fun q hMem => hProper.processes q (List.mem_of_mem_eraseIdx hMem) }

/-- Whatever is said, in whatever order the runs of a dialog go on, overflow, end
and are cancelled: as long as no cancelled run is finalized whose newest message
with a text had calls, the narrative and the log stay free of calls, and every
branch that is sent is a valid transcript. -/
theorem narrative_stays_valid {t : Talk}
    (hReach : Relation.ReflTransGen (Step Process.Salvageable) {} t) : t.Valid := by
  have hProper : t.Proper := by
    induction hReach with
    | refl =>
        exact ⟨⟨fun _ hMem => by simp at hMem, fun _ hMem => by simp at hMem,
          fun _ hMem => by simp at hMem⟩, fun _ hMem => by simp at hMem, fun _ hMem => by simp at hMem⟩
    | tail _ hStep ih => exact hStep.proper ih
  exact hProper.toValid

/-- A text and a call, and then nothing comes any more. -/
def looksItUp : LlmStream :=
  { events := [.textDelta "Let me look.", .toolCallReady { id := "x", name := "weather" }]
    ending := .stalls }

def firstAssemble : Assembling :=
  { systemPrompt := "Be brief.", topics := none, compacted := 0, live := [], now := "July 29" }

/-- The user has asked, and a run is about to start. -/
def questionAsked : Talk :=
  (Talk.say .user "How is the weather?" .own (some 0) {}).assemble firstAssemble (some 0)

def firstRun : Process :=
  Talk.opened 1 (some 0) true (firstAssemble.part (some 0) (questionAsked.narrative))
    (fun _ => looksItUp) 1 180

/-- The run is finalized: its outcome is in the log and in the narrative. -/
theorem reaches_settled (may : Process → Prop) {steps : List (Loop × Loop)} {loop : Loop}
    {terminal : LoopEvent}
    (hTrace : Co.Trace Surroundings (runLoop (fun _ => looksItUp) 1) (.fresh 180) steps (.done ()) loop)
    (hTerminal : (firstRun.advance loop (.done ())).terminal = terminal)
    (hMay : may (firstRun.advance loop (.done ()))) :
    ∃ t, Relation.ReflTransGen (Step may) {} t ∧
      t.narrative = questionAsked.narrative ++
        ((firstRun.advance loop (.done ())).outcome terminal).map
          fun message => ({ message } : Spoken) := by
  let p := firstRun.advance loop (.done ())
  have hStarted : Relation.ReflTransGen (Step may) {} (questionAsked.create firstRun) :=
    ((Relation.ReflTransGen.single (.say _ _ _ _ _)).tail (.assemble _ _ _)).tail
      (.startAnswer 1 (some 0) (fun _ => looksItUp) 1 180 List.mem_cons_self)
  have hRun : Relation.ReflTransGen (Step may) {}
      ((questionAsked.create firstRun).advance 0 firstRun loop (.done ())) :=
    hStarted.tail (.advance rfl hTrace)
  have hPersisted : Relation.ReflTransGen (Step may) {}
      (((questionAsked.create firstRun).advance 0 firstRun loop (.done ())).persist 0 p
        (p.outcome terminal)) := by
    refine hRun.tail (.persist rfl ?_ ?_ hMay)
    · exact congrArg some hTerminal
    · exact (foldl_take_fields firstRun (firstRun.news loop)).2.2.2.2
  have hGet : (((questionAsked.create firstRun).advance 0 firstRun loop (.done ())).persist 0 p
      (p.outcome terminal)).processes[0]? = some { p with persisted := some (p.outcome terminal) } :=
    rfl
  exact ⟨_, hPersisted.tail (.settle hGet rfl), rfl⟩

/-- The run is stopped before its tool call has come. -/
theorem narrative_valid_after_early_stop :
    ∃ t, Relation.ReflTransGen (Step Process.Salvageable) {} t ∧
      t.narrative.map (·.message.content) =
        ["How is the weather?", "Let me look.", Dialog.interruptedNote] ∧ t.Valid := by
  have hTraces : (traceUnder
      (List.flatten [undisturbed 4, [[.arrive]], undisturbed 4, [[.cancel, .watch]]])
      (runLoop (fun _ => looksItUp) 1) (.fresh 180)).map
        (fun (_, r, t) => (r.isOk, t.emitted, t.own)) =
      some (true, [.iterationStarted 0, .textDelta "Let me look.",
          .assistantMessage (.assistant "Let me look." []) true none, .cancelled],
        [.assistant "Let me look." []]) := by
    decide +kernel
  obtain ⟨steps, r, loop, hTrace, hSeen⟩ := trace_of_traceUnder _ hTraces
  obtain ⟨hOk, hEmitted, hOwn⟩ : r.isOk = true ∧ loop.emitted = _ ∧ loop.own = _ := by
    simpa using hSeen
  cases r with
  | error error => simp [Except.isOk, Except.toBool] at hOk
  | ok value =>
      have hAdvance : firstRun.advance loop (.done ()) =
          { firstRun with loop, rest := .done (), terminal := .cancelled } := by
        rw [Process.advance, Process.news, hEmitted]
        rfl
      -- What is salvaged is the text so far, without a call.
      have hOutcome : (firstRun.advance loop (.done ())).outcome .cancelled =
          [{ ChatMessage.assistant "Let me look." [] with taskId := some 1 },
            { role := .system, content := Dialog.interruptedNote }] := by
        rw [hAdvance]
        simp only [Process.outcome, Process.salvage, Process.salvageable, hOwn]
        rfl
      obtain ⟨t, hReach, hNarrative⟩ := reaches_settled Process.Salvageable hTrace
        (by rw [hAdvance]) fun _ last hLast => by
          rw [hAdvance] at hLast
          simp only [Process.salvageable, hOwn] at hLast
          obtain rfl := Option.some.inj hLast
          rfl
      refine ⟨t, hReach, ?_, narrative_stays_valid hReach⟩
      rw [hNarrative, hOutcome]
      rfl

/-- The run is stopped while its tool is running: the message that called the tool
is in the narrative, and the reply is not. -/
theorem salvaged_turn_keeps_calls :
    ∃ t, Relation.ReflTransGen (Step fun _ => True) {} t ∧
      t.narrative.map (·.message.toolCalls) = [[], [{ id := "x", name := "weather" }], []] ∧
      ¬t.Valid := by
  have hTraces : (traceUnder
      (List.flatten [undisturbed 4, [[.arrive]], undisturbed 4, [[.arrive]], undisturbed 4,
        [[.cancel, .watch]]])
      (runLoop (fun _ => looksItUp) 1) (.fresh 180)).map
        (fun (_, r, t) => (r.isOk, t.emitted, t.own)) =
      some (true, [.iterationStarted 0, .textDelta "Let me look.",
          .toolCallRequested { id := "x", name := "weather" },
          .assistantMessage (.assistant "Let me look." [{ id := "x", name := "weather" }]) true none,
          .cancelled],
        [.assistant "Let me look." [{ id := "x", name := "weather" }],
          { role := .tool, content := cancelledOutput, toolCallId := some "x" }]) := by
    decide +kernel
  obtain ⟨steps, r, loop, hTrace, hSeen⟩ := trace_of_traceUnder _ hTraces
  obtain ⟨hOk, hEmitted, hOwn⟩ : r.isOk = true ∧ loop.emitted = _ ∧ loop.own = _ := by
    simpa using hSeen
  cases r with
  | error error => simp [Except.isOk, Except.toBool] at hOk
  | ok value =>
      -- The process takes over what the loop has emitted, and is settled as a cancelled one.
      have hAdvance : firstRun.advance loop (.done ()) =
          { firstRun with loop, rest := .done (), terminal := .cancelled } := by
        rw [Process.advance, Process.news, hEmitted]
        rfl
      obtain ⟨t, hReach, hNarrative⟩ := reaches_settled (fun _ => True) hTrace
        (by rw [hAdvance]) trivial
      have hCalls : t.narrative.map (·.message.toolCalls) =
          [[], [{ id := "x", name := "weather" }], []] := by
        rw [hNarrative, hAdvance]
        simp only [Process.outcome, Process.salvage, Process.salvageable, hOwn]
        rfl
      refine ⟨t, hReach, hCalls, fun hValid => ?_⟩
      have hMem : [{ id := "x", name := "weather" }] ∈ t.narrative.map (·.message.toolCalls) := by
        rw [hCalls]
        decide
      obtain ⟨e, hHere, hEq⟩ := List.mem_map.mp hMem
      rw [hValid.narrative e hHere] at hEq
      simp at hEq

end Agent
end OctoForge
