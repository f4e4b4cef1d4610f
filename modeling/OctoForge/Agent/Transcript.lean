import OctoForge.Agent.Turns
import OctoForge.Sequence.Places

/-!
# The transcript of a run

A provider rejects a prompt in which an assistant message with tool calls is not
followed by one reply to each of them.  The loop appends the message and later,
in one piece, the replies; in between the run waits for its tools.  So at every
moment what the loop has appended is a list of whole turns, but for one message
at the end that may still be waiting (`Recorded`).
-/

namespace OctoForge
namespace Agent

open Coop

/-! ## What the streams may look like -/

/-- The calls a stream announces, ready or broken. -/
def announced (events : List StreamEvent) : List ToolCall :=
  events.filterMap fun
    | .toolCallReady call => some call
    | .toolCallBroken _ callId name _ _ => some { id := callId, name, arguments := [] }
    | _ => none

/-- No two calls of the stream share an id, and where calls are announced, the
calls of the final message are among them. -/
structure LlmStream.Distinct (stream : LlmStream) : Prop where
  announced : ((announced stream.events).map (·.id)).Nodup
  finals : ∀ content calls usage, .streamFinished content calls usage ∈ stream.events →
    (calls.map (·.id)).Nodup
  covered : ∀ content calls usage, .streamFinished content calls usage ∈ stream.events →
    Agent.announced stream.events = [] ∨ ∀ call ∈ calls, call ∈ Agent.announced stream.events

theorem announced_append (events more : List StreamEvent) :
    announced (events ++ more) = announced events ++ announced more := by
  simp [announced]

/-- The final message the pump has in hand came with the stream. -/
theorem finalMessage_foldl {events : List StreamEvent} {state : AssistantStreamState}
    {m : ChatMessage} (hFinal : (events.foldl AssistantStreamState.note state).finalMessage = some m) :
    state.finalMessage = some m ∨ ∃ content calls usage,
      .streamFinished content calls usage ∈ events ∧ m = .assistant content calls := by
  induction events generalizing state with
  | nil => exact Or.inl hFinal
  | cons event rest ih =>
      rcases ih hFinal with hHere | ⟨content, calls, usage, hMem, rfl⟩
      · cases event with
        | streamFinished content calls usage =>
            obtain rfl := Option.some.inj hHere
            exact Or.inr ⟨content, calls, usage, List.mem_cons_self, rfl⟩
        | _ => exact Or.inl hHere
      · exact Or.inr ⟨content, calls, usage, List.mem_cons_of_mem _ hMem, rfl⟩

/-! ## The invariant -/

/-- Whole turns, and maybe one more message whose replies are still missing. -/
def Recording (runs : List ToolRun) (own : List ChatMessage) : Prop :=
  ∃ k turns, Turns runs k turns ∧ (own = turns ∨ ∃ m, own = turns ++ [m] ∧ m.role = .assistant)

/-- What holds at every moment of a run. -/
def Recorded (s : Loop) : Prop :=
  s.Coherent ∧ Recording s.runs s.own ∧ (∀ prompt ∈ s.prompts, ∃ k, Turns s.runs k prompt) ∧
    (s.watched = true → s.cancelled = true)

theorem Recording.kept {runs runs' : List ToolRun} {own : List ChatMessage}
    (hRecording : Recording runs own) (hKept : Kept runs runs') : Recording runs' own := by
  obtain ⟨k, turns, hTurns, hOwn⟩ := hRecording
  exact ⟨k, turns, hTurns.kept hKept, hOwn⟩

/-- The runs have gone on, and the tracker with them. -/
theorem Recorded.onward {s s' : Loop} (hInv : Recorded s) (hBooks : s'.Coherent)
    (hKept : Kept s.runs s'.runs) (hOwn : s'.own = s.own) (hPrompts : s'.prompts = s.prompts)
    (hWatched : s'.watched = true → s'.cancelled = true) : Recorded s' := by
  refine ⟨hBooks, ?_, ?_, hWatched⟩
  · rw [hOwn]
    exact hInv.2.1.kept hKept
  · rw [hPrompts]
    intro prompt hMem
    obtain ⟨k, hTurns⟩ := hInv.2.2.1 prompt hMem
    exact ⟨k, hTurns.kept hKept⟩

theorem Recorded.beside {s s' : Loop} (hInv : Recorded s) (hStep : Surroundings s s') :
    Recorded s' := by
  have hBeside := hStep.beside
  refine hInv.onward (hBeside.coherent hInv.1) hBeside.kept hBeside.own hBeside.prompts ?_
  intro hWatched
  rcases hBeside.watched hWatched with hBefore | hCancelled
  · exact hBeside.cancelled (hInv.2.2.2 hBefore)
  · exact hCancelled

/-- The contracts of this module: nothing is said about errors. -/
abbrev Keeps {α : Type} (A : Loop → Prop) (c : Work α) (B : α → Loop → Prop) : Prop :=
  Co.Contract Recorded Surroundings A c B fun _ _ => True

/-- An assertion the surroundings do not break. -/
abbrev Steady (A : Loop → Prop) : Prop := Undisturbed Recorded Surroundings A

/-! ## Assertions -/

/-- Between two iterations. -/
def Settled (s : Loop) : Prop := Turns s.runs s.iterations s.own

/-- While the LLM streams: the turn of this iteration is still to come. -/
def Streaming (s : Loop) : Prop := ∃ k, s.iterations = k + 1 ∧ Turns s.runs k s.own

/-- While the tools of the message are waited for. -/
def Dangling (m : ChatMessage) (s : Loop) : Prop :=
  ∃ k turns, s.iterations = k + 1 ∧ s.own = turns ++ [m] ∧ Turns s.runs k turns ∧
    m.role = .assistant

theorem steady_streaming : Steady Streaming := by
  rintro s s' - - hStep ⟨k, hIterations, hTurns⟩
  have hBeside := hStep.beside
  exact ⟨k, hBeside.iterations.trans hIterations, by
    rw [hBeside.own]
    exact hTurns.kept hBeside.kept⟩

theorem steady_settled : Steady Settled := by
  intro s s' _ _ hStep hTurns
  have hBeside := hStep.beside
  rw [Settled, hBeside.iterations, hBeside.own]
  exact hTurns.kept hBeside.kept

theorem steady_dangling (m : ChatMessage) : Steady (Dangling m) := by
  rintro s s' - - hStep ⟨k, turns, hIterations, hOwn, hTurns, hRole⟩
  have hBeside := hStep.beside
  exact ⟨k, turns, hBeside.iterations.trans hIterations, hBeside.own.trans hOwn,
    hTurns.kept hBeside.kept, hRole⟩

theorem steady_quiet : Steady Loop.Quiet := by
  intro s s' _ _ hStep hQuiet
  have hBeside := hStep.beside
  rcases hBeside.runs with ⟨hOlder, hTracker⟩ | ⟨n, run, r, hRun, hNot, -, rfl⟩
  · refine ⟨by rw [hTracker]; exact hQuiet.1, fun m run' hRun' hIteration => ?_⟩
    obtain ⟨run, hRun, hAges⟩ := hOlder.get_back hRun'
    have hEnded := hQuiet.2 m run hRun (by rw [← hAges.1, hIteration, hBeside.iterations])
    rw [hAges.ended hEnded, hEnded]
  · -- the run that lands was left behind by an earlier iteration
    have hOther : run.iteration ≠ s.iterations := by
      intro hIteration
      rw [hQuiet.2 n run hRun hIteration] at hNot
      exact absurd hNot (by decide)
    refine ⟨?_, fun m run' hRun' hIteration => ?_⟩
    · show (ite _ _ _ : Tracker).queue = []
      rw [if_neg hOther]
      exact hQuiet.1
    · have hGet : (s.runs.set n _)[m]? = some run' := hRun'
      rcases Sequence.getElem?_set_cases hGet with ⟨-, rfl⟩ | ⟨-, hOld⟩
      · rfl
      · exact hQuiet.2 m run' hOld hIteration

/-! ## Yields and aborts -/

/-- What is said about the loop, but not about what it has yielded. -/
def Loose (A : Loop → Prop) : Prop :=
  Steady A ∧ ∀ s emitted slips, A s → A { s with emitted, slips }

theorem Loose.leave {A : Loop → Prop} (hLoose : Loose A) {s : Loop} (slip : Slip) (hA : A s) :
    A (s.leave slip) := by
  rcases leave_cases s slip with hEq | hEq
  · rw [hEq]
    exact hA
  · rw [hEq]
    exact hLoose.2 s s.emitted _ hA

theorem Loose.and {A A' : Loop → Prop} (hLoose : Loose A) (hLoose' : Loose A') :
    Loose fun s => A s ∧ A' s :=
  ⟨hLoose.1.and hLoose'.1, fun s emitted slips hBoth =>
    ⟨hLoose.2 s emitted slips hBoth.1, hLoose'.2 s emitted slips hBoth.2⟩⟩

theorem recorded_leave {s : Loop} (slip : Slip) (hInv : Recorded s) : Recorded (s.leave slip) := by
  rcases leave_cases s slip with hEq | hEq
  · rw [hEq]
    exact hInv
  · rw [hEq]
    exact hInv

theorem keeps_resumed {A : Loop → Prop} (hLoose : Loose A) : Keeps A resumed fun _ => A := by
  refine Co.contract_attempt hLoose.1 fun s hInv hA => ?_
  split
  · exact ⟨recorded_leave _ hInv, trivial⟩
  · exact ⟨hInv, hA⟩

theorem keeps_emit {A : Loop → Prop} (event : LoopEvent) (hLoose : Loose A) :
    Keeps A (emit event) fun _ => A := by
  refine (Co.contract_modify (B := A) hLoose.1 fun s hInv hA => ?_).bind fun _ =>
    keeps_resumed hLoose
  exact ⟨hInv, hLoose.2 s _ s.slips hA⟩

theorem keeps_emitObserved {A B : Loop → Prop} (event : LoopEvent) (hSteady : Steady A)
    (hLoose : Loose B)
    (hObserve : ∀ s, A s → B { s.deliver event with outcome := s.outcome.observe event }) :
    Keeps A (emitObserved event) fun _ => B := by
  refine (Co.contract_modify (B := B) hSteady fun s hInv hA => ?_).bind fun _ =>
    keeps_resumed hLoose
  exact ⟨hInv, hObserve s hA⟩

/-- Once every task has ended, a drain leaves the iteration quiet. -/
theorem quiet_of_tasksEnded {s : Loop} (hBooks : s.Coherent)
    (hEnded : ∀ task ∈ s.tracker.tasks, s.ended task.2 = true) : s.drain.Quiet := by
  refine ⟨rfl, fun n run hRun hIteration => ?_⟩
  cases hStatus : run.status.isEnded with
  | true => rfl
  | false =>
      have hTask := hEnded _ (hBooks.tasks n run hRun hIteration hStatus)
      have hGet : s.runs[n]? = some run := hRun
      rw [Loop.ended, hGet] at hTask
      exact hStatus.symm.trans hTask

/-- What an abort leaves alone. -/
structure Abortable (A : Loop → Prop) : Prop where
  loose : Loose A
  older : ∀ s runs slips, Older s.runs runs → A s → A { s with runs, slips }
  drain : ∀ s, A s → A s.drain

theorem keeps_abort {A : Loop → Prop} (hAbort : Abortable A) :
    Keeps A abort fun _ s => A s ∧ s.Quiet := by
  refine (Co.contract_modify (B := A) hAbort.loose.1 fun s hInv hA => ?_).bind fun _ => ?_
  · have hOlder := older_cancelTasks s
    exact ⟨hInv.onward hInv.1.cancelTasks hOlder.kept rfl rfl hInv.2.2.2,
      hAbort.older s _ _ hOlder hA⟩
  · refine Co.contract_attemptWhen hAbort.loose.1 fun s hInv hA hReady => ?_
    split
    · exact ⟨hInv, trivial⟩
    · refine ⟨hInv.onward hInv.1.drain (Older.refl _).kept rfl rfl hInv.2.2.2, hAbort.drain s hA, ?_⟩
      exact quiet_of_tasksEnded hInv.1 fun task hMem => by
        simpa using List.all_eq_true.mp hReady task hMem

theorem abortable_true : Abortable fun _ => True :=
  ⟨⟨undisturbed_true, fun _ _ _ _ => trivial⟩, fun _ _ _ _ _ => trivial, fun _ _ => trivial⟩

theorem Abortable.and {A A' : Loop → Prop} (hAbort : Abortable A) (hAbort' : Abortable A') :
    Abortable fun s => A s ∧ A' s :=
  ⟨hAbort.loose.and hAbort'.loose,
    fun s runs slips hOlder hBoth =>
      ⟨hAbort.older s runs slips hOlder hBoth.1, hAbort'.older s runs slips hOlder hBoth.2⟩,
    fun s hBoth => ⟨hAbort.drain s hBoth.1, hAbort'.drain s hBoth.2⟩⟩

theorem abortable_streaming : Abortable Streaming where
  loose := ⟨steady_streaming, fun _ _ _ hA => hA⟩
  older s runs slips hOlder hA := by
    obtain ⟨k, hIterations, hTurns⟩ := hA
    exact ⟨k, hIterations, hTurns.kept hOlder.kept⟩
  drain _ hA := hA

theorem abortable_dangling (m : ChatMessage) : Abortable (Dangling m) where
  loose := ⟨steady_dangling m, fun _ _ _ hA => hA⟩
  older s runs slips hOlder hA := by
    obtain ⟨k, turns, hIterations, hOwn, hTurns, hRole⟩ := hA
    exact ⟨k, turns, hIterations, hOwn, hTurns.kept hOlder.kept, hRole⟩
  drain _ hA := hA

theorem abortable_order (f : List ToolCall → Prop) : Abortable fun s => f s.tracker.order where
  loose := ⟨undisturbed_order f, fun _ _ _ hA => hA⟩
  older _ _ _ _ hA := hA
  drain _ hA := hA

theorem abortable_outcome (f : IterationOutcome → Prop) : Abortable fun s => f s.outcome where
  loose := ⟨undisturbed_outcome f, fun _ _ _ hA => hA⟩
  older _ _ _ _ hA := hA
  drain _ hA := hA

theorem loose_settled : Loose Settled := ⟨steady_settled, fun _ _ _ hA => hA⟩

/-- The message and the replies to its calls make up the turn of this iteration. -/
theorem settled_turn {s : Loop} {m : ChatMessage} {own replies : List ChatMessage} {k : Nat}
    (hIterations : s.iterations = k + 1) (hTurns : Turns s.runs k own) (hRole : m.role = .assistant)
    (hOwn : s.own = own ++ m :: replies)
    (hReplied : Replied s.iterations s.runs m.toolCalls replies) : Settled s := by
  rw [Settled, hOwn, hIterations]
  exact hTurns.turn hRole (hIterations ▸ hReplied)

theorem Settled.recorded {s s' : Loop} (hInv : Recorded s) (hSettled : Settled s')
    (hRuns : s'.runs = s.runs) (hTracker : s'.tracker = s.tracker) (hPrompts : s'.prompts = s.prompts)
    (hWatched : s'.watched = s.watched) (hCancelled : s'.cancelled = s.cancelled) : Recorded s' := by
  refine ⟨?_, ⟨_, _, hSettled, Or.inl rfl⟩, ?_, ?_⟩
  · have hBooks := hInv.1
    rw [Loop.Coherent, Loop.iterations] at hBooks ⊢
    rwa [hRuns, hTracker, hPrompts]
  · rw [hPrompts, hRuns]
    exact hInv.2.2.1
  · rw [hWatched, hCancelled]
    exact hInv.2.2.2

/-! ## The LLM stream -/

/-- The pump has taken in these events of the stream. -/
def Pumping (taken : List StreamEvent) (s : Loop) : Prop :=
  Streaming s ∧ s.tracker.order = announced taken ∧ s.outcome = {}

theorem loose_pumping (taken : List StreamEvent) : Loose (Pumping taken) :=
  abortable_streaming.loose.and
    ((abortable_order (· = announced taken)).loose.and (abortable_outcome (· = {})).loose)

theorem keeps_stopRead {A : Loop → Prop} (hSteady : Steady A)
    (hStop : ∀ s, A s → A { s with interrupted := false }) : Keeps A stopRead fun _ => A := by
  refine Co.contract_attempt hSteady fun s hInv hA => ?_
  split
  · exact ⟨hInv, trivial⟩
  · exact ⟨hInv, hStop s hA⟩

theorem keeps_nextEvent {A : Loop → Prop} (comes : Bool) (hSteady : Steady A)
    (hTake : ∀ s arrived interrupted, A s → A { s with arrived, interrupted }) :
    Keeps A (nextEvent comes) fun _ => A := by
  have hStop : Keeps A stopRead fun _ => A :=
    keeps_stopRead hSteady fun s hA => hTake s s.arrived false hA
  refine (Co.contract_attemptWhen (B := fun _ => A) hSteady fun s hInv hA _ => ?_).bind
    fun next => ?_
  · split
    · exact ⟨hInv, trivial⟩
    · split
      · exact ⟨hInv, hTake s false s.interrupted hA⟩
      · split
        · exact ⟨hInv, hA⟩
        · exact ⟨hInv, hA⟩
  · cases next with
    | arrived => exact Co.contract_done fun _ _ hA => hA
    | runCancelled => exact hStop.bind fun _ => Co.contract_done fun _ _ hA => hA
    | timeout => exact hStop.bind fun _ => Co.contract_done fun _ _ hA => hA

theorem fresh_of_nodup {taken rest : List StreamEvent} {call : ToolCall}
    (hIds : ((announced taken ++ call :: announced rest).map (·.id)).Nodup) :
    call.id ∉ (announced taken).map (·.id) := by
  rw [List.map_append, List.map_cons] at hIds
  exact fun hMem => (List.nodup_append.mp hIds).2.2 _ hMem _ List.mem_cons_self rfl

theorem recorded_track {s : Loop} {event : StreamEvent} {taken rest : List StreamEvent}
    (hInv : Recorded s) (hPumping : Pumping taken s)
    (hIds : ((announced (taken ++ event :: rest)).map (·.id)).Nodup) :
    Recorded (track event s) ∧ Pumping (taken ++ [event]) (track event s) := by
  obtain ⟨⟨k, hIterations, hTurns⟩, hOrder, hOutcome⟩ := hPumping
  rw [announced_append] at hIds
  cases event with
  | toolCallReady call =>
      have hFresh : call.id ∉ s.tracker.order.map (·.id) := hOrder ▸ fresh_of_nodup hIds
      have hKept := kept_append s.runs [{ iteration := s.iterations, call }]
      refine ⟨hInv.onward (hInv.1.spawn hFresh) hKept rfl rfl hInv.2.2.2,
        ⟨k, hIterations, hTurns.kept hKept⟩, ?_, hOutcome⟩
      rw [announced_append, ← hOrder]
      rfl
  | toolCallBroken index callId name error raw =>
      have hFresh : callId ∉ s.tracker.order.map (·.id) := hOrder ▸ fresh_of_nodup hIds
      refine ⟨hInv.onward (hInv.1.markBroken hFresh) (kept_append _ _) rfl rfl hInv.2.2.2,
        ⟨k, hIterations, hTurns.kept (kept_append _ _)⟩, ?_, hOutcome⟩
      rw [announced_append, ← hOrder]
      rfl
  | _ =>
      refine ⟨hInv, ⟨k, hIterations, hTurns⟩, ?_, hOutcome⟩
      rw [announced_append, ← hOrder]
      exact (List.append_nil _).symm

theorem keeps_pumpStream (ending : StreamEnd) {events : List StreamEvent}
    (hIds : ((announced events).map (·.id)).Nodup) :
    Keeps (Pumping []) (pumpStream ending {} events) (Pumped Pumping events) := by
  refine rule_pumpStream ending (fun taken => (loose_pumping taken).1) (fun taken comes => ?_)
    (fun taken event rest hEvents => ?_) (fun taken event hPlain => ?_)
    (fun _ _ _ _ _ _ => trivial) [] events {} rfl rfl
  · exact keeps_nextEvent comes (loose_pumping taken).1 fun _ _ _ hA => hA
  · refine rule_handleStreamEvent (loose_pumping taken).1 fun s hInv hPumping => ?_
    obtain ⟨hInv', hPumping'⟩ := recorded_track hInv hPumping (hEvents ▸ hIds)
    exact ⟨hInv'.onward hInv'.1.drain (Older.refl _).kept rfl rfl hInv'.2.2.2, hPumping'⟩
  · refine keeps_emitObserved event (loose_pumping taken).1 (loose_pumping taken) fun s hA => ?_
    exact ⟨hA.1, hA.2.1, (hPlain.2 _).trans hA.2.2⟩

theorem keeps_closeStream {A : Loop → Prop} (hLoose : Loose A) :
    Keeps A closeStream fun _ => A := by
  refine Co.contract_attempt hLoose.1 fun s hInv hA => ?_
  split
  · exact ⟨recorded_leave (s := { s with interrupted := false }) _ hInv, trivial⟩
  · split
    · exact ⟨recorded_leave _ hInv, trivial⟩
    · exact ⟨hInv, hA⟩

theorem keeps_streamDied {B : AssistantStreamState → Loop → Prop} (error : LoopError) :
    Keeps (fun _ => True) (streamDied error) B := by
  have hDies : Keeps (fun _ => True) (do
      let raised ← Co.tryCatch (do abort; pure error : Work LoopError) pure
      closeStream
      Co.throw raised) B := by
    refine Co.Contract.bind (B := fun _ _ => True) ?_ fun raised => ?_
    · refine Co.Contract.tryCatch (E := fun _ _ => True) ?_ fun _ =>
        Co.contract_done fun _ _ _ => trivial
      exact (keeps_abort abortable_true).bind fun _ => Co.contract_done fun _ _ _ => trivial
    · exact (keeps_closeStream abortable_true.loose).bind fun _ =>
        Co.contract_fail fun _ _ _ => trivial
  cases error with
  | generatorExit => exact Co.contract_fail fun _ _ _ => trivial
  | cancelledError => exact hDies
  | contextOverflow => exact hDies
  | raised text => exact hDies
  | assertionError => exact hDies

/-- Where the iteration stands once the LLM has streamed. -/
def Streamed (stream : LlmStream) (outcome : IterationOutcome) (s : Loop) : Prop :=
  outcome.failed = false →
    outcome.interrupted = true ∧ Settled s ∨
    outcome.interrupted = false ∧ ∃ m, outcome.message = some m ∧ Dangling m s ∧
      s.tracker.order = announced stream.events ∧ ∃ content calls usage,
        .streamFinished content calls usage ∈ stream.events ∧ m = .assistant content calls

theorem loose_streamed (stream : LlmStream) (outcome : IterationOutcome) :
    Loose (Streamed stream outcome) := by
  refine ⟨fun s s' hInv hInv' hStep hStreamed hNot => ?_, fun _ _ _ hA => hA⟩
  rcases hStreamed hNot with ⟨hYes, hSettled⟩ | ⟨hNo, m, hMessage, hDangling, hOrder, hFinal⟩
  · exact Or.inl ⟨hYes, steady_settled s s' hInv hInv' hStep hSettled⟩
  · exact Or.inr ⟨hNo, m, hMessage, steady_dangling m s s' hInv hInv' hStep hDangling,
      hStep.beside.tracker.1.trans hOrder, hFinal⟩

theorem loose_streamedNow (stream : LlmStream) : Loose fun s => Streamed stream s.outcome s := by
  refine ⟨fun s s' hInv hInv' hStep hStreamed => ?_, fun _ _ _ hA => hA⟩
  have hStill := (loose_streamed stream s.outcome).1 s s' hInv hInv' hStep hStreamed
  rwa [← hStep.beside.outcome] at hStill

theorem keeps_failed {A : Loop → Prop} (stream : LlmStream) (error : String) (hSteady : Steady A) :
    Keeps A (emitObserved (.failed error)) fun _ s => Streamed stream s.outcome s :=
  keeps_emitObserved _ hSteady (loose_streamedNow stream) fun s _ hNot => by
    simp [IterationOutcome.observe] at hNot

theorem keeps_interruptIteration (stream : LlmStream) (contentParts : List String) :
    Keeps (fun s => Streaming s ∧ s.outcome = {}) (interruptIteration contentParts)
      fun _ s => Streamed stream s.outcome s := by
  have hAbort := abortable_streaming.and (abortable_outcome (· = {}))
  have hSettled : Loose fun s => Settled s ∧ s.outcome = {} :=
    loose_settled.and (abortable_outcome (· = {})).loose
  refine (keeps_abort hAbort).bind fun _ => ?_
  refine Co.Contract.bind (B := fun _ s => Settled s ∧ s.outcome = {}) ?_ fun message => ?_
  · refine Co.contract_atomic (hAbort.loose.1.and steady_quiet) fun s hInv hBoth => ?_
    obtain ⟨⟨⟨k, hIterations, hTurns⟩, hOutcome⟩, hQuiet⟩ := hBoth
    have hReplied := hQuiet.replied hInv.1 (fun _ hMem => hMem) hInv.1.ids
    have hDone : Settled (s.appendOwn (.assistant (String.join contentParts) s.tracker.order ::
        s.tracker.toolMessages s.tracker.order)) :=
      settled_turn (m := .assistant (String.join contentParts) s.tracker.order) hIterations hTurns
        rfl rfl hReplied
    exact ⟨hDone.recorded hInv rfl rfl rfl rfl rfl, hDone, hOutcome⟩
  · refine keeps_emitObserved _ hSettled.1 (loose_streamedNow stream) fun s hBoth _ => ?_
    exact Or.inl ⟨rfl, hBoth.1⟩

/-- The final message is appended, and its calls are still to be answered. -/
theorem keeps_appendFinal (stream : LlmStream) {m : ChatMessage} (used : Option Usage)
    (hFinal : ∃ content calls usage,
      .streamFinished content calls usage ∈ stream.events ∧ m = .assistant content calls) :
    Keeps (fun s => (Streaming s ∧ s.outcome = {}) ∧ s.tracker.order = announced stream.events)
      (do
        Co.modify (Loop.appendOwn [m])
        emitObserved (.assistantMessage m false used) : Work Unit)
      fun _ s => Streamed stream s.outcome s := by
  have hDangling : Loose fun s => (Dangling m s ∧
      s.tracker.order = announced stream.events) ∧ s.outcome = {} :=
    ((abortable_dangling m).loose.and (abortable_order (· = _)).loose).and
      (abortable_outcome (· = {})).loose
  refine Co.Contract.bind (B := fun _ s => (Dangling m s ∧
      s.tracker.order = announced stream.events) ∧ s.outcome = {}) ?_ fun _ => ?_
  · refine Co.contract_modify ((abortable_streaming.and (abortable_outcome (· = {}))).loose.and
      (abortable_order (· = announced stream.events)).loose).1 fun s hInv hA => ?_
    obtain ⟨⟨⟨k, hIterations, hTurns⟩, hOutcome⟩, hOrder⟩ := hA
    have hRole : m.role = .assistant := by
      obtain ⟨content, calls, usage, -, rfl⟩ := hFinal
      rfl
    exact ⟨⟨hInv.1, ⟨k, s.own, hTurns, Or.inr ⟨m, rfl, hRole⟩⟩, hInv.2.2⟩,
      ⟨⟨k, s.own, hIterations, rfl, hTurns, hRole⟩, hOrder⟩, hOutcome⟩
  · refine keeps_emitObserved _ hDangling.1 (loose_streamedNow stream) fun s hA _ => ?_
    exact Or.inr ⟨rfl, m, rfl, hA.1.1, hA.1.2, hFinal⟩

theorem keeps_finalizeAssistant (stream : LlmStream) (state : AssistantStreamState) :
    Keeps (Pumped Pumping stream.events state) (finalizeAssistant state)
      fun _ s => Streamed stream s.outcome s := by
  have hStreaming : ∀ s, Recorded s → Pumped Pumping stream.events state s →
      Streaming s ∧ s.outcome = {} := by
    rintro s - ⟨taken, hPumping, -⟩
    exact ⟨hPumping.1, hPumping.2.2⟩
  by_cases hTimedOut : state.timedOut = true
  · rw [finalizeAssistant, if_pos hTimedOut]
    refine ((keeps_abort abortable_streaming).pre fun s hInv hPumped =>
      (hStreaming s hInv hPumped).1).bind fun _ => ?_
    exact keeps_failed stream _ (abortable_streaming.loose.1.and steady_quiet)
  by_cases hInterrupted : state.interrupted = true
  · rw [finalizeAssistant, if_neg hTimedOut, if_pos hInterrupted]
    exact (keeps_interruptIteration stream state.contentParts).pre hStreaming
  rw [finalizeAssistant, if_neg hTimedOut, if_neg hInterrupted]
  -- the pump took in the whole stream
  have hWhole : ∀ s, Recorded s → Pumped Pumping stream.events state s →
      ((Streaming s ∧ s.outcome = {}) ∧ s.tracker.order = announced stream.events) ∧
        state.finalMessage = (stream.events.foldl AssistantStreamState.note {}).finalMessage := by
    rintro s hInv ⟨taken, hPumping, hTrue | hTrue | ⟨rfl, hFinal⟩⟩
    · exact absurd hTrue hTimedOut
    · exact absurd hTrue hInterrupted
    · exact ⟨⟨⟨hPumping.1, hPumping.2.2⟩, hPumping.2.1⟩, hFinal⟩
  cases hFinal : state.finalMessage with
  | none =>
      refine Co.Contract.bind (B := fun _ => Streaming) ?_ fun _ =>
        keeps_failed stream _ steady_streaming
      refine (Co.contract_modify (A := Streaming) steady_streaming fun s hInv hA => ?_).pre
        fun s hInv hPumped => (hStreaming s hInv hPumped).1
      exact ⟨recorded_leave _ hInv, abortable_streaming.loose.leave _ hA⟩
  | some m =>
      intro s hInv hPumped
      have hMessage := (hWhole s hInv hPumped).2
      rw [hFinal] at hMessage
      rcases finalMessage_foldl hMessage.symm with hNone | hMessage
      · simp at hNone
      · exact keeps_appendFinal stream state.usage hMessage s hInv (hWhole s hInv hPumped).1

theorem keeps_streamAssistant {stream : LlmStream} (hDistinct : stream.Distinct) :
    Keeps (Pumping []) (streamAssistant stream) fun _ s => Streamed stream s.outcome s := by
  have hPumped : ∀ state, Loose (Pumped Pumping stream.events state) := by
    intro state
    refine ⟨fun s s' hInv hInv' hStep hPumped => ?_, fun _ _ _ hA => hA⟩
    obtain ⟨taken, hPumping, hRest⟩ := hPumped
    exact ⟨taken, (loose_pumping taken).1 s s' hInv hInv' hStep hPumping, hRest⟩
  refine ((keeps_pumpStream stream.ending hDistinct.announced).tryCatch keeps_streamDied).bind
    fun state => ?_
  refine (keeps_closeStream (hPumped state)).bind fun _ => ?_
  exact keeps_finalizeAssistant stream state

/-! ## The tools -/

theorem loose_pending (pending : List Nat) : Loose (Pending pending) :=
  ⟨undisturbed_pending pending, fun _ _ _ hA => hA⟩

theorem keeps_drainAndEmit {A : Loop → Prop} (hAbort : Abortable A) (pending : List Nat) :
    Keeps (fun s => A s ∧ Pending pending s) drainAndEmit fun _ s =>
      (A s ∧ Pending pending s) ∧ (pending = [] → s.Quiet) := by
  have hLoose := hAbort.loose.and (loose_pending pending)
  have hAfter : Loose fun s => (A s ∧ Pending pending s) ∧ (pending = [] → s.Quiet) := by
    refine hLoose.and ⟨fun s s' hInv hInv' hStep hQuiet hNone => ?_, fun _ _ _ hA => hA⟩
    exact steady_quiet s s' hInv hInv' hStep (hQuiet hNone)
  refine Co.Contract.bind (B := fun _ s => (A s ∧ Pending pending s) ∧ (pending = [] → s.Quiet))
    ?_ fun events => Co.Contract.forEach_const events fun event _ => keeps_emit event hAfter
  refine Co.contract_atomic hLoose.1 fun s hInv hBoth => ?_
  refine ⟨hInv.onward hInv.1.drain (Older.refl _).kept rfl rfl hInv.2.2.2,
    ⟨hAbort.drain s hBoth.1, hBoth.2⟩, ?_⟩
  rintro rfl
  refine quiet_of_tasksEnded hInv.1 fun task hMem => ?_
  exact (hBoth.2 task hMem).resolve_left List.not_mem_nil

/-- The tools of the message are waited for, and the tracker knows its calls. -/
def Awaiting (m : ChatMessage) (s : Loop) : Prop :=
  Dangling m s ∧ ∀ call ∈ m.toolCalls, call ∈ s.tracker.order

theorem abortable_awaiting (m : ChatMessage) : Abortable (Awaiting m) :=
  (abortable_dangling m).and (abortable_order fun order => ∀ call ∈ m.toolCalls, call ∈ order)

theorem keeps_spawnAll {m : ChatMessage} (hIds : (m.toolCalls.map (·.id)).Nodup) :
    Keeps (fun s => Dangling m s ∧ s.tracker.order ++ m.toolCalls = m.toolCalls)
      (Co.forEach m.toolCalls fun call => (do
        Co.modify (Loop.spawn call)
        emit (.toolCallRequested call) : Work Unit))
      fun _ s => Dangling m s ∧ s.tracker.order ++ [] = m.toolCalls := by
  have hLoose : ∀ rest, Loose fun s => Dangling m s ∧ s.tracker.order ++ rest = m.toolCalls :=
    fun rest => (abortable_dangling m).loose.and (abortable_order (· ++ rest = m.toolCalls)).loose
  refine Co.Contract.forEach (A := fun rest s =>
    Dangling m s ∧ s.tracker.order ++ rest = m.toolCalls) m.toolCalls fun call rest => ?_
  refine (Co.contract_modify (B := fun s => Dangling m s ∧ s.tracker.order ++ rest = m.toolCalls)
    (hLoose _).1 fun s hInv hBoth => ?_).bind fun _ => keeps_emit _ (hLoose rest)
  obtain ⟨⟨k, turns, hIterations, hOwn, hTurns, hRole⟩, hOrder⟩ := hBoth
  have hFresh : call.id ∉ s.tracker.order.map (·.id) := by
    rw [← hOrder, List.map_append, List.map_cons] at hIds
    exact fun hMem => (List.nodup_append.mp hIds).2.2 _ hMem _ List.mem_cons_self rfl
  have hKept := kept_append s.runs [{ iteration := s.iterations, call }]
  refine ⟨hInv.onward (hInv.1.spawn hFresh) hKept rfl rfl hInv.2.2.2,
    ⟨k, turns, hIterations, hOwn, hTurns.kept hKept, hRole⟩, ?_⟩
  show (s.tracker.order ++ [call]) ++ rest = m.toolCalls
  rw [← hOrder, List.append_assoc]
  rfl

theorem keeps_startCalls {m : ChatMessage} (hIds : (m.toolCalls.map (·.id)).Nodup) :
    Keeps (fun s => Dangling m s ∧
        (s.tracker.order = [] ∨ ∀ call ∈ m.toolCalls, call ∈ s.tracker.order))
      (startCalls m) fun _ => Awaiting m := by
  have hCovered : Loose fun s => Dangling m s ∧
      (s.tracker.order = [] ∨ ∀ call ∈ m.toolCalls, call ∈ s.tracker.order) :=
    (abortable_dangling m).loose.and
      (abortable_order fun order => order = [] ∨ ∀ call ∈ m.toolCalls, call ∈ order).loose
  refine Co.Contract.bind (B := fun seen s => Dangling m s ∧
    if seen then ∀ call ∈ m.toolCalls, call ∈ s.tracker.order else s.tracker.order = [])
    ?_ fun seen => ?_
  · refine (Co.contract_read hCovered.1).post fun seen s hInv hBoth => ?_
    obtain ⟨⟨hDangling, hOrder⟩, rfl⟩ := hBoth
    refine ⟨hDangling, ?_⟩
    have hSeen : s.tracker.seen = !s.tracker.order.isEmpty := hInv.1.seen
    rcases hOrder with hNone | hAll
    · simp [hSeen, hNone]
    · split
      · exact hAll
      · rename_i hNot
        simpa [hSeen] using hNot
  · cases seen with
    | true => exact Co.contract_done fun s _ hA => by simpa [Awaiting] using hA
    | false =>
        refine ((keeps_spawnAll hIds).pre fun s _ hA => ?_).post fun _ s _ hA => ?_
        · exact ⟨hA.1, by simpa using hA.2⟩
        · have hOrder : s.tracker.order = m.toolCalls := by simpa using hA.2
          exact ⟨hA.1, fun call hMem => by rwa [hOrder]⟩

theorem keeps_streamToolCalls (index : Nat) {m : ChatMessage}
    (hIds : (m.toolCalls.map (·.id)).Nodup) :
    Keeps (fun s => Dangling m s ∧
        (s.tracker.order = [] ∨ ∀ call ∈ m.toolCalls, call ∈ s.tracker.order))
      (streamToolCalls index m) fun _ => Settled := by
  have hAbort := abortable_awaiting m
  refine (keeps_startCalls hIds).bind fun _ => ?_
  refine (rule_wait (Q := Loop.Quiet) hAbort.loose.1 index
    (fun s hInv hA => ⟨⟨hInv.1, hInv.2.1, hInv.2.2.1, by simp⟩, hA⟩)
    (rule_awaitRuns hAbort.loose.1 (fun _ hInv => hInv.2.2.2) fun s hInv _ =>
      ⟨recorded_leave (s := { s with interrupted := false }) _ hInv, trivial⟩)
    (keeps_drainAndEmit hAbort)).bind fun _ => ?_
  refine (rule_abortIfCancelled hAbort.loose.1 steady_quiet (fun _ hInv hA => ⟨hInv, hA⟩)
    (fun _ hQuiet => hQuiet) (keeps_abort hAbort) fun _ _ hA hQuiet => ⟨hA, hQuiet⟩).bind
      fun _ => ?_
  refine Co.contract_modify (hAbort.loose.1.and steady_quiet) fun s hInv hBoth => ?_
  obtain ⟨⟨⟨k, turns, hIterations, hOwn, hTurns, hRole⟩, hCalls⟩, hDone⟩ := hBoth
  have hReplied := hDone.replied hInv.1 hCalls hIds
  have hSettled : Settled (s.appendOwn (s.tracker.toolMessages m.toolCalls)) :=
    settled_turn hIterations hTurns hRole (by simp [Loop.appendOwn, hOwn]) hReplied
  exact ⟨hSettled.recorded hInv rfl rfl rfl rfl rfl, hSettled⟩

/-! ## The run -/

theorem keeps_beginIteration :
    Keeps Settled (Co.modify Loop.beginIteration) fun _ => Pumping [] := by
  refine Co.contract_modify steady_settled fun s hInv hSettled => ?_
  have hIterations : s.beginIteration.iterations = s.iterations + 1 := by
    simp [Loop.iterations, Loop.beginIteration]
  refine ⟨⟨hInv.1.beginIteration, hInv.2.1, fun prompt hMem => ?_, by simp [Loop.beginIteration]⟩,
    ⟨s.iterations, hIterations, hSettled⟩, rfl, rfl⟩
  rcases List.mem_append.mp hMem with hMem | hMem
  · exact hInv.2.2.1 prompt hMem
  · obtain rfl := List.mem_singleton.mp hMem
    exact ⟨_, hSettled⟩

theorem keeps_iterate {llm : Nat → LlmStream} (hDistinct : ∀ i, (llm i).Distinct)
    (index left : Nat) : Keeps Settled (iterate llm index left) fun _ _ => True := by
  have hLast : ∀ (A : Loop → Prop) event, Loose A → Keeps A (emit event) fun _ _ => True :=
    fun A event hLoose => (keeps_emit event hLoose).post fun _ _ _ _ => trivial
  induction left generalizing index with
  | zero => exact hLast _ _ loose_settled
  | succ left ih =>
      refine (keeps_emit _ loose_settled).bind fun _ => ?_
      refine ((Co.contract_read steady_settled).post fun _ _ _ hBoth => hBoth.1).bind
        fun cancelled => ?_
      cases cancelled with
      | true => exact hLast _ _ loose_settled
      | false =>
          refine keeps_beginIteration.bind fun _ => ?_
          refine (keeps_streamAssistant (hDistinct index)).bind fun _ => ?_
          refine Co.Contract.bind (B := fun outcome s => Streamed (llm index) outcome s) ?_
            fun outcome => ?_
          · refine (Co.contract_read (loose_streamedNow (llm index)).1).post fun value s _ hBoth => ?_
            rw [hBoth.2]
            exact hBoth.1
          · have hLoose := loose_streamed (llm index) outcome
            split
            · exact Co.contract_done fun _ _ _ => trivial
            · rename_i hNotFailed
              split
              · exact hLast _ _ hLoose
              · rename_i hNotInterrupted
                -- A stream that neither failed nor was interrupted ends with its last message.
                have hStreamed : ∀ s, Streamed (llm index) outcome s → ∃ m,
                    outcome.message = some m ∧ Dangling m s ∧
                      s.tracker.order = announced (llm index).events ∧ ∃ content calls usage,
                        .streamFinished content calls usage ∈ (llm index).events ∧
                          m = .assistant content calls := by
                  intro s hStreamed
                  rcases hStreamed (by simpa using hNotFailed) with ⟨hYes, -⟩ | ⟨-, hMessage⟩
                  · exact absurd hYes hNotInterrupted
                  · exact hMessage
                split
                · exact Co.contract_fail fun _ _ _ => trivial
                · rename_i m hMessage
                  split
                  · refine Co.Contract.bind (B := fun _ _ => True) ?_ fun _ =>
                      hLast _ _ abortable_true.loose
                    exact Co.contract_modify hLoose.1 fun s hInv _ => ⟨recorded_leave _ hInv, trivial⟩
                  · intro s hInv hA
                    obtain ⟨m', hMessage', hDangling, hOrder, content, calls, usage, hMem, hEq⟩ :=
                      hStreamed s hA
                    obtain rfl := Option.some.inj (hMessage.symm.trans hMessage')
                    have hIds : (m.toolCalls.map (·.id)).Nodup := by
                      rw [hEq]
                      exact (hDistinct index).finals content calls usage hMem
                    refine ((keeps_streamToolCalls index hIds).bind fun _ => ih (index + 1)) s hInv
                      ⟨hDangling, ?_⟩
                    rw [hOrder, hEq]
                    exact (hDistinct index).covered content calls usage hMem

/-! ## The claim -/

/-- Every assistant message with calls is followed by the replies to them, as soon
as anything follows it, and in every prompt. -/
structure Loop.Transcript (s : Loop) : Prop where
  own : ∀ before m after, s.own = before ++ m :: after → m.toolCalls ≠ [] → after ≠ [] →
    ReplyFollows s.runs before m after
  prompts : ∀ prompt ∈ s.prompts, ∀ before m after, prompt = before ++ m :: after →
    m.toolCalls ≠ [] → ReplyFollows s.runs before m after

theorem Recorded.transcript {s : Loop} (hInv : Recorded s) : s.Transcript := by
  refine ⟨fun before m after hOwn hCalls hAfter => ?_, fun prompt hMem before m after hPrompt hCalls => ?_⟩
  · obtain ⟨k, turns, hTurns, rfl | ⟨m', hLast, -⟩⟩ := hInv.2.1
    · exact hTurns.replyFollows hOwn hCalls
    · -- the message that still waits is not followed by anything
      rw [hLast] at hOwn
      obtain ⟨rest, last, rfl⟩ : ∃ rest last, after = rest ++ [last] :=
        ⟨after.dropLast, after.getLast hAfter, (List.dropLast_append_getLast hAfter).symm⟩
      have hSplit : turns ++ [m'] = (before ++ m :: rest) ++ [last] := by simpa using hOwn
      obtain ⟨hTurnsEq, -⟩ := List.append_inj' hSplit rfl
      obtain ⟨replies, more, hRest, hReplied⟩ := hTurns.replyFollows hTurnsEq hCalls
      exact ⟨replies, more ++ [last], by rw [hRest]; simp, hReplied⟩
  · obtain ⟨k, hTurns⟩ := hInv.2.2.1 prompt hMem
    exact hTurns.replyFollows hPrompt hCalls

theorem recorded_fresh (toolTimeout : Nat) : Recorded (.fresh toolTimeout) := by
  refine ⟨⟨?_, rfl, List.nodup_nil, rfl, ?_, ?_, ?_, ?_, ?_⟩, ⟨0, [], .none, Or.inl rfl⟩, ?_, ?_⟩
  all_goals simp [Loop.fresh]

/-- Whatever the tools do, in whatever order they end and whenever the run is
cancelled: where no two calls of a stream share an id, the transcript is valid at
every moment of the run. -/
theorem transcript_valid {llm : Nat → LlmStream} (hDistinct : ∀ i, (llm i).Distinct)
    (maxIterations toolTimeout : Nat) {rest : Work Unit} {steps : List (Loop × Loop)} {t : Loop}
    (hTrace : Co.Trace Surroundings (runLoop llm maxIterations) (.fresh toolTimeout) steps rest t) :
    t.Transcript :=
  ((keeps_iterate hDistinct 0 maxIterations).trace (fun _ _ hInv hStep => hInv.beside hStep)
    (recorded_fresh toolTimeout) .none hTrace).transcript

/-- The LLM calls two tools under these ids. -/
def twoCalls (first second : String) : LlmStream :=
  { events := [.toolCallReady { id := first, name := "weather" },
      .toolCallReady { id := second, name := "news" },
      .streamFinished "" [{ id := first, name := "weather" }, { id := second, name := "news" }] none] }

/-- The second tool ends before the first. -/
def secondEndsFirst : Schedule :=
  List.flatten [undisturbed 4, [[.arrive]], undisturbed 4, [[.arrive]], undisturbed 4, [[.arrive]],
    undisturbed 2, [[.arrive]], undisturbed 7,
    [[.toolEnds 1 (.output "calm"), .toolEnds 0 (.output "rain")]], undisturbed 14]

theorem transcript_valid_out_of_order :
    ∃ steps r t, Co.Trace Surroundings (runLoop (fun _ => twoCalls "x" "y") 1) (.fresh 180) steps
        (Co.ended r) t ∧
      t.own.map (·.content) = ["", "rain", "calm"] ∧ t.Transcript := by
  have hDistinct : (twoCalls "x" "y").Distinct := by
    refine ⟨by decide, ?_, ?_⟩
    all_goals
      intro content calls usage hMem
      simp [twoCalls] at hMem
      obtain ⟨-, rfl, -⟩ := hMem
      decide
  have hTraces : (traceUnder secondEndsFirst (runLoop (fun _ => twoCalls "x" "y") 1) (.fresh 180)).map
      (fun (_, _, t) => t.own.map (·.content)) = some ["", "rain", "calm"] := by
    decide +kernel
  obtain ⟨steps, r, t, hTrace, hSeen⟩ := trace_of_traceUnder _ hTraces
  exact ⟨steps, r, t, hTrace, hSeen, transcript_valid (fun _ => hDistinct) 1 180 hTrace⟩

/-- Both calls have come without an id: the replies to both are the outcome of the
first. -/
theorem transcript_confuses_equal_ids :
    ∃ steps r t, Co.Trace Surroundings (runLoop (fun _ => twoCalls "" "") 1) (.fresh 180) steps
        (Co.ended r) t ∧
      t.own.map (·.content) = ["", "rain", "rain"] ∧ ¬t.Transcript := by
  have hTraces : (traceUnder secondEndsFirst (runLoop (fun _ => twoCalls "" "") 1) (.fresh 180)).map
      (fun (_, _, t) => (t.own, t.runs.map fun run => (run.call.name, run.outcome?))) =
      some ([.assistant "" [{ id := "", name := "weather" }, { id := "", name := "news" }],
          { role := .tool, content := "rain", toolCallId := some "" },
          { role := .tool, content := "rain", toolCallId := some "" }],
        [("weather", some "rain"), ("news", some "calm")]) := by
    decide +kernel
  obtain ⟨steps, r, t, hTrace, hSeen⟩ := trace_of_traceUnder _ hTraces
  obtain ⟨hOwn, hRuns⟩ := Prod.mk.inj hSeen
  refine ⟨steps, r, t, hTrace, by rw [hOwn]; rfl, fun hTranscript => ?_⟩
  obtain ⟨replies, rest, hAfter, answers, rfl, -, hAnswers⟩ :=
    hTranscript.own [] _ _ hOwn (by simp [ChatMessage.assistant]) (by simp)
  cases hAnswers with
  | cons hFirst hMore =>
      cases hMore with
      | cons hSecond hNone =>
          cases hNone
          obtain ⟨-, -, -, run, hRun, -, hCall, hOutcome⟩ := hSecond
          -- the run of the second call has another outcome than its reply
          rw [show _ = ChatMessage.content _ from
            congrArg ChatMessage.content (List.cons.inj (List.cons.inj hAfter).2).1.symm] at hOutcome
          have hMem : (run.call.name, run.outcome?) ∈
              t.runs.map fun run => (run.call.name, run.outcome?) :=
            List.mem_map.mpr ⟨run, List.mem_of_getElem? hRun, rfl⟩
          rw [hRuns, hCall, hOutcome] at hMem
          exact absurd hMem (by decide)

end Agent
end OctoForge
