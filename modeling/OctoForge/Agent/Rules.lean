import OctoForge.Agent.Tracking
import OctoForge.Coop.Alone

/-!
# Rules for the loop

The two loops inside an iteration, once for every invariant: the pump that takes
in the LLM stream (`rule_pumpStream`) and the wait for the tool runs
(`rule_wait`).  What is known before and after a single step is left to the
development that uses the rule.
-/

namespace OctoForge
namespace Agent

open Coop

variable {inv : Loop → Prop} {E : LoopError → Loop → Prop}

/-! ## Assertions the surroundings do not break -/

theorem undisturbed_outcome (f : IterationOutcome → Prop) :
    Undisturbed inv Surroundings fun s => f s.outcome := by
  intro s s' _ _ hStep hOutcome
  rwa [hStep.beside.outcome]

theorem undisturbed_cancelled : Undisturbed inv Surroundings fun s => s.cancelled = true :=
  fun _ _ _ _ hStep hCancelled => hStep.beside.cancelled hCancelled

theorem Loop.Beside.iterations {s s' : Loop} (hBeside : s.Beside s') :
    s'.iterations = s.iterations := by
  rw [Loop.iterations, hBeside.prompts, Loop.iterations]

theorem Loop.Beside.tracker {s s' : Loop} (hBeside : s.Beside s') :
    s'.tracker.order = s.tracker.order ∧ s'.tracker.tasks = s.tracker.tasks ∧
      s'.tracker.seen = s.tracker.seen := by
  rcases hBeside.runs with ⟨-, hTracker⟩ | ⟨n, run, r, -, -, -, rfl⟩
  · rw [hTracker]
    exact ⟨rfl, rfl, rfl⟩
  · show (ite _ _ _ : Tracker).order = _ ∧ (ite _ _ _ : Tracker).tasks = _ ∧
      (ite _ _ _ : Tracker).seen = _
    split
    · exact ⟨rfl, rfl, rfl⟩
    · exact ⟨rfl, rfl, rfl⟩

theorem undisturbed_order (f : List ToolCall → Prop) :
    Undisturbed inv Surroundings fun s => f s.tracker.order := by
  intro s s' _ _ hStep hOrder
  rwa [hStep.beside.tracker.1]

/-- Whatever is true of a run that has ended stays true of it. -/
theorem Loop.Beside.run_ended {s s' : Loop} (hBeside : s.Beside s') {n : Nat} {run : ToolRun}
    (hRun : s.runs[n]? = some run) (hEnded : run.status.isEnded = true) :
    ∃ run', s'.runs[n]? = some run' ∧ run'.iteration = run.iteration ∧ run'.call = run.call ∧
      run'.status = run.status := by
  rcases hBeside.runs with ⟨hOlder, -⟩ | ⟨m, other, r, hOther, hNot, -, rfl⟩
  · obtain ⟨run', hRun', hAges⟩ := hOlder.get hRun
    exact ⟨run', hRun', hAges.1, hAges.2.1, hAges.ended hEnded⟩
  · have hNe : m ≠ n := by
      rintro rfl
      obtain rfl := Option.some.inj (hRun.symm.trans hOther)
      rw [hEnded] at hNot
      exact absurd hNot (by decide)
    refine ⟨run, ?_, rfl, rfl, rfl⟩
    show (s.runs.set m _)[n]? = some run
    rw [List.getElem?_set_ne hNe, hRun]

theorem Loop.Beside.runs_length {s s' : Loop} (hBeside : s.Beside s') :
    s'.runs.length = s.runs.length := by
  rcases hBeside.runs with ⟨hOlder, -⟩ | ⟨m, other, r, -, -, -, rfl⟩
  · exact hOlder.length_eq.symm
  · exact List.length_set

theorem Loop.Beside.ended {s s' : Loop} (hBeside : s.Beside s') {n : Nat}
    (hEnded : s.ended n = true) : s'.ended n = true := by
  cases hRun : s.runs[n]? with
  | none =>
      have hNone : s'.runs[n]? = none := by
        rw [List.getElem?_eq_none_iff, hBeside.runs_length]
        exact List.getElem?_eq_none_iff.mp hRun
      rw [Loop.ended, hNone]
  | some run =>
      rw [Loop.ended, hRun] at hEnded
      obtain ⟨run', hRun', -, -, hStatus⟩ := hBeside.run_ended hRun hEnded
      rw [Loop.ended, hRun']
      show run'.status.isEnded = true
      rw [hStatus]
      exact hEnded

/-! ## Yields, aborts and the LLM stream -/

theorem leave_cases (s : Loop) (slip : Slip) :
    s.leave slip = s ∨ s.leave slip = { s with slips := s.slips ++ [slip] } := by
  unfold Loop.leave
  split
  · exact Or.inr rfl
  · exact Or.inl rfl

theorem rule_resumed {A : Loop → Prop} (hKept : Undisturbed inv Surroundings A)
    (hClose : ∀ s, inv s → A s → inv (s.leave .abandoned) ∧ E .generatorExit (s.leave .abandoned)) :
    Co.Contract inv Surroundings A resumed (fun _ => A) E := by
  refine Co.contract_attempt hKept fun s hInv hA => ?_
  split
  · exact hClose s hInv hA
  · exact ⟨hInv, hA⟩

theorem rule_emit {A B : Loop → Prop} (event : LoopEvent) (hKept : Undisturbed inv Surroundings A)
    (hKept' : Undisturbed inv Surroundings B)
    (hDeliver : ∀ s, inv s → A s → inv (s.deliver event) ∧ B (s.deliver event))
    (hClose : ∀ s, inv s → B s → inv (s.leave .abandoned) ∧ E .generatorExit (s.leave .abandoned)) :
    Co.Contract inv Surroundings A (emit event) (fun _ => B) E :=
  (Co.contract_modify hKept hDeliver).bind fun _ => rule_resumed hKept' hClose

theorem rule_emitObserved {A B : Loop → Prop} (event : LoopEvent)
    (hKept : Undisturbed inv Surroundings A) (hKept' : Undisturbed inv Surroundings B)
    (hDeliver : ∀ s, inv s → A s →
      inv { s.deliver event with outcome := s.outcome.observe event } ∧
        B { s.deliver event with outcome := s.outcome.observe event })
    (hClose : ∀ s, inv s → B s → inv (s.leave .abandoned) ∧ E .generatorExit (s.leave .abandoned)) :
    Co.Contract inv Surroundings A (emitObserved event) (fun _ => B) E :=
  (Co.contract_modify hKept hDeliver).bind fun _ => rule_resumed hKept' hClose

/-- An abort waits for the tasks even when it is cancelled itself. -/
theorem rule_abort {A A' B : Loop → Prop} (hKept : Undisturbed inv Surroundings A)
    (hKept' : Undisturbed inv Surroundings A')
    (hCancel : ∀ s, inv s → A s → inv s.cancelTasks ∧ A' s.cancelTasks)
    (hInterrupt : ∀ s, inv s → A' s → s.tasksEnded = true →
      inv { s with interrupted := false } ∧ E .cancelledError { s with interrupted := false })
    (hEnded : ∀ s, inv s → A' s → s.tasksEnded = true → inv s.drain ∧ B s.drain) :
    Co.Contract inv Surroundings A abort (fun _ => B) E := by
  refine (Co.contract_modify hKept hCancel).bind fun _ => ?_
  refine Co.contract_attemptWhen hKept' fun s hInv hA hReady => ?_
  split
  · exact hInterrupt s hInv hA hReady
  · exact hEnded s hInv hA hReady

theorem rule_nextEvent {A : Loop → Prop} (comes : Bool) (hKept : Undisturbed inv Surroundings A)
    (hTake : ∀ s arrived interrupted, inv s → A s →
      inv { s with arrived, interrupted } ∧ A { s with arrived, interrupted })
    (hRaise : ∀ s error, error ≠ .generatorExit → inv s → A s → E error s) :
    Co.Contract inv Surroundings A (nextEvent comes) (fun _ => A) E := by
  have hStop : Co.Contract inv Surroundings A stopRead (fun _ => A) E := by
    refine Co.contract_attempt hKept fun s hInv hA => ?_
    split
    · exact ⟨hInv, hRaise s _ (by simp) hInv hA⟩
    · exact hTake s s.arrived false hInv hA
  refine (Co.contract_attemptWhen (B := fun _ => A) hKept fun s hInv hA _ => ?_).bind
    fun next => ?_
  · split
    · obtain ⟨hInv', hA'⟩ := hTake s s.arrived false hInv hA
      exact ⟨hInv', hRaise _ _ (by simp) hInv' hA'⟩
    · split
      · exact hTake s false s.interrupted hInv hA
      · split
        · exact ⟨hInv, hA⟩
        · exact ⟨hInv, hA⟩
  · cases next with
    | arrived => exact Co.contract_done fun _ _ hA => hA
    | runCancelled => exact hStop.bind fun _ => Co.contract_done fun _ _ hA => hA
    | timeout => exact hStop.bind fun _ => Co.contract_done fun _ _ hA => hA

theorem rule_closeStream {A : Loop → Prop} (hKept : Undisturbed inv Surroundings A)
    (hFails : ∀ s interrupted error, inv s → A s →
      inv ({ s with interrupted }.leave .closeFailed) ∧
        E error ({ s with interrupted }.leave .closeFailed)) :
    Co.Contract inv Surroundings A closeStream (fun _ => A) E := by
  refine Co.contract_attempt hKept fun s hInv hA => ?_
  split
  · exact hFails s false _ hInv hA
  · split
    · exact hFails s s.interrupted _ hInv hA
    · exact ⟨hInv, hA⟩

/-- The stream died: `P` is what the pump left behind, `D` what the abort leaves,
however it ends. -/
theorem rule_streamDied {P : LoopError → Loop → Prop} {D : Loop → Prop}
    {B : AssistantStreamState → Loop → Prop}
    (hExit : ∀ s, inv s → P .generatorExit s → E .generatorExit s)
    (hAbort : ∀ error, error ≠ .generatorExit →
      Co.Contract inv Surroundings (P error) abort (fun _ => D) fun _ => D)
    (hClose : Co.Contract inv Surroundings D closeStream (fun _ => D) E)
    (hRaise : ∀ s error, inv s → D s → E error s) (error : LoopError) :
    Co.Contract inv Surroundings (P error) (streamDied error) B E := by
  have hDies : error ≠ .generatorExit → Co.Contract inv Surroundings (P error) (do
      let raised ← Co.tryCatch (do abort; pure error : Work LoopError) pure
      closeStream
      Co.throw raised) B E := by
    intro hError
    refine Co.Contract.bind (B := fun _ => D) ?_ fun raised => ?_
    · refine Co.Contract.tryCatch (E := fun _ => D) ?_ fun _ => Co.contract_done fun _ _ hD => hD
      exact (hAbort error hError).bind fun _ => Co.contract_done fun _ _ hD => hD
    · exact hClose.bind fun _ => Co.contract_fail fun s hInv hD => hRaise s raised hInv hD
  cases error with
  | generatorExit => exact Co.contract_fail hExit
  | cancelledError => exact hDies (by simp)
  | contextOverflow => exact hDies (by simp)
  | raised text => exact hDies (by simp)
  | assertionError => exact hDies (by simp)

/-! ## The pump -/

theorem note_finalMessage (state : AssistantStreamState) (event : StreamEvent) :
    (state.note event).finalMessage =
      (AssistantStreamState.note { finalMessage := state.finalMessage } event).finalMessage := by
  cases event <;> rfl

/-- The pump stopped early, or it took in the whole stream. -/
def Pumped (A : List StreamEvent → Loop → Prop) (events : List StreamEvent)
    (state : AssistantStreamState) (s : Loop) : Prop :=
  ∃ taken, A taken s ∧ (state.timedOut = true ∨ state.interrupted = true ∨ taken = events ∧
    state.finalMessage = (events.foldl AssistantStreamState.note {}).finalMessage)

/-- What an event becomes leaves no trace in the outcome, and it is not terminal. -/
def LoopEvent.Plain (event : LoopEvent) : Prop :=
  event.terminal = false ∧ ∀ outcome : IterationOutcome, outcome.observe event = outcome

theorem plain_result (r : ToolRunResult) : r.event.Plain := by
  unfold ToolRunResult.event
  split
  · exact ⟨rfl, fun _ => rfl⟩
  · exact ⟨rfl, fun _ => rfl⟩

theorem plain_translate {event : StreamEvent} {loopEvent : LoopEvent}
    (hMem : loopEvent ∈ translate event) : loopEvent.Plain := by
  cases event with
  | textDelta text =>
      obtain rfl := List.mem_singleton.mp hMem
      exact ⟨rfl, fun _ => rfl⟩
  | reasoningDelta =>
      obtain rfl := List.mem_singleton.mp hMem
      exact ⟨rfl, fun _ => rfl⟩
  | toolCallReady call =>
      obtain rfl := List.mem_singleton.mp hMem
      exact ⟨rfl, fun _ => rfl⟩
  | retryScheduled attempt delaySeconds reason =>
      obtain rfl := List.mem_singleton.mp hMem
      exact ⟨rfl, fun _ => rfl⟩
  | toolCallStarted => simp [translate] at hMem
  | toolCallBroken => simp [translate] at hMem
  | streamFinished => simp [translate] at hMem

theorem rule_handleStreamEvent {A B : Loop → Prop} {event : StreamEvent}
    (hKept : Undisturbed inv Surroundings A)
    (hStep : ∀ s, inv s → A s → inv (track event s).drain ∧ B (track event s).drain) :
    Co.Contract inv Surroundings A (handleStreamEvent event)
      (fun events s => B s ∧ ∀ loopEvent ∈ events, loopEvent.Plain) E := by
  refine Co.contract_atomic hKept fun s hInv hA => ?_
  obtain ⟨hInv', hB⟩ := hStep s hInv hA
  refine ⟨hInv', hB, fun loopEvent hMem => ?_⟩
  rcases List.mem_append.mp hMem with hMem | hMem
  · exact plain_translate hMem
  · obtain ⟨r, -, rfl⟩ := List.mem_map.mp hMem
    exact plain_result r

/-- The rule of the pump: `A taken` is what holds when it has taken in these events. -/
theorem rule_pumpStream {A : List StreamEvent → Loop → Prop} (ending : StreamEnd)
    {events : List StreamEvent} (hKept : ∀ taken, Undisturbed inv Surroundings (A taken))
    (hNext : ∀ taken comes, Co.Contract inv Surroundings (A taken) (nextEvent comes)
      (fun _ => A taken) E)
    (hHandle : ∀ taken event rest, events = taken ++ event :: rest →
      Co.Contract inv Surroundings (A taken) (handleStreamEvent event) (fun loopEvents s =>
        A (taken ++ [event]) s ∧ ∀ loopEvent ∈ loopEvents, loopEvent.Plain) E)
    (hEmit : ∀ taken (event : LoopEvent), event.Plain →
      Co.Contract inv Surroundings (A taken) (emitObserved event) (fun _ => A taken) E)
    (hRaise : ∀ taken s error, error ≠ .generatorExit → inv s → A taken s → E error s)
    (taken rest : List StreamEvent) (state : AssistantStreamState)
    (hEvents : events = taken ++ rest)
    (hState : state.finalMessage = (taken.foldl AssistantStreamState.note {}).finalMessage) :
    Co.Contract inv Surroundings (A taken) (pumpStream ending state rest) (Pumped A events) E := by
  have hTimedOut : ∀ taken (state : AssistantStreamState) s, A taken s →
      Pumped A events { state with timedOut := true } s :=
    fun taken _ s hA => ⟨taken, hA, Or.inl rfl⟩
  have hInterrupted : ∀ taken (state : AssistantStreamState) s, A taken s →
      Pumped A events { state with interrupted := true } s :=
    fun taken _ s hA => ⟨taken, hA, Or.inr (Or.inl rfl)⟩
  -- On the events that are still to come: each is taken before it is handled.
  induction rest generalizing taken state with
  | nil =>
      refine (hNext taken _).bind fun next => ?_
      cases next with
      | timeout => exact Co.contract_done fun s _ => hTimedOut taken state s
      | runCancelled => exact Co.contract_done fun s _ => hInterrupted taken state s
      | arrived =>
          rw [List.append_nil] at hEvents
          subst hEvents
          have hWhole : ∀ s, A events s → Pumped A events state s :=
            fun s hA => ⟨events, hA, Or.inr (Or.inr ⟨rfl, hState⟩)⟩
          cases ending with
          | overflows => exact Co.contract_fail fun s hInv hA => hRaise _ s _ (by simp) hInv hA
          | raises text => exact Co.contract_fail fun s hInv hA => hRaise _ s _ (by simp) hInv hA
          | ends => exact Co.contract_done fun s _ => hWhole s
          | stalls => exact Co.contract_done fun s _ => hWhole s
  | cons event rest ih =>
      refine (hNext taken _).bind fun next => ?_
      cases next with
      | timeout => exact Co.contract_done fun s _ => hTimedOut taken state s
      | runCancelled => exact Co.contract_done fun s _ => hInterrupted taken state s
      | arrived =>
          refine ((Co.contract_read (hKept taken)).post fun _ _ _ hBoth => hBoth.1).bind
            fun cancelled => ?_
          cases cancelled with
          | true => exact Co.contract_done fun s _ => hInterrupted taken state s
          | false =>
              refine (hHandle taken event rest hEvents).bind fun loopEvents => ?_
              by_cases hPlain : ∀ loopEvent ∈ loopEvents, loopEvent.Plain
              · refine ((Co.Contract.forEach_const loopEvents fun loopEvent hMem =>
                  hEmit (taken ++ [event]) loopEvent (hPlain loopEvent hMem)).pre
                    fun s _ hBoth => hBoth.1).bind fun _ => ?_
                refine ih (taken ++ [event]) (state.note event) (by simp [hEvents]) ?_
                rw [List.foldl_append, List.foldl_cons, List.foldl_nil, note_finalMessage, hState,
                  ← note_finalMessage]
              · exact fun s _ hBoth => absurd hBoth.2 hPlain

/-! ## The wait for the tools -/

/-- Every task but these has ended. -/
def Pending (pending : List Nat) (s : Loop) : Prop :=
  ∀ task ∈ s.tracker.tasks, task.2 ∈ pending ∨ s.ended task.2 = true

theorem undisturbed_pending (pending : List Nat) :
    Undisturbed inv Surroundings (Pending pending) := by
  intro s s' _ _ hStep hPending task hMem
  rw [hStep.beside.tracker.2.1] at hMem
  exact (hPending task hMem).imp_right hStep.beside.ended

/-- A round of the wait: it is over, or one run less is pending. -/
theorem rule_awaitRuns {A : Loop → Prop} (hKept : Undisturbed inv Surroundings A)
    (hWatched : ∀ s, inv s → s.watched = true → s.cancelled = true)
    (hInterrupt : ∀ s, inv s → A s → inv ({ s with interrupted := false }.leave .abandoned) ∧
      E .cancelledError ({ s with interrupted := false }.leave .abandoned)) (pending : List Nat) :
    Co.Contract inv Surroundings (fun s => A s ∧ Pending pending s) (awaitRuns pending)
      (fun next s =>
        match next with
        | none => A s ∧ s.cancelled = true
        | some rest => (A s ∧ Pending rest s) ∧ rest.length < pending.length) E := by
  refine Co.contract_attemptWhen (hKept.and (undisturbed_pending pending)) fun s hInv hBoth hReady => ?_
  split
  · exact hInterrupt s hInv hBoth.1
  · split
    · rename_i hTrue
      exact ⟨hInv, hBoth.1, hWatched s hInv hTrue⟩
    · rename_i hInterrupted hNotWatched
      refine ⟨hInv, ⟨hBoth.1, fun task hMem => ?_⟩, ?_⟩
      · cases hEnded : s.ended task.2 with
        | true => exact Or.inr rfl
        | false =>
            refine Or.inl (List.mem_filter.mpr ⟨?_, by simp [hEnded]⟩)
            exact (hBoth.2 task hMem).resolve_right (by simp [hEnded])
      · have hAny : pending.any s.ended = true := by simpa [hInterrupted, hNotWatched] using hReady
        obtain ⟨n, hMem, hEnded⟩ := List.any_eq_true.mp hAny
        exact List.length_filter_lt_length_iff_exists.mpr ⟨n, hMem, by simp [hEnded]⟩

/-- The rule of the wait.  `Q` is what a drain establishes once every task has
ended. -/
theorem rule_waitRounds {A Q : Loop → Prop}
    (hAwait : ∀ pending, Co.Contract inv Surroundings (fun s => A s ∧ Pending pending s)
      (awaitRuns pending) (fun next s =>
        match next with
        | none => A s ∧ s.cancelled = true
        | some rest => (A s ∧ Pending rest s) ∧ rest.length < pending.length) E)
    (hDrain : ∀ pending, Co.Contract inv Surroundings (fun s => A s ∧ Pending pending s)
      drainAndEmit (fun _ s => (A s ∧ Pending pending s) ∧ (pending = [] → Q s)) E)
    (rounds : Nat) (pending : List Nat) (hRounds : pending.length ≤ rounds) :
    Co.Contract inv Surroundings (fun s => A s ∧ Pending pending s) (waitRounds rounds pending)
      (fun _ s => A s ∧ (Q s ∨ s.cancelled = true)) E := by
  have hOver : Co.Contract inv Surroundings (fun s => A s ∧ Pending [] s) drainAndEmit
      (fun _ s => A s ∧ (Q s ∨ s.cancelled = true)) E :=
    (hDrain []).post fun _ s _ hAfter => ⟨hAfter.1.1, Or.inl (hAfter.2 rfl)⟩
  induction rounds generalizing pending with
  | zero =>
      obtain rfl := List.eq_nil_of_length_eq_zero (Nat.le_zero.mp hRounds)
      exact hOver
  | succ rounds ih =>
      cases pending with
      | nil => exact hOver
      | cons number rest =>
          refine (hAwait (number :: rest)).bind fun next => ?_
          cases next with
          | none => exact Co.contract_done fun s _ hAfter => ⟨hAfter.1, Or.inr hAfter.2⟩
          | some left =>
              by_cases hLess : left.length < (number :: rest).length
              · refine (((hDrain left).pre fun s _ hBoth => hBoth.1).post
                  fun _ s _ hAfter => hAfter.1).bind fun _ => ?_
                exact ih left (by omega)
              · exact fun s _ hBoth => absurd hBoth.2 hLess

theorem rule_drainAndEmit {A B : Loop → Prop} (hKept : Undisturbed inv Surroundings A)
    (hDrain : ∀ s, inv s → A s → inv s.drain ∧ B s.drain)
    (hEmit : ∀ event : LoopEvent, event.Plain →
      Co.Contract inv Surroundings B (emit event) (fun _ => B) E) :
    Co.Contract inv Surroundings A drainAndEmit (fun _ => B) E := by
  refine Co.Contract.bind (B := fun events s => B s ∧ ∀ event ∈ events, LoopEvent.Plain event)
    ?_ fun events => ?_
  · refine Co.contract_atomic hKept fun s hInv hA => ?_
    obtain ⟨hInv', hB⟩ := hDrain s hInv hA
    refine ⟨hInv', hB, fun event hMem => ?_⟩
    obtain ⟨r, -, rfl⟩ := List.mem_map.mp hMem
    exact plain_result r
  · by_cases hPlain : ∀ event ∈ events, LoopEvent.Plain event
    · exact (Co.Contract.forEach_const events fun event hMem => hEmit event (hPlain event hMem)).pre
        fun _ _ hBoth => hBoth.1
    · exact fun _ _ hBoth => absurd hBoth.2 hPlain

/-- Where one assertion survives every spawn. -/
theorem rule_startCalls {A : Loop → Prop} (message : ChatMessage)
    (hKept : Undisturbed inv Surroundings A)
    (hSpawn : ∀ s call, inv s → A s → inv (s.spawn call) ∧ A (s.spawn call))
    (hEmit : ∀ call, Co.Contract inv Surroundings A (emit (.toolCallRequested call))
      (fun _ => A) E) :
    Co.Contract inv Surroundings A (startCalls message) (fun _ => A) E := by
  refine ((Co.contract_read hKept).post fun _ _ _ hBoth => hBoth.1).bind fun seen => ?_
  cases seen with
  | true => exact Co.contract_done fun _ _ hA => hA
  | false =>
      refine Co.Contract.forEach_const message.toolCalls fun call _ => ?_
      exact (Co.contract_modify hKept fun s => hSpawn s call).bind fun _ => hEmit call

theorem rule_wait {A D Q : Loop → Prop} (hKept : Undisturbed inv Surroundings A) (index : Nat)
    (hBegin : ∀ s, inv s → A s → inv { s with watched := false, waiting := some index } ∧
      D { s with watched := false, waiting := some index })
    (hAwait : ∀ pending, Co.Contract inv Surroundings (fun s => D s ∧ Pending pending s)
      (awaitRuns pending) (fun next s =>
        match next with
        | none => D s ∧ s.cancelled = true
        | some rest => (D s ∧ Pending rest s) ∧ rest.length < pending.length) E)
    (hDrain : ∀ pending, Co.Contract inv Surroundings (fun s => D s ∧ Pending pending s)
      drainAndEmit (fun _ s => (D s ∧ Pending pending s) ∧ (pending = [] → Q s)) E) :
    Co.Contract inv Surroundings A (wait index)
      (fun _ s => D s ∧ (Q s ∨ s.cancelled = true)) E := by
  refine Co.Contract.bind (B := fun pending s => D s ∧ Pending pending s) ?_ fun pending =>
    rule_waitRounds hAwait hDrain pending.length pending (Nat.le_refl _)
  refine Co.contract_atomic hKept fun s hInv hA => ?_
  obtain ⟨hInv', hD⟩ := hBegin s hInv hA
  refine ⟨hInv', hD, fun task hMem => ?_⟩
  have hTask : task ∈ s.tracker.tasks := hMem
  cases hEnded : s.ended task.2 with
  | true => exact Or.inr hEnded
  | false =>
      exact Or.inl (List.mem_filter.mpr ⟨List.mem_map.mpr ⟨task, hTask, rfl⟩, by simp [hEnded]⟩)

/-- After the wait: the flag is set and the runs are aborted, or `Q` holds. -/
theorem rule_abortIfCancelled {A D Q B : Loop → Prop} (hKept : Undisturbed inv Surroundings A)
    (hKeptQ : Undisturbed inv Surroundings Q)
    (hOver : ∀ s, inv s → A s → inv { s with waiting := none } ∧ D { s with waiting := none })
    (hSame : ∀ s, Q s → Q { s with waiting := none })
    (hAbort : Co.Contract inv Surroundings D abort (fun _ => B) E)
    (hDone : ∀ s, inv s → D s → Q s → B s) :
    Co.Contract inv Surroundings (fun s => A s ∧ (Q s ∨ s.cancelled = true)) abortIfCancelled
      (fun _ => B) E := by
  have hWaited : Undisturbed inv Surroundings fun s => Q s ∨ s.cancelled = true :=
    fun s s' hInv hInv' hStep hEither => hEither.imp
      (hKeptQ s s' hInv hInv' hStep) (undisturbed_cancelled s s' hInv hInv' hStep)
  refine Co.Contract.bind (B := fun cancelled s => D s ∧ (cancelled = false → Q s)) ?_
    fun cancelled => ?_
  · refine Co.contract_atomic (hKept.and hWaited) fun s hInv hBoth => ?_
    obtain ⟨hInv', hD⟩ := hOver s hInv hBoth.1
    refine ⟨hInv', hD, fun hNot => hSame s (hBoth.2.resolve_right ?_)⟩
    exact fun hYes => absurd (hYes.symm.trans hNot) (by decide)
  · cases cancelled with
    | true => exact hAbort.pre fun _ _ hBoth => hBoth.1
    | false => exact Co.contract_done fun s hInv hBoth => hDone s hInv hBoth.1 (hBoth.2 rfl)

end Agent
end OctoForge
