import OctoForge.Agent.Rules
import OctoForge.Sequence.Places

/-!
# The tools of a run

A tool runs in a task of its own, and nobody but the tracker of its iteration
knows that task.  There is no common cleanup: each way out of an iteration has to
abort the tracker by itself.  As long as none of them slips, every tool that has
not ended is one the current tracker can still stop (`Guarded`), and every way
out is taken with no tool left (`Idle`).
-/

namespace OctoForge
namespace Agent

open Coop

/-! ## Tools only fade -/

/-- No tool comes to life, and the task of a living tool has not ended before it. -/
def Fades (runs runs' : List ToolRun) : Prop :=
  ∀ (n : Nat) run', runs'[n]? = some run' → run'.alive = true →
    ∃ run, runs[n]? = some run ∧ run.alive = true ∧
      (run.status.isEnded = false → run'.status.isEnded = false)

theorem Fades.refl (runs : List ToolRun) : Fades runs runs :=
  fun _ run hRun hAlive => ⟨run, hRun, hAlive, id⟩

theorem fades_set {runs : List ToolRun} {n : Nat} {run run' : ToolRun} (hRun : runs[n]? = some run)
    (hFades : run'.alive = true → run.alive = true ∧
      (run.status.isEnded = false → run'.status.isEnded = false)) :
    Fades runs (runs.set n run') := by
  intro m other hOther hAlive
  rcases Sequence.getElem?_set_cases hOther with ⟨rfl, rfl⟩ | ⟨-, hOld⟩
  · exact ⟨run, hRun, hFades hAlive⟩
  · exact ⟨other, hOld, hAlive, id⟩

theorem fades_toolEnds {s : Loop} {n : Nat} {run : ToolRun} (hRun : s.runs[n]? = some run)
    (outcome : ToolOutcome) : Fades s.runs (s.toolEnds n run outcome).runs := by
  cases outcome with
  | output text => exact fades_set hRun (by simp)
  | raised className message => exact fades_set hRun (by simp)
  | cancelled => exact fades_set hRun (by simp)

theorem fades_toolStops {s : Loop} {n : Nat} {run : ToolRun} (hRun : s.runs[n]? = some run)
    (outcome : ToolOutcome) : Fades s.runs (s.happen (.toolStops n outcome)).runs := by
  simp only [Loop.happen, hRun]
  split
  · exact fades_set hRun (by simp)
  · exact fades_set hRun (by simp)
  · exact Fades.refl _

theorem Surroundings.fades {s s' : Loop} (hStep : Surroundings s s') : Fades s.runs s'.runs := by
  obtain ⟨h, rfl⟩ := hStep
  cases h with
  | cancel => exact Fades.refl _
  | watch => exact Fades.refl _
  | arrive => exact Fades.refl _
  | idle => exact Fades.refl _
  | interrupt => exact Fades.refl _
  | close => exact Fades.refl _
  | closeFails fails => exact Fades.refl _
  -- Only what happens to a tool touches the runs.
  | toolEnds n outcome =>
      simp only [Loop.happen]
      split
      · rename_i run hRun
        split
        · exact fades_toolEnds hRun outcome
        · exact Fades.refl _
      · exact Fades.refl _
  | toolExpires n =>
      simp only [Loop.happen]
      split
      · rename_i run hRun
        split
        · exact fades_set hRun fun hAlive => ⟨hAlive, fun _ => rfl⟩
        · exact Fades.refl _
      · exact Fades.refl _
  | toolStops n outcome =>
      cases hRun : s.runs[n]? with
      | none =>
          simp only [Loop.happen, hRun]
          exact Fades.refl _
      | some run => exact fades_toolStops hRun outcome
  | toolDefies n =>
      simp only [Loop.happen]
      split
      · rename_i run hRun
        exact fades_set hRun fun hAlive => ⟨hAlive, id⟩
      · exact Fades.refl _

/-! ## The invariant -/

/-- Every tool that has not ended can be stopped through the tracker. -/
def Watched (runs : List ToolRun) (tasks : List (String × Nat)) : Prop :=
  ∀ (n : Nat) run, runs[n]? = some run → run.alive = true →
    run.status.isEnded = false ∧ n ∈ tasks.map (·.2)

/-- What holds at every moment of a run, as long as no tool was left running. -/
def Guarded (s : Loop) : Prop :=
  (s.slips = [] → Watched s.runs s.tracker.tasks) ∧ (s.watched = true → s.cancelled = true)

/-- No tool is running, unless one was left running. -/
def Idle (s : Loop) : Prop := s.slips = [] → s.busy = false

theorem busy_eq_false_iff {s : Loop} :
    s.busy = false ↔ ∀ (n : Nat) run, s.runs[n]? = some run → run.alive = false := by
  rw [Loop.busy, List.any_eq_false]
  constructor
  · intro hNone n run hRun
    simpa using hNone run (List.mem_of_getElem? hRun)
  · intro hNone run hMem
    obtain ⟨n, hRun⟩ := List.getElem?_of_mem hMem
    simpa using hNone n run hRun

theorem Fades.watched {runs runs' : List ToolRun} {tasks : List (String × Nat)}
    (hFades : Fades runs runs') (hWatched : Watched runs tasks) : Watched runs' tasks := by
  intro n run' hRun' hAlive
  obtain ⟨run, hRun, hBefore, hEnded⟩ := hFades n run' hRun' hAlive
  obtain ⟨hNot, hTask⟩ := hWatched n run hRun hBefore
  exact ⟨hEnded hNot, hTask⟩

theorem Fades.busy {s s' : Loop} (hFades : Fades s.runs s'.runs) (hIdle : s.busy = false) :
    s'.busy = false := by
  rw [busy_eq_false_iff] at hIdle ⊢
  intro n run' hRun'
  cases hAlive : run'.alive with
  | false => rfl
  | true =>
      obtain ⟨run, hRun, hBefore, -⟩ := hFades n run' hRun' hAlive
      exact absurd (hBefore.symm.trans (hIdle n run hRun)) (by decide)

theorem Guarded.beside {s s' : Loop} (hInv : Guarded s) (hStep : Surroundings s s') :
    Guarded s' := by
  have hBeside := hStep.beside
  refine ⟨fun hNone => ?_, fun hWatched => ?_⟩
  · rw [hBeside.tracker.2.1]
    exact hStep.fades.watched (hInv.1 (hBeside.slips.symm.trans hNone))
  · rcases hBeside.watched hWatched with hBefore | hCancelled
    · exact hBeside.cancelled (hInv.2 hBefore)
    · exact hCancelled

theorem undisturbed_idle {inv : Loop → Prop} : Undisturbed inv Surroundings Idle :=
  fun _ _ _ _ hStep hIdle hNone =>
    hStep.fades.busy (hIdle (hStep.beside.slips.symm.trans hNone))

/-! ## What the loop does to it -/

theorem guarded_leave {s : Loop} (slip : Slip) (hInv : Guarded s) : Guarded (s.leave slip) := by
  unfold Loop.leave
  split
  · exact ⟨by simp, hInv.2⟩
  · exact hInv

/-- A way out is a slip, or no tool is running. -/
theorem idle_leave (s : Loop) (slip : Slip) : Idle (s.leave slip) := by
  unfold Loop.leave
  split
  · intro hNone
    simp at hNone
  · rename_i hNot
    intro _
    simpa using hNot

theorem guarded_spawn {s : Loop} (call : ToolCall) (hInv : Guarded s) : Guarded (s.spawn call) := by
  refine ⟨fun hNone => ?_, hInv.2⟩
  have hSlips : (if s.displaces call then s.slips ++ [.displaced] else s.slips) = [] := hNone
  split at hSlips
  · simp at hSlips
  rename_i hNot
  intro n run hRun hAlive
  have hGet : (s.runs ++ [_])[n]? = some run := hRun
  rcases Sequence.getElem?_concat_cases hGet with hGet | ⟨rfl, rfl⟩
  · obtain ⟨hRunning, hTask⟩ := hInv.1 hSlips n run hGet hAlive
    refine ⟨hRunning, ?_⟩
    obtain ⟨⟨id, n'⟩, hMem, rfl⟩ := List.mem_map.mp hTask
    -- a call that takes over the id of a running one is a slip
    have hNe : id ≠ call.id := by
      rintro rfl
      refine hNot (List.any_eq_true.mpr ⟨(call.id, n'), hMem, ?_⟩)
      have hHere : s.runs[n']? = some run := hGet
      simp [hHere, hAlive]
    exact List.mem_map.mpr ⟨(id, n'), mem_setTask hMem hNe, rfl⟩
  · refine ⟨by simp [RunStatus.isEnded], ?_⟩
    exact List.mem_map.mpr ⟨_, mem_setTask_self call.id s.runs.length s.tracker.tasks, rfl⟩

theorem guarded_markBroken {s : Loop} (callId name error : String) (hInv : Guarded s) :
    Guarded (s.markBroken callId name error) := by
  refine ⟨fun hNone n run hRun hAlive => ?_, hInv.2⟩
  have hGet : (s.runs ++ [_])[n]? = some run := hRun
  rcases Sequence.getElem?_concat_cases hGet with hOld | ⟨-, rfl⟩
  · exact hInv.1 hNone n run hOld hAlive
  · simp at hAlive

theorem guarded_track {s : Loop} (event : StreamEvent) (hInv : Guarded s) :
    Guarded (track event s) := by
  cases event with
  | toolCallReady call => exact guarded_spawn call hInv
  | toolCallBroken index callId name error raw => exact guarded_markBroken callId name error hInv
  | _ => exact hInv

/-- A tool that was cancelled has ended, or it is a slip; one whose limit is over
is still waited for. -/
theorem guarded_cancelTasks {s : Loop} (hInv : Guarded s) : Guarded s.cancelTasks := by
  refine ⟨fun hNone => ?_, hInv.2⟩
  have hSlips : (if s.cancelTasks.runs.any fun run => run.alive && run.status = .cancelled then
      s.slips ++ [.defied] else s.slips) = [] := hNone
  split at hSlips
  · simp at hSlips
  rename_i hNot
  rw [List.any_eq_true] at hNot
  intro n run' hRun' hAlive
  have hGet : (s.runs.mapIdx _)[n]? = some run' := hRun'
  rw [List.getElem?_mapIdx, Option.map_eq_some_iff] at hGet
  obtain ⟨run, hRun, hEq⟩ := hGet
  -- No slip is recorded, so no tool that was cancelled is still alive.
  have hCancelled : run'.status ≠ .cancelled := fun hStatus =>
    hNot ⟨run', List.mem_of_getElem? hRun', by simp [hAlive, hStatus]⟩
  have hWatched := hInv.1 hSlips n run hRun
  split at hEq
  · cases hStatus : run.status with
    | waiting =>
        refine absurd ?_ hCancelled
        rw [← hEq]
        simp [ToolRun.cancel, hStatus]
    | expired =>
        obtain rfl : run = run' := by simpa [ToolRun.cancel, hStatus] using hEq
        exact hWatched hAlive
    | landed r =>
        obtain rfl : run = run' := by simpa [ToolRun.cancel, hStatus] using hEq
        exact hWatched hAlive
    | cancelled =>
        obtain rfl : run = run' := by simpa [ToolRun.cancel, hStatus] using hEq
        exact hWatched hAlive
  · obtain rfl := hEq
    exact hWatched hAlive

/-- Once every task of the tracker has ended, no tool is running. -/
theorem idle_of_tasksEnded {s : Loop} (hInv : Guarded s)
    (hEnded : ∀ task ∈ s.tracker.tasks, s.ended task.2 = true) : Idle s := by
  intro hNone
  rw [busy_eq_false_iff]
  intro n run hRun
  cases hAlive : run.alive with
  | false => rfl
  | true =>
      obtain ⟨hNot, hTask⟩ := hInv.1 hNone n run hRun hAlive
      obtain ⟨task, hMem, rfl⟩ := List.mem_map.mp hTask
      have hTrue := hEnded task hMem
      rw [Loop.ended, hRun] at hTrue
      exact absurd (hNot.symm.trans hTrue) (by decide)

/-- The next tracker knows no task, but then there is nothing it should know. -/
theorem guarded_beginIteration {s : Loop} (hIdle : Idle s) : Guarded s.beginIteration := by
  refine ⟨fun hNone n run hRun hAlive => ?_, by simp [Loop.beginIteration]⟩
  have hDead := busy_eq_false_iff.mp (hIdle hNone) n run hRun
  exact absurd (hAlive.symm.trans hDead) (by decide)

/-! ## The contracts -/

/-- Where the coroutine raises, no tool is running. -/
abbrev Tidies {α : Type} (A : Loop → Prop) (c : Work α) (B : α → Loop → Prop) : Prop :=
  Co.Contract Guarded Surroundings A c B fun _ => Idle

theorem closed_idle {s : Loop} (hInv : Guarded s) :
    Guarded (s.leave .abandoned) ∧ Idle (s.leave .abandoned) :=
  ⟨guarded_leave _ hInv, idle_leave s _⟩

theorem tidies_emit {A : Loop → Prop} (event : LoopEvent)
    (hKept : Undisturbed Guarded Surroundings A) (hDeliver : ∀ s, A s → A (s.deliver event)) :
    Tidies A (emit event) fun _ => A :=
  rule_emit event hKept hKept (fun s hInv hA => ⟨hInv, hDeliver s hA⟩) fun _ hInv _ =>
    closed_idle hInv

theorem tidies_abort {A : Loop → Prop} (hKept : Undisturbed Guarded Surroundings A)
    (hCancel : ∀ s, A s → A s.cancelTasks) (hDrain : ∀ s, A s → A s.drain) :
    Tidies A abort fun _ s => A s ∧ Idle s := by
  have hEnded : ∀ s, Guarded s → s.tasksEnded = true → Idle s := by
    intro s hInv hEnded
    exact idle_of_tasksEnded hInv fun task hMem => by
      simpa using List.all_eq_true.mp hEnded task hMem
  refine rule_abort hKept hKept (fun s hInv hA => ⟨guarded_cancelTasks hInv, hCancel s hA⟩)
    (fun s hInv _ hAll => ⟨hInv, hEnded s hInv hAll⟩) fun s hInv hA hAll => ?_
  exact ⟨hInv, hDrain s hA, hEnded s hInv hAll⟩

/-- The pump is at work. -/
def Pumps (s : Loop) : Prop := s.outcome = {}

theorem undisturbed_pumps : Undisturbed Guarded Surroundings Pumps :=
  undisturbed_outcome fun outcome => outcome = {}

/-- What a pump leaves behind: when the generator is closed at one of its yields,
nobody is told. -/
def PumpDied (error : LoopError) (s : Loop) : Prop := error = .generatorExit → Idle s

theorem tidies_pumpStream (ending : StreamEnd) (events : List StreamEvent) :
    Co.Contract Guarded Surroundings Pumps (pumpStream ending {} events) (fun _ => Pumps)
      PumpDied := by
  refine (rule_pumpStream (A := fun _ => Pumps) ending
    (fun _ => undisturbed_pumps) (fun taken comes => ?_) (fun taken event rest _ => ?_)
    (fun taken event hPlain => ?_) (fun _ _ _ hError _ _ hExit => absurd hExit hError)
    [] events {} rfl rfl).post fun state s hInv hPumped => ?_
  · refine rule_nextEvent comes undisturbed_pumps (fun _ _ _ hInv hA => ⟨hInv, hA⟩) ?_
    exact fun _ _ hError _ _ hExit => absurd hExit hError
  · exact rule_handleStreamEvent undisturbed_pumps fun s hInv hA => ⟨guarded_track event hInv, by
      cases event <;> exact hA⟩
  · refine rule_emitObserved event undisturbed_pumps undisturbed_pumps (fun s hInv hA => ?_)
      fun s hInv _ => ?_
    · exact ⟨hInv, (hPlain.2 _).trans hA⟩
    · exact ⟨guarded_leave _ hInv, fun _ => idle_leave s _⟩
  · obtain ⟨taken, hPumps, -⟩ := hPumped
    exact hPumps

theorem tidies_closeStream {A : Loop → Prop} (hKept : Undisturbed Guarded Surroundings A) :
    Tidies A closeStream fun _ => A :=
  rule_closeStream hKept fun s interrupted _ hInv _ =>
    ⟨guarded_leave (s := { s with interrupted }) _ hInv, idle_leave _ _⟩

theorem tidies_streamDied {B : AssistantStreamState → Loop → Prop} (error : LoopError) :
    Tidies (PumpDied error) (streamDied error) B := by
  refine rule_streamDied (D := Idle) (fun s _ hDied => hDied rfl) (fun error _ => ?_)
    (tidies_closeStream undisturbed_idle) (fun _ _ _ hIdle => hIdle) error
  exact ((tidies_abort undisturbed_true (fun _ _ => trivial) fun _ _ => trivial).pre
    fun _ _ _ => trivial).post fun _ _ _ hBoth => hBoth.2

/-- The LLM has streamed: there is a message whose calls are to be run, or the
iteration is over and no tool is running. -/
def Concluded (outcome : IterationOutcome) (s : Loop) : Prop :=
  (outcome.failed = true ∨ outcome.interrupted = true) ∧ Idle s ∨
    outcome.failed = false ∧ outcome.interrupted = false ∧ outcome.message ≠ none

theorem undisturbed_concluded (outcome : IterationOutcome) :
    Undisturbed Guarded Surroundings (Concluded outcome) :=
  fun s s' hInv hInv' hStep hConcluded => hConcluded.imp_left
    (And.imp_right (undisturbed_idle s s' hInv hInv' hStep))

theorem undisturbed_concludedNow :
    Undisturbed Guarded Surroundings fun s => Concluded s.outcome s := by
  intro s s' hInv hInv' hStep hConcluded
  rw [hStep.beside.outcome]
  exact undisturbed_concluded s.outcome s s' hInv hInv' hStep hConcluded

theorem tidies_conclude {A : Loop → Prop} (event : LoopEvent)
    (hKept : Undisturbed Guarded Surroundings A)
    (hObserve : ∀ s, A s → Concluded (s.outcome.observe event)
      { s.deliver event with outcome := s.outcome.observe event }) :
    Tidies A (emitObserved event) fun _ s => Concluded s.outcome s :=
  rule_emitObserved event hKept undisturbed_concludedNow
    (fun s hInv hA => ⟨hInv, hObserve s hA⟩) fun _ hInv _ => closed_idle hInv

theorem tidies_finalizeAssistant (state : AssistantStreamState) :
    Tidies Pumps (finalizeAssistant state) fun _ s => Concluded s.outcome s := by
  have hAbort : Tidies Pumps abort fun _ s => Pumps s ∧ Idle s :=
    tidies_abort undisturbed_pumps (fun _ hA => hA) fun _ hA => hA
  have hKept : Undisturbed Guarded Surroundings fun s => Pumps s ∧ Idle s :=
    undisturbed_pumps.and undisturbed_idle
  have hFailed : ∀ error, Tidies (fun s => Pumps s ∧ Idle s) (emitObserved (.failed error))
      fun _ s => Concluded s.outcome s :=
    fun error => tidies_conclude _ hKept fun s hBoth => Or.inl ⟨Or.inl rfl, hBoth.2⟩
  unfold finalizeAssistant
  split
  · exact hAbort.bind fun _ => hFailed _
  · split
    · refine hAbort.bind fun _ => ?_
      refine Co.Contract.bind (B := fun _ s => Pumps s ∧ Idle s) ?_ fun message => ?_
      · exact Co.contract_atomic hKept fun s hInv hBoth => ⟨hInv, hBoth⟩
      · exact tidies_conclude _ hKept fun s hBoth => Or.inl ⟨Or.inr rfl, hBoth.2⟩
    · split
      · refine Co.Contract.bind (B := fun _ s => Pumps s ∧ Idle s) ?_ fun _ => hFailed _
        refine Co.contract_modify undisturbed_pumps fun s hInv hPumps => ?_
        refine ⟨guarded_leave _ hInv, ?_, idle_leave s _⟩
        rcases leave_cases s .notWaitedFor with hEq | hEq <;> rw [hEq] <;> exact hPumps
      · rename_i message _
        refine (Co.contract_modify (f := Loop.appendOwn [message]) (B := Pumps) undisturbed_pumps
          fun s hInv hPumps => ⟨hInv, hPumps⟩).bind fun _ => ?_
        refine tidies_conclude _ undisturbed_pumps fun s hPumps => ?_
        rw [hPumps]
        exact Or.inr ⟨rfl, rfl, by simp [IterationOutcome.observe]⟩

theorem tidies_streamAssistant (stream : LlmStream) :
    Tidies Pumps (streamAssistant stream) fun _ s => Concluded s.outcome s := by
  refine ((tidies_pumpStream stream.ending stream.events).tryCatch tidies_streamDied).bind
    fun state => ?_
  exact (tidies_closeStream undisturbed_pumps).bind fun _ => tidies_finalizeAssistant state

theorem tidies_streamToolCalls (index : Nat) (message : ChatMessage) :
    Tidies (fun _ => True) (streamToolCalls index message) fun _ => Idle := by
  have hEmit : ∀ event, Tidies (fun _ => True) (emit event) fun _ _ => True :=
    fun event => tidies_emit event undisturbed_true fun _ _ => trivial
  refine (rule_startCalls message undisturbed_true
    (fun s call hInv _ => ⟨guarded_spawn call hInv, trivial⟩) fun _ => hEmit _).bind fun _ => ?_
  refine (rule_wait (D := fun _ => True) (Q := Idle) undisturbed_true index
    (fun s hInv _ => ⟨⟨hInv.1, by simp⟩, trivial⟩)
    (rule_awaitRuns undisturbed_true (fun _ hInv => hInv.2) fun s hInv _ =>
      ⟨guarded_leave (s := { s with interrupted := false }) _ hInv, idle_leave _ _⟩)
    fun pending => ?_).bind fun _ => ?_
  · have hKept : Undisturbed Guarded Surroundings
        fun s => (True ∧ Pending pending s) ∧ (pending = [] → Idle s) :=
      (undisturbed_true.and (undisturbed_pending pending)).and
        fun s s' hInv hInv' hStep hIdle hNone =>
          undisturbed_idle s s' hInv hInv' hStep (hIdle hNone)
    refine rule_drainAndEmit (undisturbed_true.and (undisturbed_pending pending))
      (fun s hInv hBoth => ⟨hInv, hBoth, ?_⟩) fun event _ => tidies_emit event hKept fun _ hA => hA
    rintro rfl
    exact idle_of_tasksEnded (s := s.drain) hInv fun task hMem =>
      (hBoth.2 task hMem).resolve_left List.not_mem_nil
  · refine (rule_abortIfCancelled (D := fun _ => True) (Q := Idle) undisturbed_true
      undisturbed_idle (fun _ hInv _ => ⟨hInv, trivial⟩) (fun _ hIdle => hIdle)
      ((tidies_abort undisturbed_true (fun _ _ => trivial) fun _ _ => trivial).post
        fun _ _ _ hBoth => hBoth.2) fun _ _ _ hIdle => hIdle).bind fun _ => ?_
    exact Co.contract_modify undisturbed_idle fun s hInv hIdle => ⟨hInv, hIdle⟩

theorem tidies_iterate (llm : Nat → LlmStream) (index left : Nat) :
    Tidies Idle (iterate llm index left) fun _ => Idle := by
  have hEmit : ∀ event, Tidies Idle (emit event) fun _ => Idle :=
    fun event => tidies_emit event undisturbed_idle fun _ hIdle => hIdle
  -- By the iterations left: each one ends the run, or goes back to an idle loop.
  induction left generalizing index with
  | zero => exact hEmit _
  | succ left ih =>
      refine (hEmit _).bind fun _ => ?_
      refine ((Co.contract_read undisturbed_idle).post fun _ _ _ hBoth => hBoth.1).bind
        fun cancelled => ?_
      cases cancelled with
      | true => exact hEmit _
      | false =>
          refine (Co.contract_modify (B := Pumps) undisturbed_idle fun s _ hIdle =>
            ⟨guarded_beginIteration hIdle, rfl⟩).bind fun _ => ?_
          refine (tidies_streamAssistant (llm index)).bind fun _ => ?_
          refine Co.Contract.bind (B := Concluded) ?_ fun outcome => ?_
          · refine (Co.contract_read undisturbed_concludedNow).post fun value s _ hBoth => ?_
            rw [hBoth.2]
            exact hBoth.1
          · have hKept := undisturbed_concluded outcome
            split
            · rename_i hFailed
              refine Co.contract_done fun s _ hConcluded => ?_
              rcases hConcluded with ⟨-, hIdle⟩ | ⟨hNot, -⟩
              · exact hIdle
              · exact absurd (hFailed.symm.trans hNot) (by decide)
            · rename_i hNotFailed
              split
              · rename_i hInterrupted
                refine (hEmit _).pre fun s _ hConcluded => ?_
                rcases hConcluded with ⟨-, hIdle⟩ | ⟨-, hNot, -⟩
                · exact hIdle
                · exact absurd (hInterrupted.symm.trans hNot) (by decide)
              · rename_i hNotInterrupted
                split
                · -- Only a stream that failed or was interrupted concludes without a message.
                  rename_i hNone
                  refine Co.contract_fail fun s _ hConcluded => ?_
                  rcases hConcluded with ⟨-, hIdle⟩ | ⟨-, -, hSome⟩
                  · exact hIdle
                  · exact absurd hNone hSome
                · split
                  · refine (Co.contract_modify (B := Idle) hKept fun s hInv _ =>
                      ⟨guarded_leave _ hInv, idle_leave s _⟩).bind fun _ => hEmit _
                  · exact ((tidies_streamToolCalls index _).pre fun _ _ _ => trivial).bind
                      fun _ => ih (index + 1)

/-- Whatever the LLM streams, whatever the tools do and however the run ends: if no
tool was left running on the way, none is running when it has ended. -/
theorem tools_end_with_run (llm : Nat → LlmStream) (maxIterations toolTimeout : Nat)
    {r : Except LoopError Unit} {t : Loop}
    (hRun : Co.Run Surroundings (runLoop llm maxIterations) (.fresh toolTimeout) r t)
    (hNone : t.slips = []) : t.busy = false := by
  have hInv : Guarded (.fresh toolTimeout) :=
    ⟨fun _ _ _ hRun => by simp [Loop.fresh] at hRun, by simp [Loop.fresh]⟩
  obtain ⟨-, hLeft⟩ := (tidies_iterate llm 0 maxIterations).run
    (fun _ _ hInv hStep => hInv.beside hStep) hInv (fun _ => rfl) hRun
  cases r with
  | ok value => exact hLeft hNone
  | error error => exact hLeft hNone

/-- The LLM calls a tool, and its stream ends without a final message. -/
def callsAndEnds : LlmStream := { events := [.toolCallReady { id := "x", name := "weather" }] }

/-- The task that consumes the events is cancelled while the tool is running. -/
def interruptedAtTool : Schedule :=
  List.flatten [undisturbed 4, [[.arrive]], undisturbed 4, [[.interrupt]]]

theorem tools_end_with_interrupted_run :
    ∃ r t, Co.Run Surroundings (runLoop (fun _ => callsAndEnds) 1) (.fresh 180) r t ∧
      t.runs.map (·.status) = [.cancelled] ∧ t.busy = false := by
  have hRuns : ∃ r t, Co.Run Surroundings (runLoop (fun _ => callsAndEnds) 1) (.fresh 180) r t ∧
      (t.runs.map (·.status), t.slips) = ([.cancelled], []) :=
    Co.Run.exists_of_runWith interruptedAtTool (by decide +kernel)
  obtain ⟨r, t, hRun, hSeen⟩ := hRuns
  obtain ⟨hStatus, hNone⟩ := Prod.mk.inj hSeen
  exact ⟨r, t, hRun, hStatus, tools_end_with_run _ 1 180 hRun hNone⟩

/-- The run fails because the stream was empty, and its tool goes on. -/
theorem tool_outlives_empty_stream :
    ∃ r t, Co.Run Surroundings (runLoop (fun _ => callsAndEnds) 1) (.fresh 180) r t ∧
      r.isOk = true ∧ t.emitted.getLast? = some (.failed emptyStreamMessage) ∧ t.busy = true := by
  have hRuns : ∃ r t, Co.Run Surroundings (runLoop (fun _ => callsAndEnds) 1) (.fresh 180) r t ∧
      (r.isOk, t.emitted.getLast?, t.busy) =
        (true, some (.failed emptyStreamMessage), true) :=
    Co.Run.exists_of_runWith
      (List.flatten [undisturbed 4, [[.arrive]], undisturbed 4, [[.arrive]]]) (by decide +kernel)
  obtain ⟨r, t, hRun, hSeen⟩ := hRuns
  obtain ⟨hOk, hLast, hBusy⟩ := by simpa using hSeen
  exact ⟨r, t, hRun, hOk, hLast, hBusy⟩

end Agent
end OctoForge
