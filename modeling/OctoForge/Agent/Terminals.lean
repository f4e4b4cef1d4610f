import OctoForge.Agent.Cleanup

/-!
# The last event of a run

A run yields `Finished`, `Cancelled` or `Failed` once, as its last event.  The
three come from different generators, so what is followed here is whether a
terminal event has been yielded yet (`Open`).

A stop that arrives while the tools are waited for is turned into `Cancelled`
where the next iteration begins.  The last permitted iteration has no next one:
there the limit is reported instead.
-/

namespace OctoForge
namespace Agent

open Coop

/-! ## The invariant -/

/-- A stop during the wait for the tools has set the cancel flag. -/
def Flagged (s : Loop) : Prop :=
  (s.watched = true → s.cancelled = true) ∧ (s.waitCancels ≠ [] → s.cancelled = true)

/-- No terminal event has been yielded. -/
def Open (s : Loop) : Prop := ∀ event ∈ s.emitted, event.terminal = false

/-- The stops during a wait all came during this one. -/
def StoppedAt (waits : Nat → Prop) (s : Loop) : Prop := ∀ k ∈ s.waitCancels, waits k

theorem Flagged.beside {s s' : Loop} (hInv : Flagged s) (hStep : Surroundings s s') :
    Flagged s' := by
  have hBeside := hStep.beside
  refine ⟨fun hWatched => ?_, fun hSome => ?_⟩
  · rcases hBeside.watched hWatched with hBefore | hCancelled
    · exact hBeside.cancelled (hInv.1 hBefore)
    · exact hCancelled
  · rcases hBeside.waitCancels with hSame | ⟨hCancelled, -⟩
    · exact hBeside.cancelled (hInv.2 (hSame ▸ hSome))
    · exact hCancelled

/-- Where the run stands: how many LLM calls it has made, that it is open, which
wait it is in and which waits a stop came in. -/
structure Progress (calls : Nat) (waiting : Option Nat) (waits : Nat → Prop) (s : Loop) : Prop where
  calls : s.prompts.length = calls
  isOpen : Open s
  waiting : s.waiting = waiting
  stops : StoppedAt waits s

/-- A stop is noted under the wait it comes in. -/
theorem StoppedAt.beside {s s' : Loop} {waits : Nat → Prop} (hBeside : s.Beside s')
    (hStopped : StoppedAt waits s) (hWaiting : ∀ k ∈ s.waiting, waits k) : StoppedAt waits s' := by
  rcases hBeside.waitCancels with hSame | ⟨-, hMore⟩
  · rw [StoppedAt, hSame]
    exact hStopped
  · rw [StoppedAt, hMore]
    intro k hMem
    rcases List.mem_append.mp hMem with hMem | hMem
    · exact hStopped k hMem
    · exact hWaiting k (Option.mem_toList.mp hMem)

theorem undisturbed_progress {calls : Nat} {waiting : Option Nat} {waits : Nat → Prop}
    (hWaiting : ∀ k ∈ waiting, waits k) :
    Undisturbed Flagged Surroundings (Progress calls waiting waits) := by
  intro s s' _ _ hStep hProgress
  have hBeside := hStep.beside
  refine ⟨?_, ?_, hBeside.waiting.trans hProgress.waiting, ?_⟩
  · rw [hBeside.prompts]
    exact hProgress.calls
  · rw [Open, hBeside.emitted]
    exact hProgress.isOpen
  · exact hProgress.stops.beside hBeside (by rw [hProgress.waiting]; exact hWaiting)

/-- The last event is the only terminal one, and a stop during a wait has led to
`Cancelled` if and only if it did not come in the last permitted iteration. -/
def Lawful (maxIterations : Nat) (s : Loop) : Prop :=
  s.prompts.length ≤ maxIterations ∧
    ∃ before last, s.emitted = before ++ [last] ∧ last.terminal = true ∧
      (∀ event ∈ before, event.terminal = false) ∧
      ((s.waitCancels ≠ [] → last = .cancelled) ↔ ∀ k ∈ s.waitCancels, k + 1 < maxIterations)

/-- The run is over. -/
def Over (maxIterations : Nat) (s : Loop) : Prop := s.waiting = none ∧ Lawful maxIterations s

theorem undisturbed_over (maxIterations : Nat) :
    Undisturbed Flagged Surroundings (Over maxIterations) := by
  intro s s' _ _ hStep hOver
  have hBeside := hStep.beside
  -- no wait is going on, so a stop is not noted any more
  have hSame : s'.waitCancels = s.waitCancels := by
    rcases hBeside.waitCancels with hSame | ⟨-, hMore⟩
    · exact hSame
    · rw [hMore, hOver.1]
      exact List.append_nil _
  refine ⟨hBeside.waiting.trans hOver.1, ?_⟩
  rw [Lawful, hBeside.prompts, hBeside.emitted, hSame]
  exact hOver.2

/-! ## The contracts -/

/-- The contracts of this module: nothing is said about errors. -/
abbrev Obeys {α : Type} (A : Loop → Prop) (c : Work α) (B : α → Loop → Prop) : Prop :=
  Co.Contract Flagged Surroundings A c B fun _ _ => True

theorem flagged_leave {s : Loop} (slip : Slip) (hInv : Flagged s) : Flagged (s.leave slip) := by
  rcases leave_cases s slip with hEq | hEq
  · rw [hEq]
    exact hInv
  · rw [hEq]
    exact hInv

theorem Progress.leave {s : Loop} {calls : Nat} {waiting : Option Nat} {waits : Nat → Prop}
    (slip : Slip) (hProgress : Progress calls waiting waits s) :
    Progress calls waiting waits (s.leave slip) := by
  rcases leave_cases s slip with hEq | hEq
  · rw [hEq]
    exact hProgress
  · rw [hEq]
    exact ⟨hProgress.calls, hProgress.isOpen, hProgress.waiting, hProgress.stops⟩

theorem Progress.deliver {s : Loop} {calls : Nat} {waiting : Option Nat} {waits : Nat → Prop}
    {event : LoopEvent} (hProgress : Progress calls waiting waits s)
    (hPlain : event.terminal = false) : Progress calls waiting waits (s.deliver event) := by
  refine ⟨hProgress.calls, fun other hMem => ?_, hProgress.waiting, hProgress.stops⟩
  rcases List.mem_append.mp hMem with hMem | hMem
  · exact hProgress.isOpen other hMem
  · obtain rfl := List.mem_singleton.mp hMem
    exact hPlain

theorem obeys_emit {calls : Nat} {waiting : Option Nat} {waits : Nat → Prop} (event : LoopEvent)
    (hPlain : event.terminal = false) (hWaiting : ∀ k ∈ waiting, waits k) :
    Obeys (Progress calls waiting waits) (emit event) fun _ => Progress calls waiting waits :=
  rule_emit event (undisturbed_progress hWaiting) (undisturbed_progress hWaiting)
    (fun _ hInv hProgress => ⟨hInv, hProgress.deliver hPlain⟩)
    fun _ hInv _ => ⟨flagged_leave _ hInv, trivial⟩

/-- The terminal event is yielded. -/
theorem Progress.over {s : Loop} {calls maxIterations : Nat} {waits : Nat → Prop}
    {event : LoopEvent} (hProgress : Progress calls none waits s) (hCalls : calls ≤ maxIterations)
    (hTerminal : event.terminal = true)
    (hStops : (s.waitCancels ≠ [] → event = .cancelled) ↔ ∀ k ∈ s.waitCancels, k + 1 < maxIterations) :
    Over maxIterations (s.deliver event) :=
  ⟨hProgress.waiting, Nat.le_trans (Nat.le_of_eq hProgress.calls) hCalls, s.emitted, event, rfl,
    hTerminal, hProgress.isOpen, hStops⟩

theorem obeys_emit_last {A : Loop → Prop} {maxIterations : Nat} (event : LoopEvent)
    (hKept : Undisturbed Flagged Surroundings A)
    (hOver : ∀ s, Flagged s → A s → Over maxIterations (s.deliver event)) :
    Obeys A (emit event) fun _ => Over maxIterations :=
  rule_emit event hKept (undisturbed_over maxIterations)
    (fun s hInv hA => ⟨hInv, hOver s hInv hA⟩) fun _ hInv _ => ⟨flagged_leave _ hInv, trivial⟩

/-- While the LLM streams: no stop has come during a wait. -/
def Calling (calls : Nat) (s : Loop) : Prop :=
  Progress calls none (fun _ => False) s ∧ s.outcome = {}

theorem undisturbed_calling (calls : Nat) :
    Undisturbed Flagged Surroundings (Calling calls) :=
  (undisturbed_progress (by simp)).and (undisturbed_outcome (· = {}))

theorem Progress.waitCancels {s : Loop} {calls : Nat} {waiting : Option Nat}
    (hProgress : Progress calls waiting (fun _ => False) s) : s.waitCancels = [] :=
  List.eq_nil_iff_forall_not_mem.mpr hProgress.stops

/-- Without a stop during a wait the law is that there is one terminal event. -/
theorem Progress.over_unstopped {s : Loop} {calls maxIterations : Nat} {event : LoopEvent}
    (hProgress : Progress calls none (fun _ => False) s) (hCalls : calls ≤ maxIterations)
    (hTerminal : event.terminal = true) : Over maxIterations (s.deliver event) :=
  hProgress.over hCalls hTerminal (by simp [hProgress.waitCancels])

theorem obeys_abort {A : Loop → Prop} (hKept : Undisturbed Flagged Surroundings A)
    (hCancel : ∀ s, A s → A s.cancelTasks) (hDrain : ∀ s, A s → A s.drain) :
    Obeys A abort fun _ => A :=
  rule_abort hKept hKept (fun s hInv hA => ⟨hInv, hCancel s hA⟩)
    (fun _ hInv _ _ => ⟨hInv, trivial⟩) fun s hInv hA _ => ⟨hInv, hDrain s hA⟩

theorem obeys_closeStream {A : Loop → Prop} (hKept : Undisturbed Flagged Surroundings A) :
    Obeys A closeStream fun _ => A :=
  rule_closeStream hKept fun s interrupted _ hInv _ =>
    ⟨flagged_leave (s := { s with interrupted }) _ hInv, trivial⟩

theorem track_calling {calls : Nat} {s : Loop} (event : StreamEvent) (hInv : Flagged s)
    (hCalling : Calling calls s) : Flagged (track event s) ∧ Calling calls (track event s) := by
  obtain ⟨hProgress, hOutcome⟩ := hCalling
  have hSame : ∀ s' : Loop, s'.prompts = s.prompts → s'.emitted = s.emitted →
      s'.waiting = s.waiting → s'.waitCancels = s.waitCancels → s'.outcome = s.outcome →
      Calling calls s' := by
    intro s' hPrompts hEmitted hWaiting hWaits hOutcome'
    refine ⟨⟨?_, ?_, hWaiting.trans hProgress.waiting, ?_⟩, hOutcome'.trans hOutcome⟩
    · rw [hPrompts]
      exact hProgress.calls
    · rw [Open, hEmitted]
      exact hProgress.isOpen
    · rw [StoppedAt, hWaits]
      exact hProgress.stops
  cases event with
  | toolCallReady call => exact ⟨hInv, hSame _ rfl rfl rfl rfl rfl⟩
  | toolCallBroken => exact ⟨hInv, hSame _ rfl rfl rfl rfl rfl⟩
  | _ => exact ⟨hInv, hProgress, hOutcome⟩

theorem obeys_pumpStream (calls : Nat) (ending : StreamEnd) (events : List StreamEvent) :
    Obeys (Calling calls) (pumpStream ending {} events) fun _ => Calling calls := by
  refine (rule_pumpStream (A := fun _ => Calling calls) ending (fun _ => undisturbed_calling calls)
    (fun taken comes => ?_) (fun taken event rest _ => ?_) (fun taken event hPlain => ?_)
    (fun _ _ _ _ _ _ => trivial) [] events {} rfl rfl).post fun state s _ hPumped => ?_
  · refine rule_nextEvent comes (undisturbed_calling calls) (fun s arrived interrupted hInv hA => ?_)
      fun _ _ _ _ _ => trivial
    exact ⟨hInv, ⟨hA.1.calls, hA.1.isOpen, hA.1.waiting, hA.1.stops⟩, hA.2⟩
  · refine rule_handleStreamEvent (undisturbed_calling calls) fun s hInv hA => ?_
    obtain ⟨hInv', hProgress, hOutcome⟩ := track_calling event hInv hA
    exact ⟨hInv', ⟨hProgress.calls, hProgress.isOpen, hProgress.waiting, hProgress.stops⟩, hOutcome⟩
  · refine rule_emitObserved event (undisturbed_calling calls) (undisturbed_calling calls)
      (fun s hInv hA => ?_) fun _ hInv _ => ⟨flagged_leave _ hInv, trivial⟩
    have hDelivered := hA.1.deliver hPlain.1
    exact ⟨hInv, ⟨hDelivered.calls, hDelivered.isOpen, hDelivered.waiting, hDelivered.stops⟩,
      (hPlain.2 _).trans hA.2⟩
  · obtain ⟨taken, hCalling, -⟩ := hPumped
    exact hCalling

/-- The LLM has streamed: the iteration has failed and said so, or nothing terminal
has been yielded. -/
def Reported (calls maxIterations : Nat) (outcome : IterationOutcome) (s : Loop) : Prop :=
  if outcome.failed then Over maxIterations s else Progress calls none (fun _ => False) s

theorem undisturbed_reported (calls maxIterations : Nat) (outcome : IterationOutcome) :
    Undisturbed Flagged Surroundings (Reported calls maxIterations outcome) := by
  unfold Reported
  split
  · exact undisturbed_over maxIterations
  · exact undisturbed_progress (by simp)

theorem undisturbed_reportedNow (calls maxIterations : Nat) :
    Undisturbed Flagged Surroundings fun s => Reported calls maxIterations s.outcome s := by
  intro s s' hInv hInv' hStep hReported
  rw [hStep.beside.outcome]
  exact undisturbed_reported calls maxIterations s.outcome s s' hInv hInv' hStep hReported

theorem obeys_report {calls maxIterations : Nat} (event : LoopEvent)
    (hReport : ∀ s, Calling calls s → Reported calls maxIterations (s.outcome.observe event)
      { s.deliver event with outcome := s.outcome.observe event }) :
    Obeys (Calling calls) (emitObserved event) fun _ s => Reported calls maxIterations s.outcome s :=
  rule_emitObserved event (undisturbed_calling calls) (undisturbed_reportedNow calls maxIterations)
    (fun s hInv hA => ⟨hInv, hReport s hA⟩) fun _ hInv _ => ⟨flagged_leave _ hInv, trivial⟩

theorem obeys_finalizeAssistant {calls maxIterations : Nat} (hCalls : calls ≤ maxIterations)
    (state : AssistantStreamState) :
    Obeys (Calling calls) (finalizeAssistant state)
      fun _ s => Reported calls maxIterations s.outcome s := by
  have hAbort : Obeys (Calling calls) abort fun _ => Calling calls :=
    obeys_abort (undisturbed_calling calls)
      (fun _ hA => ⟨⟨hA.1.calls, hA.1.isOpen, hA.1.waiting, hA.1.stops⟩, hA.2⟩)
      fun _ hA => ⟨⟨hA.1.calls, hA.1.isOpen, hA.1.waiting, hA.1.stops⟩, hA.2⟩
  have hFailed : ∀ error, Obeys (Calling calls) (emitObserved (.failed error))
      fun _ s => Reported calls maxIterations s.outcome s :=
    fun error => obeys_report _ fun s hA => hA.1.over_unstopped hCalls rfl
  have hMessage : ∀ message interrupted usage,
      Obeys (Calling calls) (emitObserved (.assistantMessage message interrupted usage))
        fun _ s => Reported calls maxIterations s.outcome s := by
    intro message interrupted usage
    refine obeys_report _ fun s hA => ?_
    have hDelivered : Progress calls none (fun _ => False)
        (s.deliver (.assistantMessage message interrupted usage)) := hA.1.deliver rfl
    rw [hA.2]
    exact ⟨hDelivered.calls, hDelivered.isOpen, hDelivered.waiting, hDelivered.stops⟩
  have hAppend : ∀ messages s, Calling calls s → Calling calls (s.appendOwn messages) :=
    fun _ _ hA => ⟨⟨hA.1.calls, hA.1.isOpen, hA.1.waiting, hA.1.stops⟩, hA.2⟩
  -- A failed stream, an interrupted one, one without a message, and one with a message.
  unfold finalizeAssistant
  split
  · exact hAbort.bind fun _ => hFailed _
  · split
    · refine hAbort.bind fun _ => ?_
      refine Co.Contract.bind (B := fun _ => Calling calls) ?_ fun message => hMessage message _ _
      exact Co.contract_atomic (undisturbed_calling calls) fun s hInv hA => ⟨hInv, hAppend _ s hA⟩
    · split
      · refine Co.Contract.bind (B := fun _ => Calling calls) ?_ fun _ => hFailed _
        refine Co.contract_modify (undisturbed_calling calls) fun s hInv hA => ?_
        refine ⟨flagged_leave _ hInv, hA.1.leave _, ?_⟩
        rcases leave_cases s .notWaitedFor with hEq | hEq <;> rw [hEq] <;> exact hA.2
      · refine Co.Contract.bind (B := fun _ => Calling calls) ?_ fun _ => hMessage _ _ _
        exact Co.contract_modify (undisturbed_calling calls) fun s hInv hA => ⟨hInv, hAppend _ s hA⟩

theorem obeys_streamAssistant {calls maxIterations : Nat} (hCalls : calls ≤ maxIterations)
    (stream : LlmStream) :
    Obeys (Calling calls) (streamAssistant stream)
      fun _ s => Reported calls maxIterations s.outcome s := by
  have hDied : ∀ error, Obeys (fun _ => True) (streamDied error) fun _ => Calling calls := by
    refine rule_streamDied (P := fun _ _ => True) (D := fun _ => True) (fun _ _ _ => trivial)
      (fun _ _ => ?_) (obeys_closeStream undisturbed_true) fun _ _ _ _ => trivial
    exact obeys_abort undisturbed_true (fun _ _ => trivial) fun _ _ => trivial
  refine ((obeys_pumpStream calls stream.ending stream.events).tryCatch hDied).bind fun state => ?_
  exact (obeys_closeStream (undisturbed_calling calls)).bind fun _ =>
    obeys_finalizeAssistant hCalls state

theorem obeys_streamToolCalls (index : Nat) (message : ChatMessage) :
    Obeys (Progress (index + 1) none (fun _ => False)) (streamToolCalls index message)
      fun _ => Progress (index + 1) none (· = index) := by
  have hNone : ∀ waits : Nat → Prop, ∀ k ∈ (none : Option Nat), waits k := by simp
  have hHere : ∀ k ∈ some index, k = index := by simp
  refine (rule_startCalls message (undisturbed_progress (hNone _)) (fun s call hInv hA => ?_)
    fun call => obeys_emit _ rfl (hNone _)).bind fun _ => ?_
  · exact ⟨hInv, hA.calls, hA.isOpen, hA.waiting, hA.stops⟩
  refine (rule_wait (D := Progress (index + 1) (some index) (· = index)) (Q := fun _ => True)
    (undisturbed_progress (hNone _)) index (fun s hInv hA => ?_)
    (rule_awaitRuns (undisturbed_progress hHere) (fun _ hInv => hInv.1) fun s hInv _ =>
      ⟨flagged_leave (s := { s with interrupted := false }) _ hInv, trivial⟩)
    fun pending => ?_).bind fun _ => ?_
  · exact ⟨⟨by simp, hInv.2⟩, hA.calls, hA.isOpen, rfl, fun k hMem => (hA.stops k hMem).elim⟩
  · have hKept : Undisturbed Flagged Surroundings fun s =>
        Progress (index + 1) (some index) (· = index) s ∧ Pending pending s :=
      (undisturbed_progress hHere).and (undisturbed_pending pending)
    refine rule_drainAndEmit hKept (fun s hInv hBoth => ?_) fun event hPlain => ?_
    · exact ⟨hInv, ⟨⟨hBoth.1.calls, hBoth.1.isOpen, hBoth.1.waiting, hBoth.1.stops⟩, hBoth.2⟩,
        fun _ => trivial⟩
    · refine rule_emit event (hKept.and fun _ _ _ _ _ _ _ => trivial)
        (hKept.and fun _ _ _ _ _ _ _ => trivial) (fun s hInv hA => ?_)
        fun _ hInv _ => ⟨flagged_leave _ hInv, trivial⟩
      exact ⟨hInv, ⟨hA.1.1.deliver hPlain.1, hA.1.2⟩, fun _ => trivial⟩
  · have hOver : Undisturbed Flagged Surroundings (Progress (index + 1) none (· = index)) :=
      undisturbed_progress (hNone _)
    refine (rule_abortIfCancelled (D := Progress (index + 1) none (· = index))
      (undisturbed_progress hHere) undisturbed_true
      (fun s hInv hA => ⟨hInv, hA.calls, hA.isOpen, rfl, hA.stops⟩) (fun _ _ => trivial)
      (obeys_abort hOver (fun s hA => ⟨hA.calls, hA.isOpen, hA.waiting, hA.stops⟩)
        fun s hA => ⟨hA.calls, hA.isOpen, hA.waiting, hA.stops⟩) fun _ _ hA _ => hA).bind fun _ => ?_
    exact Co.contract_modify hOver fun s hInv hA =>
      ⟨hInv, hA.calls, hA.isOpen, hA.waiting, hA.stops⟩

theorem obeys_iterate (llm : Nat → LlmStream) (index left : Nat) :
    Obeys (Progress index none (· + 1 = index)) (iterate llm index left)
      fun _ => Over (index + left) := by
  induction left generalizing index with
  | zero =>
      -- a stop during the last wait is reported as the limit
      refine obeys_emit_last _ (undisturbed_progress (by simp)) fun s _ hA => ?_
      refine hA.over (Nat.le_refl _) rfl ⟨fun hLast k hMem => ?_, fun hStops hSome => ?_⟩
      · exact absurd (hLast (List.ne_nil_of_mem hMem)) (by simp)
      · obtain ⟨k, hMem⟩ := List.exists_mem_of_ne_nil _ hSome
        have hHere := hA.stops k hMem
        have hBefore := hStops k hMem
        omega
  | succ left ih =>
      have hKept : Undisturbed Flagged Surroundings (Progress index none (· + 1 = index)) :=
        undisturbed_progress (by simp)
      refine (obeys_emit _ rfl (by simp)).bind fun _ => ?_
      refine Co.Contract.bind (B := fun cancelled s => Progress index none (· + 1 = index) s ∧
        (cancelled = false → s.waitCancels = [])) ?_ fun cancelled => ?_
      · refine (Co.contract_read hKept).post fun cancelled s hInv hBoth => ⟨hBoth.1, fun hNot => ?_⟩
        by_contra hSome
        exact absurd ((hInv.2 hSome).symm.trans (hBoth.2.symm.trans hNot)) (by decide)
      cases cancelled with
      | true =>
          refine (obeys_emit_last _ hKept fun s _ hA => ?_).pre fun _ _ hBoth => hBoth.1
          refine hA.over (by omega) rfl ⟨fun _ k hMem => ?_, fun _ _ => rfl⟩
          have hHere := hA.stops k hMem
          omega
      | false =>
          refine Co.Contract.bind (B := fun _ => Calling (index + 1)) ?_ fun _ => ?_
          · refine (Co.contract_modify (A := Progress index none fun _ => False)
              (undisturbed_progress (by simp)) fun s hInv hA => ?_).pre fun s _ hBoth => ?_
            · refine ⟨⟨by simp [Loop.beginIteration], hInv.2⟩, ⟨?_, hA.isOpen, hA.waiting, hA.stops⟩,
                rfl⟩
              simp [Loop.beginIteration, hA.calls]
            · refine ⟨hBoth.1.calls, hBoth.1.isOpen, hBoth.1.waiting, ?_⟩
              simp [StoppedAt, hBoth.2 rfl]
          have hCalls : index + 1 ≤ index + (left + 1) := by omega
          refine (obeys_streamAssistant hCalls (llm index)).bind fun _ => ?_
          refine Co.Contract.bind
            (B := fun outcome => Reported (index + 1) (index + (left + 1)) outcome) ?_
            fun outcome => ?_
          · refine (Co.contract_read (undisturbed_reportedNow _ _)).post fun value s _ hBoth => ?_
            rw [hBoth.2]
            exact hBoth.1
          split
          · rename_i hFailed
            refine Co.contract_done fun s _ hReported => ?_
            rwa [Reported, if_pos hFailed] at hReported
          · rename_i hNotFailed
            have hProgress : ∀ s, Flagged s →
                Reported (index + 1) (index + (left + 1)) outcome s →
                Progress (index + 1) none (fun _ => False) s := by
              intro s _ hReported
              rwa [Reported, if_neg hNotFailed] at hReported
            have hUnstopped : Undisturbed Flagged Surroundings
                (Progress (index + 1) none fun _ => False) := undisturbed_progress (by simp)
            have hLast : ∀ event : LoopEvent, event.terminal = true →
                Obeys (Progress (index + 1) none fun _ => False) (emit event)
                  fun _ => Over (index + (left + 1)) :=
              fun event hTerminal => obeys_emit_last event hUnstopped fun s _ hA =>
                hA.over_unstopped hCalls hTerminal
            refine Co.Contract.pre ?_ hProgress
            split
            · exact hLast _ rfl
            · split
              · exact Co.contract_fail fun _ _ _ => trivial
              · split
                · refine Co.Contract.bind (B := fun _ => Progress (index + 1) none fun _ => False)
                    ?_ fun _ => hLast _ rfl
                  exact Co.contract_modify hUnstopped fun s hInv hA =>
                    ⟨flagged_leave _ hInv, hA.leave _⟩
                · rename_i message _ _
                  refine (obeys_streamToolCalls index message).bind fun _ => ?_
                  have hRest := ih (index + 1)
                  rw [show index + 1 + left = index + (left + 1) by omega] at hRest
                  exact hRest.pre fun s _ hA => ⟨hA.calls, hA.isOpen, hA.waiting, fun k hMem =>
                    congrArg (· + 1) (hA.stops k hMem)⟩

theorem lawful_run (llm : Nat → LlmStream) (maxIterations toolTimeout : Nat) {t : Loop}
    (hRun : Co.Run Surroundings (runLoop llm maxIterations) (.fresh toolTimeout) (.ok ()) t) :
    Lawful maxIterations t := by
  have hInv : Flagged (.fresh toolTimeout) := ⟨by simp [Loop.fresh], by simp [Loop.fresh]⟩
  have hStart : Progress 0 none (· + 1 = 0) (.fresh toolTimeout) :=
    ⟨rfl, fun _ hMem => by simp [Loop.fresh] at hMem, rfl, fun _ hMem => by simp [Loop.fresh] at hMem⟩
  obtain ⟨-, -, hLawful⟩ := (obeys_iterate llm 0 maxIterations).run
    (fun _ _ hInv hStep => hInv.beside hStep) hInv hStart hRun
  rwa [Nat.zero_add] at hLawful

/-- At most `maxIterations` LLM calls and one terminal event, the last; and if the
cancel flag was set while tools were waited for, that event is `Cancelled`. -/
def TerminalLaw (maxIterations : Nat) (s : Loop) : Prop :=
  s.prompts.length ≤ maxIterations ∧
    ∃ before last, s.emitted = before ++ [last] ∧ last.terminal = true ∧
      (∀ event ∈ before, event.terminal = false) ∧ (s.waitCancels ≠ [] → last = .cancelled)

/-- A run that is consumed to its end obeys the law, unless the cancel flag was set
while the last permitted iteration waited for its tools. -/
theorem terminal_law_iff (llm : Nat → LlmStream) (maxIterations toolTimeout : Nat) {t : Loop}
    (hRun : Co.Run Surroundings (runLoop llm maxIterations) (.fresh toolTimeout) (.ok ()) t) :
    TerminalLaw maxIterations t ↔ ∀ k ∈ t.waitCancels, k + 1 < maxIterations := by
  obtain ⟨hCalls, before, last, hEmitted, hTerminal, hBefore, hStops⟩ :=
    lawful_run llm maxIterations toolTimeout hRun
  constructor
  · rintro ⟨-, before', last', hEmitted', -, -, hLast⟩
    obtain ⟨-, hSame⟩ := List.append_inj' (hEmitted.symm.trans hEmitted') rfl
    obtain rfl : last = last' := by simpa using hSame
    exact hStops.mp hLast
  · intro hEarlier
    exact ⟨hCalls, before, last, hEmitted, hTerminal, hBefore, hStops.mpr hEarlier⟩

/-- The LLM calls one tool. -/
def callsOne : LlmStream :=
  { events := [.toolCallReady { id := "x", name := "weather" },
      .streamFinished "" [{ id := "x", name := "weather" }] none] }

/-- The run is stopped while it waits for the tool of its first iteration. -/
def stoppedAtTool : Schedule :=
  List.flatten [undisturbed 4, [[.arrive]], undisturbed 4, [[.arrive]], undisturbed 2, [[.arrive]],
    undisturbed 7, [[.cancel, .watch]]]

theorem terminal_law_stopped :
    ∃ t, Co.Run Surroundings (runLoop (fun _ => callsOne) 2) (.fresh 180) (.ok ()) t ∧
      t.waitCancels = [0] ∧ TerminalLaw 2 t := by
  have hRuns : ∃ r t, Co.Run Surroundings (runLoop (fun _ => callsOne) 2) (.fresh 180) r t ∧
      (r.isOk, t.waitCancels) = (true, [0]) :=
    Co.Run.exists_of_runWith stoppedAtTool (by decide +kernel)
  obtain ⟨r, t, hRun, hSeen⟩ := hRuns
  obtain ⟨hOk, hWaits⟩ := Prod.mk.inj hSeen
  cases r with
  | ok value =>
      refine ⟨t, hRun, hWaits, (terminal_law_iff _ 2 180 hRun).mpr ?_⟩
      rw [hWaits]
      decide
  | error error => simp [Except.isOk, Except.toBool] at hOk

/-- Only one iteration is permitted: the stop is reported as the limit. -/
theorem stop_reported_as_limit :
    ∃ t, Co.Run Surroundings (runLoop (fun _ => callsOne) 1) (.fresh 180) (.ok ()) t ∧
      t.waitCancels = [0] ∧ t.emitted.getLast? = some (.failed maxIterationsMessage) ∧
      ¬TerminalLaw 1 t := by
  have hRuns : ∃ r t, Co.Run Surroundings (runLoop (fun _ => callsOne) 1) (.fresh 180) r t ∧
      (r.isOk, t.waitCancels, t.emitted.getLast?) =
        (true, [0], some (.failed maxIterationsMessage)) :=
    Co.Run.exists_of_runWith stoppedAtTool (by decide +kernel)
  obtain ⟨r, t, hRun, hSeen⟩ := hRuns
  obtain ⟨hOk, hWaits, hLast⟩ := by simpa using hSeen
  cases r with
  | ok value =>
      refine ⟨t, hRun, hWaits, hLast, ?_⟩
      rintro ⟨-, before, last, hEmitted, -, -, hStopped⟩
      rw [hEmitted, List.getLast?_concat] at hLast
      obtain rfl := Option.some.inj hLast
      exact absurd (hStopped (by simp [hWaits])) (by simp)
  | error error => simp [Except.isOk, Except.toBool] at hOk

end Agent
end OctoForge
