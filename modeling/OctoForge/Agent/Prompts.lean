import OctoForge.Agent.Terminals

/-!
# Prompts a provider accepts

Without looking at what the replies say: an assistant message with calls is
followed by one tool message for each of them, under its id (`ValidTranscript`).
Whatever the LLM streams, equal ids included, the loop never sends anything else,
and where the context overflows, the turns it has appended so far are whole.
`Finished` is only yielded with a message that has no calls.
-/

namespace OctoForge
namespace Agent

open Coop

/-! ## Valid transcripts -/

/-- One tool message for each call of the message comes next. -/
def Followed (m : ChatMessage) (after : List ChatMessage) : Prop :=
  ∃ replies rest, after = replies ++ rest ∧
    List.Forall₂ (fun call reply => reply.role = .tool ∧ reply.toolCallId = some call.id)
      m.toolCalls replies

def ValidTranscript (messages : List ChatMessage) : Prop :=
  ∀ before m after, messages = before ++ m :: after → m.toolCalls ≠ [] → Followed m after

theorem Followed.append {m : ChatMessage} {after : List ChatMessage} (hFollowed : Followed m after)
    (more : List ChatMessage) : Followed m (after ++ more) := by
  obtain ⟨replies, rest, rfl, hReplies⟩ := hFollowed
  exact ⟨replies, rest ++ more, List.append_assoc _ _ _, hReplies⟩

theorem valid_of_callFree {messages : List ChatMessage}
    (hFree : ∀ m ∈ messages, m.toolCalls = []) : ValidTranscript messages := by
  rintro before m after rfl hCalls
  exact absurd (hFree m (List.mem_append_right _ List.mem_cons_self)) hCalls

theorem ValidTranscript.append {messages more : List ChatMessage}
    (hFirst : ValidTranscript messages) (hSecond : ValidTranscript more) :
    ValidTranscript (messages ++ more) := by
  intro before m after hSplit hCalls
  rcases List.append_eq_append_iff.mp hSplit with ⟨middle, hBefore, hRest⟩ | ⟨middle, hBefore, hRest⟩
  · exact hSecond middle m after hRest hCalls
  · cases middle with
    | nil => exact hSecond [] m after hRest.symm hCalls
    | cons first middle =>
        obtain ⟨rfl, rfl⟩ := List.cons.inj hRest
        exact (hFirst before m middle hBefore hCalls).append more

/-- The replies of a tracker are to the calls it was asked about. -/
theorem followed_toolMessages (t : Tracker) (m : ChatMessage) :
    Followed m (t.toolMessages m.toolCalls) := by
  refine ⟨_, [], (List.append_nil _).symm, ?_⟩
  rw [Tracker.toolMessages, List.forall₂_map_right_iff, List.forall₂_same]
  exact fun call _ => ⟨rfl, rfl⟩

theorem callFree_toolMessages {t : Tracker} {calls : List ToolCall} :
    ∀ reply ∈ t.toolMessages calls, reply.toolCalls = [] := by
  intro reply hMem
  obtain ⟨call, -, rfl⟩ := List.mem_map.mp hMem
  rfl

theorem valid_turn (t : Tracker) (m : ChatMessage) :
    ValidTranscript (m :: t.toolMessages m.toolCalls) := by
  intro before m' after hSplit hCalls
  cases before with
  | nil =>
      obtain ⟨rfl, rfl⟩ := List.cons.inj hSplit
      exact followed_toolMessages t m
  | cons first before =>
      have hMem : m' ∈ t.toolMessages m.toolCalls := by
        rw [(List.cons.inj hSplit).2]
        exact List.mem_append_right _ List.mem_cons_self
      exact absurd (callFree_toolMessages m' hMem) hCalls

/-! ## The invariant -/

/-- Every prompt is valid, and every final answer is free of calls. -/
def Sound (s : Loop) : Prop :=
  (∀ prompt ∈ s.prompts, ValidTranscript prompt) ∧
    (∀ m usage, LoopEvent.finished m usage ∈ s.emitted → m.toolCalls = []) ∧
    (s.watched = true → s.cancelled = true)

theorem Sound.beside {s s' : Loop} (hInv : Sound s) (hStep : Surroundings s s') : Sound s' := by
  have hBeside := hStep.beside
  refine ⟨?_, ?_, fun hWatched => ?_⟩
  · rw [hBeside.prompts]
    exact hInv.1
  · rw [hBeside.emitted]
    exact hInv.2.1
  · rcases hBeside.watched hWatched with hBefore | hCancelled
    · exact hBeside.cancelled (hInv.2.2 hBefore)
    · exact hCancelled

/-- An assertion about what the loop has appended. -/
abbrev OfOwn (f : List ChatMessage → Prop) (s : Loop) : Prop := f s.own

theorem undisturbed_own {inv : Loop → Prop} (f : List ChatMessage → Prop) :
    Undisturbed inv Surroundings (OfOwn f) := by
  intro s s' _ _ hStep hOwn
  rw [OfOwn, hStep.beside.own]
  exact hOwn

/-- What an overflow leaves behind. -/
def Overflowed (error : LoopError) (s : Loop) : Prop :=
  error = .contextOverflow → ValidTranscript s.own

abbrev Sends {α : Type} (A : Loop → Prop) (c : Work α) (B : α → Loop → Prop) : Prop :=
  Co.Contract Sound Surroundings A c B Overflowed

theorem sound_leave {s : Loop} (slip : Slip) (hInv : Sound s) : Sound (s.leave slip) := by
  rcases leave_cases s slip with hEq | hEq
  · rw [hEq]
    exact hInv
  · rw [hEq]
    exact hInv

theorem leave_own (s : Loop) (slip : Slip) : (s.leave slip).own = s.own := by
  rcases leave_cases s slip with hEq | hEq
  · rw [hEq]
  · rw [hEq]

theorem closed_sound {s : Loop} (hInv : Sound s) :
    Sound (s.leave .abandoned) ∧ Overflowed .generatorExit (s.leave .abandoned) :=
  ⟨sound_leave _ hInv, fun hOverflow => by simp at hOverflow⟩

theorem sound_deliver {s : Loop} {event : LoopEvent} (hInv : Sound s)
    (hFree : ∀ m usage, event = .finished m usage → m.toolCalls = []) :
    Sound (s.deliver event) := by
  refine ⟨hInv.1, fun m usage hMem => ?_, hInv.2.2⟩
  rcases List.mem_append.mp hMem with hMem | hMem
  · exact hInv.2.1 m usage hMem
  · exact hFree m usage (List.mem_singleton.mp hMem).symm

theorem LoopEvent.Plain.not_finished {event : LoopEvent} (hPlain : event.Plain) :
    ∀ m usage, event = .finished m usage → m.toolCalls = [] := by
  rintro m usage rfl
  exact absurd hPlain.1 (by simp [LoopEvent.terminal])

theorem sends_emit {f : List ChatMessage → Prop} (event : LoopEvent)
    (hFree : ∀ m usage, event = .finished m usage → m.toolCalls = []) :
    Sends (OfOwn f) (emit event) fun _ => OfOwn f :=
  rule_emit event (undisturbed_own f) (undisturbed_own f)
    (fun _ hInv hOwn => ⟨sound_deliver hInv hFree, hOwn⟩) fun _ hInv _ => closed_sound hInv

theorem sends_abort (f : List ChatMessage → Prop) :
    Co.Contract Sound Surroundings (OfOwn f) abort (fun _ => OfOwn f) fun _ => OfOwn f :=
  rule_abort (undisturbed_own f) (undisturbed_own f) (fun _ hInv hOwn => ⟨hInv, hOwn⟩)
    (fun _ hInv hOwn _ => ⟨hInv, hOwn⟩) fun _ hInv hOwn _ => ⟨hInv, hOwn⟩

/-! ## The LLM stream -/

/-- The pump is at work, and the turns before it are whole. -/
def Filling (s : Loop) : Prop := ValidTranscript s.own ∧ s.outcome = {}

theorem undisturbed_filling : Undisturbed Sound Surroundings Filling :=
  (undisturbed_own ValidTranscript).and (undisturbed_outcome (· = {}))

theorem track_filling {s : Loop} (event : StreamEvent) (hInv : Sound s) (hFilling : Filling s) :
    Sound (track event s) ∧ Filling (track event s) := by
  cases event with
  | toolCallReady call => exact ⟨hInv, hFilling⟩
  | toolCallBroken => exact ⟨hInv, hFilling⟩
  | _ => exact ⟨hInv, hFilling⟩

/-- What the pump leaves behind when it raises by itself. -/
def PumpRaised (error : LoopError) (s : Loop) : Prop :=
  error ≠ .generatorExit → ValidTranscript s.own

theorem sends_pumpStream (ending : StreamEnd) (events : List StreamEvent) :
    Co.Contract Sound Surroundings Filling (pumpStream ending {} events) (fun _ => Filling)
      PumpRaised := by
  refine (rule_pumpStream (A := fun _ => Filling) (E := PumpRaised) ending (fun _ => undisturbed_filling)
    (fun taken comes => ?_) (fun taken event rest _ => ?_) (fun taken event hPlain => ?_)
    (fun _ _ _ _ _ hFilling _ => hFilling.1) [] events {} rfl rfl).post fun state s _ hPumped => ?_
  · exact rule_nextEvent comes undisturbed_filling (fun _ _ _ hInv hFilling => ⟨hInv, hFilling⟩)
      fun _ _ _ _ hFilling _ => hFilling.1
  · exact rule_handleStreamEvent undisturbed_filling fun s hInv hFilling =>
      track_filling event hInv hFilling
  · refine rule_emitObserved event undisturbed_filling undisturbed_filling (fun s hInv hFilling => ?_)
      fun _ hInv _ => ⟨sound_leave _ hInv, fun hExit => absurd rfl hExit⟩
    exact ⟨sound_deliver hInv hPlain.not_finished, hFilling.1, (hPlain.2 _).trans hFilling.2⟩
  · obtain ⟨taken, hFilling, -⟩ := hPumped
    exact hFilling

theorem sends_closeStream {A : Loop → Prop} (hKept : Undisturbed Sound Surroundings A)
    (hOwn : ∀ s, A s → ValidTranscript s.own) : Sends A closeStream fun _ => A := by
  refine rule_closeStream hKept fun s interrupted _ hInv hA => ?_
  refine ⟨sound_leave (s := { s with interrupted }) _ hInv, fun _ => ?_⟩
  rw [leave_own]
  exact hOwn s hA

/-- The message that is last, and whole turns before it. -/
def Owing (m : ChatMessage) (own : List ChatMessage) : Prop :=
  ∃ turns, own = turns ++ [m] ∧ ValidTranscript turns

/-- The LLM has streamed: the turn is whole, or the calls of its message are still
to be answered. -/
def Gathered (outcome : IterationOutcome) (own : List ChatMessage) : Prop :=
  if outcome.failed || outcome.interrupted then ValidTranscript own
  else ∃ m, outcome.message = some m ∧ Owing m own

theorem undisturbed_gathered :
    Undisturbed Sound Surroundings fun s => Gathered s.outcome s.own := by
  intro s s' _ _ hStep hGathered
  rw [hStep.beside.outcome, hStep.beside.own]
  exact hGathered

theorem sends_observed {A : Loop → Prop} (event : LoopEvent)
    (hKept : Undisturbed Sound Surroundings A)
    (hFree : ∀ m usage, event = .finished m usage → m.toolCalls = [])
    (hObserve : ∀ s, A s → Gathered (s.outcome.observe event) s.own) :
    Sends A (emitObserved event) fun _ s => Gathered s.outcome s.own :=
  rule_emitObserved event hKept undisturbed_gathered
    (fun s hInv hA => ⟨sound_deliver hInv hFree, hObserve s hA⟩) fun _ hInv _ => closed_sound hInv

theorem sends_finalizeAssistant (state : AssistantStreamState) :
    Sends Filling (finalizeAssistant state) fun _ s => Gathered s.outcome s.own := by
  have hAbort : Sends Filling abort fun _ => Filling :=
    rule_abort undisturbed_filling undisturbed_filling (fun _ hInv hFilling => ⟨hInv, hFilling⟩)
      (fun _ hInv hFilling _ => ⟨hInv, fun _ => hFilling.1⟩) fun _ hInv hFilling _ => ⟨hInv, hFilling⟩
  have hFailed : ∀ error, Sends Filling (emitObserved (.failed error))
      fun _ s => Gathered s.outcome s.own :=
    fun error => sends_observed _ undisturbed_filling (by simp) fun s hFilling => hFilling.1
  unfold finalizeAssistant
  split
  · exact hAbort.bind fun _ => hFailed _
  · split
    · refine hAbort.bind fun _ => ?_
      refine Co.Contract.bind (B := fun _ => Filling) ?_ fun message => ?_
      · refine Co.contract_atomic undisturbed_filling fun s hInv hFilling => ?_
        exact ⟨hInv, hFilling.1.append (valid_turn s.tracker _), hFilling.2⟩
      · refine sends_observed _ undisturbed_filling (by simp) fun s hFilling => ?_
        simp only [Gathered, IterationOutcome.observe, Bool.or_true, if_true]
        exact hFilling.1
    · split
      · refine Co.Contract.bind (B := fun _ => Filling) ?_ fun _ => hFailed _
        refine Co.contract_modify undisturbed_filling fun s hInv hFilling => ?_
        refine ⟨sound_leave _ hInv, ?_⟩
        rcases leave_cases s .notWaitedFor with hEq | hEq <;> rw [hEq] <;> exact hFilling
      · rename_i message _
        refine (Co.contract_modify (f := Loop.appendOwn [message])
          (B := fun s => Owing message s.own ∧ s.outcome = {}) undisturbed_filling
          fun s hInv hFilling => ⟨hInv, ⟨s.own, rfl, hFilling.1⟩, hFilling.2⟩).bind fun _ => ?_
        refine sends_observed _ ((undisturbed_own (Owing message)).and
          (undisturbed_outcome (· = {}))) (by simp) fun s hBoth => ?_
        rw [hBoth.2]
        exact ⟨message, rfl, hBoth.1⟩

theorem sends_streamAssistant (stream : LlmStream) :
    Sends Filling (streamAssistant stream) fun _ s => Gathered s.outcome s.own := by
  have hDied : ∀ error, Sends (PumpRaised error) (streamDied error) fun _ => Filling := by
    refine rule_streamDied (P := PumpRaised) (D := OfOwn ValidTranscript) (fun _ _ _ hOverflow => by simp at hOverflow) (fun error hError => ?_)
      (sends_closeStream (undisturbed_own ValidTranscript) fun _ hOwn => hOwn)
      fun _ _ _ hOwn _ => hOwn
    exact (sends_abort ValidTranscript).pre fun _ _ hDied => hDied hError
  refine ((sends_pumpStream stream.ending stream.events).tryCatch hDied).bind fun state => ?_
  exact (sends_closeStream undisturbed_filling fun _ hFilling => hFilling.1).bind fun _ =>
    sends_finalizeAssistant state

/-! ## The run -/

theorem sends_streamToolCalls (index : Nat) (message : ChatMessage) :
    Sends (OfOwn (Owing message)) (streamToolCalls index message)
      fun _ => OfOwn ValidTranscript := by
  have hKept : Undisturbed Sound Surroundings (OfOwn (Owing message)) := undisturbed_own _
  refine (rule_startCalls message hKept (fun _ _ hInv hOwn => ⟨hInv, hOwn⟩)
    fun call => sends_emit _ (by simp)).bind fun _ => ?_
  refine (rule_wait (D := OfOwn (Owing message)) (Q := fun _ => True) hKept index
    (fun s hInv hOwn => ⟨⟨hInv.1, hInv.2.1, by simp⟩, hOwn⟩)
    (rule_awaitRuns hKept (fun _ hInv => hInv.2.2) fun s hInv _ =>
      ⟨sound_leave (s := { s with interrupted := false }) _ hInv, fun hOverflow => by
        simp at hOverflow⟩) fun pending => ?_).bind fun _ => ?_
  · have hBoth : Undisturbed Sound Surroundings fun s =>
        (OfOwn (Owing message) s ∧ Pending pending s) ∧ (pending = [] → True) :=
      (hKept.and (undisturbed_pending pending)).and fun _ _ _ _ _ _ _ => trivial
    refine rule_drainAndEmit (hKept.and (undisturbed_pending pending))
      (fun _ hInv hBoth => ⟨hInv, hBoth, fun _ => trivial⟩) fun event hPlain => ?_
    exact rule_emit event hBoth hBoth
      (fun _ hInv hA => ⟨sound_deliver hInv hPlain.not_finished, hA⟩)
      fun _ hInv _ => closed_sound hInv
  · have hAbort : Sends (OfOwn (Owing message)) abort fun _ => OfOwn (Owing message) :=
      rule_abort hKept hKept (fun _ hInv hOwn => ⟨hInv, hOwn⟩)
        (fun _ hInv _ _ => ⟨hInv, fun hOverflow => by simp at hOverflow⟩)
        fun _ hInv hOwn _ => ⟨hInv, hOwn⟩
    refine (rule_abortIfCancelled (Q := fun _ => True) hKept undisturbed_true
      (fun _ hInv hOwn => ⟨hInv, hOwn⟩) (fun _ _ => trivial) hAbort
      fun _ _ hOwn _ => hOwn).bind fun _ => ?_
    refine Co.contract_modify hKept fun s hInv hOwn => ⟨hInv, ?_⟩
    obtain ⟨turns, hSplit, hTurns⟩ := hOwn
    show ValidTranscript (s.own ++ s.tracker.toolMessages message.toolCalls)
    rw [hSplit, List.append_assoc]
    exact hTurns.append (valid_turn s.tracker message)

theorem sends_iterate (llm : Nat → LlmStream) (index left : Nat) :
    Sends (OfOwn ValidTranscript) (iterate llm index left) fun _ _ => True := by
  have hDone : ∀ (f : List ChatMessage → Prop) (event : LoopEvent),
      (∀ m usage, event = .finished m usage → m.toolCalls = []) →
      Sends (OfOwn f) (emit event) fun _ _ => True :=
    fun f event hFree => (sends_emit event hFree).post fun _ _ _ _ => trivial
  induction left generalizing index with
  | zero => exact hDone _ _ (by simp)
  | succ left ih =>
      have hKept : Undisturbed Sound Surroundings (OfOwn ValidTranscript) := undisturbed_own _
      refine (sends_emit _ (by simp)).bind fun _ => ?_
      refine ((Co.contract_read hKept).post fun _ _ _ hBoth => hBoth.1).bind fun cancelled => ?_
      cases cancelled with
      | true => exact hDone _ _ (by simp)
      | false =>
          refine (Co.contract_modify (B := Filling) hKept fun s hInv hOwn => ?_).bind fun _ => ?_
          · refine ⟨⟨fun prompt hMem => ?_, hInv.2.1, by simp [Loop.beginIteration]⟩, hOwn, rfl⟩
            rcases List.mem_append.mp hMem with hMem | hMem
            · exact hInv.1 prompt hMem
            · obtain rfl := List.mem_singleton.mp hMem
              exact hOwn
          refine (sends_streamAssistant (llm index)).bind fun _ => ?_
          refine Co.Contract.bind (B := fun outcome => OfOwn (Gathered outcome)) ?_ fun outcome => ?_
          · refine (Co.contract_read undisturbed_gathered).post fun value s _ hBoth => ?_
            rw [hBoth.2]
            exact hBoth.1
          split
          · exact Co.contract_done fun _ _ _ => trivial
          · rename_i hNotFailed
            split
            · exact hDone _ _ (by simp)
            · rename_i hNotInterrupted
              split
              · exact Co.contract_fail fun _ _ _ hOverflow => by simp at hOverflow
              · rename_i message hMessage
                split
                · rename_i hNoCalls
                  refine Co.Contract.bind (B := fun _ _ => True) ?_ fun _ => ?_
                  · exact Co.contract_modify (undisturbed_own _) fun s hInv _ =>
                      ⟨sound_leave _ hInv, trivial⟩
                  · refine (hDone (fun _ => True) _ fun m usage hEq => ?_)
                    obtain ⟨rfl, -⟩ := LoopEvent.finished.inj hEq
                    exact hNoCalls
                · refine ((sends_streamToolCalls index message).bind fun _ => ih (index + 1)).pre
                    fun s _ hGathered => ?_
                  -- The calls of the message are owed before the tools run, and answered after.
                  rw [OfOwn, Gathered, if_neg (by simp [hNotFailed, hNotInterrupted])] at hGathered
                  obtain ⟨m, hMessage', hOwing⟩ := hGathered
                  obtain rfl := Option.some.inj (hMessage.symm.trans hMessage')
                  exact hOwing

/-- What the loop has sent and yielded at every moment, and what it leaves behind
when the context overflows. -/
theorem sound_trace {llm : Nat → LlmStream} {maxIterations : Nat} {s t : Loop} {rest : Work Unit}
    {steps : List (Loop × Loop)} (hInv : Sound s) (hOwn : ValidTranscript s.own)
    (hTrace : Co.Trace Surroundings (runLoop llm maxIterations) s steps rest t) : Sound t :=
  (sends_iterate llm 0 maxIterations).trace (fun _ _ hInv hStep => hInv.beside hStep) hInv hOwn
    hTrace

end Agent
end OctoForge
