import OctoForge.Agent.Rules

/-!
# Turns

A turn is an assistant message and the replies to its calls.  A reply answers a
call from the run of this very call (`Answers`), and no run answers two calls
(`Replied`).  That the tracker's tool messages do so rests on the ids: they are
all it has to tell calls apart.
-/

namespace OctoForge
namespace Agent

/-! ## Replies -/

/-- The message replies to the call, with the outcome of the run with this number. -/
def Answers (iteration : Nat) (runs : List ToolRun) (call : ToolCall)
    (answer : Nat × ChatMessage) : Prop :=
  answer.2.role = .tool ∧ answer.2.toolCalls = [] ∧ answer.2.toolCallId = some call.id ∧
    ∃ run : ToolRun, runs[answer.1]? = some run ∧ run.iteration = iteration ∧ run.call = call ∧
      run.outcome? = some answer.2.content

/-- One reply to each call, in order, each from a run of its own. -/
def Replied (iteration : Nat) (runs : List ToolRun) (calls : List ToolCall)
    (replies : List ChatMessage) : Prop :=
  ∃ answers : List (Nat × ChatMessage), answers.map (·.2) = replies ∧
    (answers.map (·.1)).Nodup ∧ List.Forall₂ (Answers iteration runs) calls answers

theorem exists_call {iteration : Nat} {runs : List ToolRun} {calls : List ToolCall}
    {answers : List (Nat × ChatMessage)} {answer : Nat × ChatMessage}
    (hAnswers : List.Forall₂ (Answers iteration runs) calls answers) (hMem : answer ∈ answers) :
    ∃ call ∈ calls, Answers iteration runs call answer := by
  induction hAnswers with
  | nil => simp at hMem
  | cons hAnswer _ ih =>
      rcases List.mem_cons.mp hMem with rfl | hMem
      · exact ⟨_, List.mem_cons_self, hAnswer⟩
      · obtain ⟨call, hCall, hAnswer⟩ := ih hMem
        exact ⟨call, List.mem_cons_of_mem _ hCall, hAnswer⟩

/-- Runs that have ended stay as they are. -/
def Kept (runs runs' : List ToolRun) : Prop :=
  ∀ (n : Nat) run, runs[n]? = some run → run.status.isEnded = true →
    ∃ run', runs'[n]? = some run' ∧ run'.iteration = run.iteration ∧ run'.call = run.call ∧
      run'.status = run.status

theorem Older.kept {runs runs' : List ToolRun} (hOlder : Older runs runs') : Kept runs runs' := by
  intro n run hRun hEnded
  obtain ⟨run', hRun', hAges⟩ := hOlder.get hRun
  exact ⟨run', hRun', hAges.1, hAges.2.1, hAges.ended hEnded⟩

theorem kept_append (runs more : List ToolRun) : Kept runs (runs ++ more) := by
  intro n run hRun _
  refine ⟨run, ?_, rfl, rfl, rfl⟩
  rw [List.getElem?_append_left (List.getElem?_eq_some_iff.mp hRun).1, hRun]

theorem Loop.Beside.kept {s s' : Loop} (hBeside : s.Beside s') : Kept s.runs s'.runs :=
  fun _ _ hRun hEnded => hBeside.run_ended hRun hEnded

theorem Replied.kept {iteration : Nat} {runs runs' : List ToolRun} {calls : List ToolCall}
    {replies : List ChatMessage} (hReplied : Replied iteration runs calls replies)
    (hKept : Kept runs runs') : Replied iteration runs' calls replies := by
  obtain ⟨answers, hReplies, hNodup, hAnswers⟩ := hReplied
  refine ⟨answers, hReplies, hNodup, hAnswers.imp fun call answer hAnswer => ?_⟩
  obtain ⟨hRole, hNone, hId, run, hRun, hIteration, hCall, hOutcome⟩ := hAnswer
  have hEnded : run.status.isEnded = true := by
    cases hStatus : run.status <;> simp_all [ToolRun.outcome?, RunStatus.isEnded]
  obtain ⟨run', hRun', hIteration', hCall', hStatus'⟩ := hKept _ run hRun hEnded
  refine ⟨hRole, hNone, hId, run', hRun', hIteration'.trans hIteration, hCall'.trans hCall, ?_⟩
  rw [← hOutcome, ToolRun.outcome?, ToolRun.outcome?, hStatus']

theorem Replied.plain {iteration : Nat} {runs : List ToolRun} {calls : List ToolCall}
    {replies : List ChatMessage} (hReplied : Replied iteration runs calls replies) :
    ∀ reply ∈ replies, reply.role = .tool ∧ reply.toolCalls = [] := by
  obtain ⟨answers, rfl, -, hAnswers⟩ := hReplied
  intro reply hMem
  obtain ⟨answer, hAnswer, rfl⟩ := List.mem_map.mp hMem
  obtain ⟨call, -, hRole, hNone, -⟩ := exists_call hAnswers hAnswer
  exact ⟨hRole, hNone⟩

/-- The runs of the iteration have ended, and their results can be looked up. -/
def Loop.Quiet (s : Loop) : Prop :=
  s.tracker.queue = [] ∧ ∀ (n : Nat) run, s.runs[n]? = some run → run.iteration = s.iterations →
    run.status.isEnded = true

/-- What the tracker finds for a call is the outcome of its run. -/
theorem Loop.Quiet.outcome {s : Loop} (hQuiet : s.Quiet) (hBooks : s.Coherent) {n : Nat}
    {run : ToolRun} (hRun : s.runs[n]? = some run) (hIteration : run.iteration = s.iterations) :
    run.outcome? = some (s.tracker.resultContent run.call) := by
  have hEnded := hQuiet.2 n run hRun hIteration
  cases hStatus : run.status with
  | waiting => simp [hStatus, RunStatus.isEnded] at hEnded
  | expired => simp [hStatus, RunStatus.isEnded] at hEnded
  | landed r =>
      have hCall := hBooks.own n run r hRun hStatus
      rcases hBooks.found n run r hRun hIteration hStatus with hMem | hFound
      · simp [hQuiet.1] at hMem
      · rw [← hCall]
        simp [ToolRun.outcome?, hStatus, Tracker.resultContent, hFound]
  | cancelled =>
      cases hFound : s.tracker.results run.call.id with
      | none => simp [ToolRun.outcome?, hStatus, Tracker.resultContent, hFound]
      | some r =>
          -- only a run with the same id could have left a result there
          obtain ⟨hId, n', run', hRun', hIteration', hCall', hStatus'⟩ := hBooks.results _ r hFound
          obtain rfl := hBooks.unique hRun hRun' hIteration hIteration' (by rw [hCall', hId])
          obtain rfl := Option.some.inj (hRun.symm.trans hRun')
          simp [hStatus] at hStatus'

theorem Loop.Coherent.run_of_mem {s : Loop} (hBooks : s.Coherent) {call : ToolCall}
    (hMem : call ∈ s.tracker.order) :
    ∃ (n : Nat) (run : ToolRun), s.runs[n]? = some run ∧ run.iteration = s.iterations ∧
      run.call = call := by
  rw [← hBooks.calls, callsOf] at hMem
  obtain ⟨run, hRun, rfl⟩ := List.mem_map.mp hMem
  obtain ⟨hRun, hIteration⟩ := List.mem_filter.mp hRun
  obtain ⟨n, hGet⟩ := List.getElem?_of_mem hRun
  exact ⟨n, run, hGet, by simpa using hIteration, rfl⟩

/-- The tool messages of calls the tracker has accepted reply to them. -/
theorem Loop.Quiet.replied {s : Loop} (hQuiet : s.Quiet) (hBooks : s.Coherent)
    {calls : List ToolCall} (hCalls : ∀ call ∈ calls, call ∈ s.tracker.order)
    (hIds : (calls.map (·.id)).Nodup) :
    Replied s.iterations s.runs calls (s.tracker.toolMessages calls) := by
  induction calls with
  | nil => exact ⟨[], rfl, List.nodup_nil, .nil⟩
  | cons call rest ih =>
      obtain ⟨hFresh, hRest⟩ := List.nodup_cons.mp hIds
      obtain ⟨answers, hReplies, hNodup, hAnswers⟩ :=
        ih (fun other hOther => hCalls other (List.mem_cons_of_mem _ hOther)) hRest
      obtain ⟨n, run, hRun, hIteration, rfl⟩ := hBooks.run_of_mem (hCalls call List.mem_cons_self)
      let reply : ChatMessage :=
        { role := .tool, content := s.tracker.resultContent run.call, toolCallId := some run.call.id }
      refine ⟨(n, reply) :: answers, ?_, ?_, .cons ?_ hAnswers⟩
      · rw [List.map_cons, hReplies]
        rfl
      · refine List.nodup_cons.mpr ⟨fun hMem => hFresh ?_, hNodup⟩
        obtain ⟨answer, hAnswer, rfl⟩ := List.mem_map.mp hMem
        obtain ⟨other, hOther, -, -, -, run', hRun', -, hCall', -⟩ :=
          exists_call hAnswers hAnswer
        obtain rfl := Option.some.inj (hRun.symm.trans hRun')
        exact List.mem_map.mpr ⟨other, hOther, by rw [hCall']⟩
      · exact ⟨rfl, rfl, rfl, run, hRun, hIteration, rfl, hQuiet.outcome hBooks hRun hIteration⟩

/-! ## Turns -/

/-- Whole turns: assistant messages, each followed by the replies to its calls.
The `k`-th is that of iteration `k`. -/
inductive Turns (runs : List ToolRun) : Nat → List ChatMessage → Prop
  | none : Turns runs 0 []
  | turn {k : Nat} {own : List ChatMessage} {m : ChatMessage} {replies : List ChatMessage}
      (hTurns : Turns runs k own) (hRole : m.role = .assistant)
      (hReplied : Replied (k + 1) runs m.toolCalls replies) :
      Turns runs (k + 1) (own ++ m :: replies)

theorem Turns.kept {runs runs' : List ToolRun} {k : Nat} {own : List ChatMessage}
    (hTurns : Turns runs k own) (hKept : Kept runs runs') : Turns runs' k own := by
  induction hTurns with
  | none => exact .none
  | turn _ hRole hReplied ih => exact .turn ih hRole (hReplied.kept hKept)

def assistants (messages : List ChatMessage) : Nat :=
  (messages.filter (·.role = .assistant)).length

/-- The next messages are the replies to the calls of this one, which is that of
the iteration after those before it. -/
def ReplyFollows (runs : List ToolRun) (before : List ChatMessage) (m : ChatMessage)
    (after : List ChatMessage) : Prop :=
  ∃ replies rest, after = replies ++ rest ∧
    Replied (assistants before + 1) runs m.toolCalls replies

theorem Turns.assistants {runs : List ToolRun} {k : Nat} {own : List ChatMessage}
    (hTurns : Turns runs k own) : assistants own = k := by
  induction hTurns with
  | none => rfl
  | @turn k own m replies _ hRole hReplied ih =>
      have hNone : ∀ reply ∈ replies, ¬decide (reply.role = .assistant) = true := by
        intro reply hMem
        rw [(hReplied.plain reply hMem).1]
        decide
      rw [Agent.assistants] at ih ⊢
      rw [List.filter_append, List.filter_cons_of_pos (by simp [hRole]),
        List.filter_eq_nil_iff.mpr hNone, List.length_append, ih]
      rfl

theorem Turns.replyFollows {runs : List ToolRun} {k : Nat} {own : List ChatMessage}
    (hTurns : Turns runs k own) {before after : List ChatMessage} {m : ChatMessage}
    (hOwn : own = before ++ m :: after) (hCalls : m.toolCalls ≠ []) :
    ReplyFollows runs before m after := by
  induction hTurns generalizing after with
  | none => simp at hOwn
  | @turn k own m' replies hTurns hRole hReplied ih =>
      have hThis : ∀ after, own = before → m' :: replies = m :: after →
          ReplyFollows runs before m after := by
        rintro after rfl hRest
        obtain ⟨rfl, rfl⟩ := List.cons.inj hRest
        exact ⟨replies, [], (List.append_nil _).symm, hTurns.assistants ▸ hReplied⟩
      rcases List.append_eq_append_iff.mp hOwn with ⟨middle, hBefore, hRest⟩ | ⟨middle, hSplit, hRest⟩
      · cases middle with
        | nil => exact hThis after (by simpa using hBefore.symm) hRest
        | cons first middle =>
            -- the replies have no calls of their own
            have hMem : m ∈ replies := by
              rw [(List.cons.inj hRest).2]
              exact List.mem_append_right _ List.mem_cons_self
            exact absurd (hReplied.plain m hMem).2 hCalls
      · cases middle with
        | nil => exact hThis after (by simpa using hSplit) hRest.symm
        | cons first middle =>
            obtain ⟨rfl, rfl⟩ := List.cons.inj hRest
            obtain ⟨replies', rest, hMiddle, hFollows⟩ := ih hSplit
            exact ⟨replies', rest ++ m' :: replies, by rw [hMiddle]; simp, hFollows⟩

end Agent
end OctoForge
