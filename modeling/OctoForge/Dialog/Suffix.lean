import OctoForge.Dialog.Pull

/-!
# The private suffix of a branch

The loop of a run appends to the same list that the runner rewrites at every
sync, and one index, `synced_len`, says where the runner's part ends.  Syncs
are skipped or forced, narratives get longer and shorter, other runs trim, and
a cancelled run is salvaged from what lies behind the index.

`Recorded` is a run in which every move carries a label that says what it did
to the branches: a run was started on a narrative, a sync rendered the
narrative of a run anew, the loop of a run appended a message, or none of
these.  From the labels alone, `lastRendered` and `written` read the two parts
that a branch should have; that it has them, cut at the index, is the
invariant.
-/

namespace OctoForge
namespace Dialog

open Coop

/-- `_system_message`, as the first line of a branch. -/
def systemMessage (cfg : NarrativeConfig) : Line where
  piece := .block { role := .system, content := cfg.systemPrompt }

/-- A message of the loop, as a line of its branch. -/
def privateLine (message : ChatMessage) : Line where
  piece := .block message

@[simp] theorem privateLine_message (message : ChatMessage) :
    (privateLine message).message = message := rfl

/-- The narrative that `_assemble_narrative` returns. -/
def renderedNarrative (own : Option ExchangeId) (a : Assembled) (liveIds : List ExchangeId)
    (s : Dialogue) : List Line :=
  withDateEnvelope s.now (renderBranch a.messages own liveIds)

/-! ## Histories -/

/-- What a step did to the branches of the narrative-built runs. -/
inductive Happening where
  | started (id : ProcessId) (narrative : List Line)
  | rendered (id : ProcessId) (narrative : List Line)
  | wrote (id : ProcessId) (message : ChatMessage)
  | other
  deriving DecidableEq, Repr

/-- The narrative last rendered for a run.  A history has the latest happening
first. -/
def lastRendered (id : ProcessId) : List Happening → List Line
  | [] => []
  | .started run narrative :: earlier =>
      if run = id then narrative else lastRendered id earlier
  | .rendered run narrative :: earlier =>
      if run = id then narrative else lastRendered id earlier
  | _ :: earlier => lastRendered id earlier

/-- The messages that the loop of a run has appended since the run was created,
in order. -/
def written (id : ProcessId) : List Happening → List ChatMessage
  | [] => []
  -- a number is given to one run only, so nothing before counts
  | .started run _ :: earlier => if run = id then [] else written id earlier
  | .wrote run message :: earlier =>
      if run = id then written id earlier ++ [message] else written id earlier
  | _ :: earlier => written id earlier

/-! ## Labelled steps -/

/-- The steps that leave every branch alone: what is stored or appended to the
narrative, moves between exchanges, the lock, the launch of a background run,
the end of a run, and an assemble nobody looks at. -/
inductive OffBranch (cfg : NarrativeConfig) (s : Dialogue) : Dialogue → Prop
  | stored {s' : Dialogue} (hUntouched : Untouched s s') : OffBranch cfg s s'
  | appended (messages : List (ChatMessage × Nat)) : OffBranch cfg s (appendMessages messages s)
  | moved (collection target : ExchangeId) (position : Nat) :
      OffBranch cfg s (reparentStep collection target position s).2
  | retried (id : ProcessId) : OffBranch cfg s (takeOverflowRetry id s).2
  | launched (prompt : String) (own : Option ExchangeId) :
      OffBranch cfg s (startProcess prompt own s)
  | terminated (id : ProcessId) : OffBranch cfg s (terminateProcess id s)
  | locked (lock : Option Assembling) : OffBranch cfg s { s with assembling := lock }
  | checked (own : Option ExchangeId) (a : Assembled) (liveIds : List ExchangeId) :
      OffBranch cfg s (finishAssemble cfg .check own a liveIds s).2

/-- A step and what it did to the branches. -/
inductive Happened (cfg : NarrativeConfig) (s : Dialogue) : Happening → Dialogue → Prop
  | started (own : Option ExchangeId) (a : Assembled) (liveIds : List ExchangeId) :
      Happened cfg s (.started s.nextProcess (renderedNarrative own a liveIds s))
        (finishAssemble cfg .answer own a liveIds s).2
  | rendered (id : ProcessId) (own : Option ExchangeId) (a : Assembled)
      (liveIds : List ExchangeId) :
      Happened cfg s (.rendered id (renderedNarrative own a liveIds s))
        (finishAssemble cfg (.sync id) own a liveIds s).2
  | wrote (id : ProcessId) (message : ChatMessage) :
      Happened cfg s (.wrote id message) (writePrivate id message s)
  | other {s' : Dialogue} (hOff : OffBranch cfg s s') : Happened cfg s .other s'

/-- Every step has a label. -/
theorem Step.happened {cfg : NarrativeConfig} {me : Nat} {s s' : Dialogue}
    (hStep : Step cfg me s s') : ∃ happening, Happened cfg s happening s' := by
  cases hStep with
  | stored hUntouched => exact ⟨_, .other (.stored hUntouched)⟩
  | appended messages => exact ⟨_, .other (.appended messages)⟩
  | moved collection target position => exact ⟨_, .other (.moved collection target position)⟩
  | wrote id message => exact ⟨_, .wrote id message⟩
  | retried id => exact ⟨_, .other (.retried id)⟩
  | launched prompt own => exact ⟨_, .other (.launched prompt own)⟩
  | terminated id => exact ⟨_, .other (.terminated id)⟩
  | acquired purpose own hFree hFits => exact ⟨_, .other (.locked _)⟩
  | snapped count hHeld hMe hNew => exact ⟨_, .other (.locked _)⟩
  | released hHeld hMe => exact ⟨_, .other (.locked _)⟩
  | @finished a snapshot assembled liveIds hHeld hMe hSnapshot hTail hLen hAppended =>
      cases a.purpose with
      | answer => exact ⟨_, .started a.own assembled liveIds⟩
      | sync id => exact ⟨_, .rendered id a.own assembled liveIds⟩
      | check => exact ⟨_, .other (.checked a.own assembled liveIds)⟩

/-- A run from `s` with what each of its moves did to the branches, the latest
first. -/
inductive Recorded (cfg : NarrativeConfig) (s : Dialogue) :
    List Happening → Pool Dialogue RunError → Prop
  | fresh : Recorded cfg s [] { st := s }
  | move {history : List Happening} {q r : Pool Dialogue RunError} {happening : Happening}
      (m : System.Move (dialogue cfg)) (hPast : Recorded cfg s history q)
      (hMove : System.move q m = some r) (hHappened : Happened cfg q.st happening r.st) :
      Recorded cfg s (happening :: history) r

theorem Recorded.run {cfg : NarrativeConfig} {s : Dialogue} {history : List Happening}
    {q : Pool Dialogue RunError} (hRecorded : Recorded cfg s history q) :
    System.Run (dialogue cfg) { st := s } q := by
  induction hRecorded with
  | fresh => exact .refl _
  | move m _ hMove _ ih => exact .step m ih hMove

/-- Every run of a runner can be recorded. -/
theorem exists_recorded {cfg : NarrativeConfig} {s : Dialogue} (hFresh : s.Fresh)
    {q : Pool Dialogue RunError} (hRun : System.Run (dialogue cfg) { st := s } q) :
    ∃ history, Recorded cfg s history q := by
  induction hRun with
  | refl => exact ⟨[], .fresh⟩
  | step m hPrefix hMove ih =>
      obtain ⟨history, hRecorded⟩ := ih
      have hSafe := dialogue_sound hFresh hPrefix
      obtain ⟨me, hStep⟩ := promised_step (hSafe.move dialogue_follows m hMove).2
      obtain ⟨happening, hHappened⟩ := hStep.happened
      exact ⟨happening :: history, hRecorded.move m hMove hHappened⟩

/-! ## The invariant -/

/-- The branch is the system message, this narrative and these messages, and
the index stands between the two. -/
structure Process.Consists (cfg : NarrativeConfig) (narrative : List Line)
    (messages : List ChatMessage) (p : Process) : Prop where
  boundary : p.syncedLen = 1 + narrative.length
  branch : p.branch = systemMessage cfg :: (narrative ++ messages.map privateLine)

section Consists

variable {cfg : NarrativeConfig} {narrative : List Line} {messages : List ChatMessage}
  {p : Process}

theorem Process.Consists.synced (hConsists : p.Consists cfg narrative messages) :
    p.branch.take p.syncedLen = systemMessage cfg :: narrative := by
  rw [hConsists.branch, hConsists.boundary, Nat.add_comm, List.take_succ_cons, List.take_left]

theorem Process.Consists.suffix (hConsists : p.Consists cfg narrative messages) :
    p.branch.drop p.syncedLen = messages.map privateLine := by
  rw [hConsists.branch, hConsists.boundary, Nat.add_comm, List.drop_succ_cons, List.drop_left]

/-- The first sync of a run is its creation; nothing is behind the index yet. -/
theorem consists_answering (own : Option ExchangeId) (narrative : List Line)
    (watermark snapshot : Nat) (id : ProcessId) :
    (answering cfg own narrative watermark snapshot id).Consists cfg narrative [] where
  boundary := rfl
  branch := by
    rw [List.map_nil, List.append_nil]
    rfl

/-- A sync moves the index with the new narrative and keeps what was behind
it. -/
theorem Process.Consists.synchronised (hConsists : p.Consists cfg narrative messages)
    (rendered : List Line) (watermark snapshot : Nat) :
    (Dialog.synchronised cfg rendered watermark snapshot p).Consists cfg rendered messages where
  boundary := rfl
  branch := by
    rw [← hConsists.suffix]
    rfl

theorem Process.Consists.wrote (hConsists : p.Consists cfg narrative messages)
    (message : ChatMessage) :
    ({ p with branch := p.branch ++ [privateLine message] } : Process).Consists cfg narrative
      (messages ++ [message]) where
  boundary := hConsists.boundary
  branch := by
    show p.branch ++ [privateLine message] = _
    rw [hConsists.branch, List.map_append, List.map_singleton, List.cons_append, List.append_assoc]

end Consists

/-- Every narrative-built run has the branch that the history gives it. -/
def Accounted (cfg : NarrativeConfig) (history : List Happening) (s : Dialogue) : Prop :=
  ∀ p ∈ s.processes, p.narrativeBuilt = true →
    p.Consists cfg (lastRendered p.id history) (written p.id history)

/-- Off the branches, every narrative-built run was there before with the same
branch and the same index. -/
theorem OffBranch.process {cfg : NarrativeConfig} {s s' : Dialogue} (hOff : OffBranch cfg s s')
    {p' : Process} (hMem : p' ∈ s'.processes) (hBuilt : p'.narrativeBuilt = true) :
    ∃ p ∈ s.processes, p.narrativeBuilt = true ∧ p'.id = p.id ∧ p'.branch = p.branch ∧
      p'.syncedLen = p.syncedLen := by
  cases hOff with
  | stored hUntouched => exact ⟨p', hUntouched.processes ▸ hMem, hBuilt, rfl, rfl, rfl⟩
  | appended messages => exact ⟨p', hMem, hBuilt, rfl, rfl, rfl⟩
  | moved collection target position => exact ⟨p', hMem, hBuilt, rfl, rfl, rfl⟩
  | retried id =>
      rcases takeOverflowRetry_eq s id with hEq | hEq
      · rw [hEq] at hMem
        exact ⟨p', hMem, hBuilt, rfl, rfl, rfl⟩
      · rw [hEq] at hMem
        obtain ⟨p, hOld, rfl | rfl⟩ := mem_updateProcess hMem
        · exact ⟨p', hOld, hBuilt, rfl, rfl, rfl⟩
        · exact ⟨p, hOld, hBuilt, rfl, rfl, rfl⟩
  | launched prompt own =>
      rcases List.mem_append.mp hMem with hOld | hNew
      · exact ⟨p', hOld, hBuilt, rfl, rfl, rfl⟩
      · -- a background run is not built from the narrative
        rw [List.mem_singleton.mp hNew] at hBuilt
        simp at hBuilt
  | terminated id =>
      rcases terminateProcess_eq s id with hEq | ⟨p, _, hEq⟩
      · rw [hEq] at hMem
        exact ⟨p', hMem, hBuilt, rfl, rfl, rfl⟩
      · rw [hEq] at hMem
        exact ⟨p', (List.mem_filter.mp hMem).1, hBuilt, rfl, rfl, rfl⟩
  | locked lock => exact ⟨p', hMem, hBuilt, rfl, rfl, rfl⟩
  | checked own a liveIds =>
      rcases finishAssemble_process hMem with ⟨p, hOld, -, rfl⟩ | ⟨p, -, hSync, -⟩ | ⟨hAnswer, -⟩
      · exact ⟨p, hOld, hBuilt, rfl, rfl, rfl⟩
      · simp at hSync
      · simp at hAnswer

/-- Every labelled step keeps the account. -/
theorem Accounted.step {cfg : NarrativeConfig} {history : List Happening} {s s' : Dialogue}
    {happening : Happening} (hAccounted : Accounted cfg history s) (hSound : Sound s)
    (hHappened : Happened cfg s happening s') : Accounted cfg (happening :: history) s' := by
  intro p' hMem hBuilt
  -- The runs that a step does not touch keep their branch, and the label is not about them.
  cases hHappened with
  | started own a liveIds =>
      rcases finishAssemble_process hMem with ⟨p, hOld, -, rfl⟩ | ⟨p, -, hSync, -⟩ | ⟨-, rfl⟩
      · -- the new run has a number of its own
        have hOther : s.nextProcess ≠ p.id :=
          (Nat.ne_of_lt (hSound.ids p.id (List.mem_map_of_mem hOld))).symm
        have hKept := hAccounted p hOld hBuilt
        simp only [lastRendered, written, if_neg hOther]
        exact ⟨hKept.boundary, hKept.branch⟩
      · simp at hSync
      · show Process.Consists cfg (lastRendered s.nextProcess _) (written s.nextProcess _) _
        rw [lastRendered, written, if_pos rfl, if_pos rfl]
        exact consists_answering own (renderedNarrative own a liveIds s) _ _ _
  | rendered id own a liveIds =>
      rcases finishAssemble_process hMem with
        ⟨p, hOld, hOther, rfl⟩ | ⟨p, hOld, hSync, rfl⟩ | ⟨hAnswer, -⟩
      · have hNot : id ≠ p.id := fun hId => hOther (congrArg Purpose.sync hId)
        have hKept := hAccounted p hOld hBuilt
        simp only [lastRendered, written, if_neg hNot]
        exact ⟨hKept.boundary, hKept.branch⟩
      · have hId : id = p.id := Purpose.sync.inj hSync
        have hKept := hAccounted p hOld hBuilt
        -- the suffix is read through the old index and put behind the new narrative
        show Process.Consists cfg (lastRendered p.id _) (written p.id history) _
        rw [lastRendered, if_pos hId]
        exact hKept.synchronised (renderedNarrative own a liveIds s) _ _
      · simp at hAnswer
  | wrote id message =>
      simp only [writePrivate, updateProcess, List.mem_map] at hMem
      obtain ⟨p, hOld, rfl⟩ := hMem
      by_cases hId : p.id = id
      · simp only [if_pos hId] at hBuilt ⊢
        have hKept := hAccounted p hOld hBuilt
        show Process.Consists cfg (lastRendered p.id history) (written p.id _) _
        rw [written, if_pos hId.symm]
        exact hKept.wrote message
      · simp only [if_neg hId] at hBuilt ⊢
        simp only [lastRendered, written, if_neg (Ne.symm hId)]
        exact hAccounted p hOld hBuilt
  | other hOff =>
      obtain ⟨p, hOld, hOldBuilt, hId, hBranch, hSynced⟩ := hOff.process hMem hBuilt
      have hKept := hAccounted p hOld hOldBuilt
      simp only [lastRendered, written, hId]
      exact ⟨hSynced.trans hKept.boundary, hBranch.trans hKept.branch⟩

theorem Recorded.accounted {cfg : NarrativeConfig} {s : Dialogue} (hFresh : s.Fresh)
    {history : List Happening} {q : Pool Dialogue RunError}
    (hRecorded : Recorded cfg s history q) : Accounted cfg history q.st := by
  induction hRecorded with
  | fresh =>
      intro p hMem
      simp [hFresh.processes] at hMem
  | move m hPast _ hHappened ih =>
      exact ih.step (dialogue_sound hFresh hPast.run).1 hHappened

/-! ## Whole runs -/

/-- In every state of every run, however the moves are labelled, the branch of
a narrative-built run is, up to its index, the system message and the narrative
last rendered for it, and behind the index exactly the messages its loop has
appended since it was created, in order. -/
theorem branch_splits_at_synced_len {cfg : NarrativeConfig} {s : Dialogue} (hFresh : s.Fresh)
    {q : Pool Dialogue RunError} (hRun : System.Run (dialogue cfg) { st := s } q) :
    (∃ history, Recorded cfg s history q) ∧
      ∀ history, Recorded cfg s history q → ∀ p ∈ q.st.processes, p.narrativeBuilt = true →
        p.branch.take p.syncedLen = systemMessage cfg :: lastRendered p.id history ∧
          p.branch.drop p.syncedLen = (written p.id history).map privateLine := by
  refine ⟨exists_recorded hFresh hRun, fun history hRecorded p hMem hBuilt => ?_⟩
  have hConsists := hRecorded.accounted hFresh p hMem hBuilt
  exact ⟨hConsists.synced, hConsists.suffix⟩

/-- The loop of a run writes, a notice makes its next sync render the narrative
anew, and the loop writes again. -/
def wroteAroundSync : List (System.Move (dialogue {})) :=
  [.start (.startAnswer (some 7))] ++ resumes 0 6 ++
    [.start (.pump 0
      [.wrote { role := .assistant, content := "first" }, .iterationStarted,
        .wrote { role := .assistant, content := "second" }] .silent)] ++ resumes 1 1 ++
    [.start (.deliverNotice "done" none)] ++ resumes 2 2 ++ resumes 1 8

/-- The sync made the narrative longer, and behind the index are both messages. -/
theorem branch_splits_at_synced_len_around_sync :
    ∃ q p, System.Run (dialogue {}) { st := compactedDialogue } q ∧ p ∈ q.st.processes ∧
      p.narrativeBuilt = true ∧ p.syncedLen = 5 ∧
      (p.branch.drop p.syncedLen).map (·.message.content) = ["first", "second"] ∧
      (∃ history, Recorded {} compactedDialogue history q) ∧
      ∀ history, Recorded {} compactedDialogue history q →
        p.branch.take p.syncedLen = systemMessage {} :: lastRendered p.id history ∧
          p.branch.drop p.syncedLen = (written p.id history).map privateLine := by
  have hMoves : (System.moves wroteAroundSync { st := compactedDialogue }).map
      (fun q : Pool Dialogue RunError => q.st.processes.any fun p =>
        p.narrativeBuilt && p.syncedLen = 5 &&
          (p.branch.drop p.syncedLen).map (·.message.content) = ["first", "second"]) =
      some true := by
    decide +kernel
  obtain ⟨q, hRun, hEnd⟩ := System.Run.exists_of_moves wroteAroundSync hMoves
  obtain ⟨p, hMem, hHolds⟩ := List.any_eq_true.mp hEnd
  simp only [Bool.and_eq_true, decide_eq_true_eq] at hHolds
  obtain ⟨⟨hBuilt, hSynced⟩, hSuffix⟩ := hHolds
  obtain ⟨hRecorded, hSplit⟩ := branch_splits_at_synced_len compactedDialogue_fresh hRun
  exact ⟨q, p, hRun, hMem, hBuilt, hSynced, hSuffix, hRecorded, fun history hHistory =>
    hSplit history hHistory p hMem hBuilt⟩

/-- What is salvaged from a cancelled run is the last turn of its own loop. -/
theorem salvaged_of_recorded {cfg : NarrativeConfig} {s : Dialogue} (hFresh : s.Fresh)
    {history : List Happening} {q : Pool Dialogue RunError}
    (hRecorded : Recorded cfg s history q) {p : Process} (hMem : p ∈ q.st.processes)
    (hBuilt : p.narrativeBuilt = true) :
    salvaged p =
      ((latestAssistantWithContent (written p.id history)).map fun last =>
        [last, { role := .system, content := interruptedNote }]).getD [] := by
  have hConsists := hRecorded.accounted hFresh p hMem hBuilt
  have hMessages : (p.branch.drop p.syncedLen).map (·.message) = written p.id history := by
    rw [hConsists.suffix, List.map_map]
    exact List.map_id _
  unfold salvaged
  rw [hMessages]
  cases latestAssistantWithContent (written p.id history) <;> rfl

end Dialog
end OctoForge
