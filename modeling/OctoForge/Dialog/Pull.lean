import OctoForge.Dialog.Watermarks

/-!
# The pull model loses nothing

A run does not receive messages: it finds them behind its watermark when it
syncs, and when it ends the runner looks behind the watermark once more.  So a
message of the run's exchange is either shown by the branch of the last sync or
it is still behind the watermark, and then the run does not end as one that has
seen everything.

Two things take a message out of this argument.  A trim moves it into the
compactor's summaries, by design.  And a re-parenting rewrites exchange ids in
place, also below the watermark; `Dialogue.misfiled` records that one did so to
a run, and the results are about runs in which none has.
-/

namespace OctoForge
namespace Dialog

open Coop
open Sequence (Numbered)

/-! ## What a sync shows -/

@[simp] theorem ownSerials_cons_block (message : ChatMessage) (lines : List Line) :
    ownSerials ({ piece := .block message } :: lines) = ownSerials lines := rfl

theorem synced_synchronised (cfg : NarrativeConfig) (narrative : List Line)
    (watermark snapshot : Nat) (p : Process) :
    ownSerials (synchronised cfg narrative watermark snapshot p).synced = ownSerials narrative := by
  have hTake : (synchronised cfg narrative watermark snapshot p).synced =
      { piece := .block { role := .system, content := cfg.systemPrompt } } :: narrative := by
    simp [Process.synced, synchronised, Nat.add_comm 1]
  rw [hTake, ownSerials_cons_block]

theorem synced_answering (cfg : NarrativeConfig) (own : Option ExchangeId) (narrative : List Line)
    (watermark snapshot : Nat) (id : ProcessId) :
    ownSerials (answering cfg own narrative watermark snapshot id).synced =
      ownSerials narrative := by
  have hTake : (answering cfg own narrative watermark snapshot id).synced =
      { piece := .block { role := .system, content := cfg.systemPrompt } } :: narrative := by
    simp [Process.synced, answering, Nat.add_comm 1]
  rw [hTake, ownSerials_cons_block]

/-- Every message of the own exchange in the tail is shown. -/
theorem tail_shown {a : Assembled} {e : Entry} {x : ExchangeId} (hMem : e ∈ a.tail)
    (hCarries : e.message.Carries x) (liveIds : List ExchangeId) (now : String) :
    e.serial ∈
      ownSerials (withDateEnvelope now (renderBranch a.messages (some x) liveIds)) := by
  rw [ownSerials_withDateEnvelope]
  refine renderBranch_own ?_ hCarries liveIds
  unfold Assembled.messages
  split
  · exact List.mem_map_of_mem hMem
  · exact List.mem_cons_of_mem _ (List.mem_map_of_mem hMem)

/-! ## The invariant -/

/-- Messages of a run's exchange are shown by its branch or lie behind its
snapshot, and so for the assemble under way. -/
structure Pulled (s : Dialogue) : Prop where
  seen : ∀ p ∈ s.processes, p.narrativeBuilt = true → ∀ x, p.exchangeId = some x →
    ∀ e ∈ s.narrative, e.message.Carries x →
      p.snapshot ≤ e.serial ∨ e.serial ∈ ownSerials p.synced
  cut : ∀ a snapshot x, s.assembling = some a → a.snapshot = some snapshot → a.own = some x →
    ∀ e ∈ s.narrative, e.message.Carries x →
      snapshot.appended ≤ e.serial ∨ e ∈ snapshot.tail ∨
        e.serial + snapshot.tail.length < snapshot.appended

/-- A step that changes no branch, no snapshot and no message keeps it. -/
theorem Pulled.of_processes {s s' : Dialogue} (hPulled : Pulled s)
    (hNarrative : ∀ e ∈ s'.narrative, e ∈ s.narrative)
    (hAssembling : ∀ a, s'.assembling = some a → a.snapshot = none ∨ s.assembling = some a)
    (hProcess : ∀ p' ∈ s'.processes, p'.narrativeBuilt = true → ∃ p ∈ s.processes,
      p.narrativeBuilt = true ∧ p'.exchangeId = p.exchangeId ∧ p'.snapshot = p.snapshot ∧
        p'.synced = p.synced) : Pulled s' where
  seen p' hMem hBuilt x hExchange e hEntry hCarries := by
    obtain ⟨p, hOld, hOldBuilt, hSame, hSnapshot, hSynced⟩ := hProcess p' hMem hBuilt
    rw [hSnapshot, hSynced]
    exact hPulled.seen p hOld hOldBuilt x (hSame ▸ hExchange) e (hNarrative e hEntry) hCarries
  cut a snapshot x hHeld hSnapshot hOwn e hEntry hCarries := by
    rcases hAssembling a hHeld with hNone | hOld
    · rw [hNone] at hSnapshot
      simp at hSnapshot
    · exact hPulled.cut a snapshot x hOld hSnapshot hOwn e (hNarrative e hEntry) hCarries

theorem Pulled.appendMessages {s : Dialogue} (hPulled : Pulled s) (hSound : Sound s)
    (messages : List (ChatMessage × Nat)) : Pulled (appendMessages messages s) where
  seen p hMem hBuilt x hExchange e hEntry hCarries := by
    rcases List.mem_append.mp hEntry with hOld | hNew
    · exact hPulled.seen p hMem hBuilt x hExchange e hOld hCarries
    · have hSerial := ((s.entries_numbered messages).bounds hNew).1
      exact Or.inl (Nat.le_trans ((hSound.process p hMem).seen hBuilt) hSerial)
  cut a snapshot x hHeld hSnapshot hOwn e hEntry hCarries := by
    rcases List.mem_append.mp hEntry with hOld | hNew
    · exact hPulled.cut a snapshot x hHeld hSnapshot hOwn e hOld hCarries
    · have hSerial := ((s.entries_numbered messages).bounds hNew).1
      obtain ⟨hLen, -, -, hAppended⟩ := hSound.snapshot a snapshot hHeld hSnapshot
      left
      rw [hAppended]
      omega

theorem Pulled.takeSnapshot {s : Dialogue} (hPulled : Pulled s) (hSound : Sound s) (count : Nat) :
    Pulled (takeSnapshot count s).2 where
  seen := hPulled.seen
  cut a' snapshot x hHeld' hSnapshot _ e hEntry _ := by
    simp only [Dialog.takeSnapshot, Option.map_eq_some_iff] at hHeld'
    obtain ⟨a, hHeld, rfl⟩ := hHeld'
    simp only [Option.some.injEq] at hSnapshot
    subst hSnapshot
    show s.appended ≤ e.serial ∨ e ∈ tailOf s.narrative count ∨
      e.serial + (tailOf s.narrative count).length < s.appended
    have hEntry' : e ∈ s.narrative := hEntry
    by_cases hTail : e ∈ tailOf s.narrative count
    · exact Or.inr (Or.inl hTail)
    · right; right
      unfold tailOf at hTail
      rw [hSound.serials.mem_drop_iff] at hTail
      have hBelow : ¬ s.trimmed + (s.narrative.length - min count s.narrative.length) ≤ e.serial :=
        fun hLe => hTail ⟨hEntry', hLe⟩
      simp only [tailOf, List.length_drop, Dialogue.appended]
      omega

/-- The assemble shows what was in its tail; what it trimmed is gone from the
narrative, and what came after its snapshot is behind it. -/
theorem Pulled.finishAssemble {cfg : NarrativeConfig} {s : Dialogue} (hPulled : Pulled s)
    (hSound : Sound s) {a : Assembling} {snapshot : Snapshot} {assembled : Assembled}
    {liveIds : List ExchangeId} (hHeld : s.assembling = some a)
    (hSnapshot : a.snapshot = some snapshot) (hTail : assembled.tail = snapshot.tail)
    (hLen : assembled.snapshotLen = snapshot.len)
    (hAppended : assembled.appended = snapshot.appended) :
    Pulled (finishAssemble cfg a.purpose a.own assembled liveIds s).2 := by
  obtain ⟨hSnapLen, hTailLen, -, hSnapAppended⟩ := hSound.snapshot a snapshot hHeld hSnapshot
  -- An entry that the assemble has left in the narrative is later than its snapshot or shown by it.
  have hShown : ∀ x, a.own = some x → ∀ e,
      e ∈ (Dialog.finishAssemble cfg a.purpose a.own assembled liveIds s).2.narrative →
      e.message.Carries x → assembled.appended ≤ e.serial ∨
        e.serial ∈ ownSerials
          (withDateEnvelope s.now (renderBranch assembled.messages a.own liveIds)) := by
    intro x hOwn e hEntry hCarries
    rw [finishAssemble_narrative, hSound.serials.mem_drop_iff, hLen, Assembled.tailCount,
      hTail] at hEntry
    rcases hPulled.cut a snapshot x hHeld hSnapshot hOwn e hEntry.1 hCarries with
      hLater | hCut | hTrimmed
    · exact Or.inl (hAppended ▸ hLater)
    · rw [hOwn]
      exact Or.inr (tail_shown (hTail ▸ hCut) hCarries liveIds s.now)
    · have hHeldAt := hEntry.2
      omega
  refine ⟨fun p' hMem hBuilt x hExchange e hEntry hCarries => ?_, ?_⟩
  -- A process is as it was, or has been synced, or is the one that was started.
  · rcases finishAssemble_process hMem with ⟨p, hOld, -, rfl⟩ | ⟨p, hOld, hSync, rfl⟩ | ⟨-, rfl⟩
    · have hOldEntry : e ∈ s.narrative := by
        rw [finishAssemble_narrative] at hEntry
        exact List.mem_of_mem_drop hEntry
      exact hPulled.seen p hOld hBuilt x hExchange e hOldEntry hCarries
    · have hFits := hSound.fits a hHeld
      rw [hSync] at hFits
      have hOwn : a.own = some x := by
        rw [← (hFits.2 p hOld rfl).1]
        exact hExchange
      rw [synced_synchronised]
      exact hShown x hOwn e hEntry hCarries
    · rw [synced_answering]
      exact hShown x hExchange e hEntry hCarries
  · intro a' snapshot' x hHeld'
    simp at hHeld'

/-! ## Re-parenting -/

section Reparent

variable {collection target : ExchangeId}

theorem moved_mem_right {entries entries' : List Entry}
    (hMoved : List.Forall₂ (Moved collection target) entries entries') {e' : Entry}
    (hMem : e' ∈ entries') : ∃ e ∈ entries, Moved collection target e e' := by
  induction hMoved with
  | nil => simp at hMem
  | cons hHead _ ih =>
      rcases List.mem_cons.mp hMem with rfl | hRest
      · exact ⟨_, List.mem_cons_self, hHead⟩
      · obtain ⟨e, hOld, hRel⟩ := ih hRest
        exact ⟨e, List.mem_cons_of_mem _ hOld, hRel⟩

theorem moved_mem_left {entries entries' : List Entry}
    (hMoved : List.Forall₂ (Moved collection target) entries entries') {e : Entry}
    (hMem : e ∈ entries) : ∃ e' ∈ entries', Moved collection target e e' := by
  induction hMoved with
  | nil => simp at hMem
  | cons hHead _ ih =>
      rcases List.mem_cons.mp hMem with rfl | hRest
      · exact ⟨_, List.mem_cons_self, hHead⟩
      · obtain ⟨e', hNew, hRel⟩ := ih hRest
        exact ⟨e', List.mem_cons_of_mem _ hNew, hRel⟩

/-- A message that carries another exchange than the target was not moved. -/
theorem moved_other {e e' : Entry} {x : ExchangeId} (hMoved : Moved collection target e e')
    (hCarries : e'.message.Carries x) (hOther : x ≠ target) : e' = e := by
  cases hMoved with
  | kept => rfl
  | moved hFrom => exact absurd (Option.some.inj hCarries.2).symm hOther

/-- What a re-parenting that misfiles nothing leaves as it was. -/
structure Filed (s : Dialogue) (collection target : ExchangeId) (moved : List Entry) : Prop where
  source : ∀ p ∈ s.processes, p.narrativeBuilt = true → p.exchangeId = some collection →
    userMessages moved = userMessages s.narrative
  seen : ∀ p ∈ s.processes, p.narrativeBuilt = true → p.exchangeId = some target →
    userMessages (moved.take p.watermark) = userMessages (s.narrative.take p.watermark)
  cut : ∀ a snapshot, s.assembling = some a → a.snapshot = some snapshot → a.own = some target →
    userMessages (moved.take snapshot.len) = userMessages (s.narrative.take snapshot.len)

theorem filed_of_not_misfiles {s : Dialogue} {moved : List Entry}
    (hFiled : misfiles s collection target moved = false) : Filed s collection target moved := by
  simp only [misfiles, Bool.or_eq_false_iff, List.any_eq_false] at hFiled
  obtain ⟨hProcesses, hAssembling⟩ := hFiled
  refine ⟨fun p hMem hBuilt hExchange => ?_, fun p hMem hBuilt hExchange => ?_,
    fun a snapshot hHeld hSnapshot hOwn => ?_⟩
  · have hNot := hProcesses p hMem
    simp only [hBuilt, hExchange, Bool.true_and, decide_true, Bool.or_eq_true] at hNot
    by_contra hChanged
    exact hNot (Or.inl (by simpa using hChanged))
  · have hNot := hProcesses p hMem
    simp only [hBuilt, hExchange, Bool.true_and, decide_true, Bool.or_eq_true] at hNot
    by_contra hChanged
    exact hNot (Or.inr (by simpa using hChanged))
  · simp only [hHeld, hOwn, hSnapshot, Option.any_some, decide_true, Bool.true_and,
      decide_eq_false_iff_not, not_not] at hAssembling
    exact hAssembling

theorem mem_of_userMessages {entries entries' : List Entry} {e : Entry} {x : ExchangeId}
    (hSame : userMessages entries' = userMessages entries) (hMem : e ∈ entries')
    (hCarries : e.message.Carries x) : e ∈ entries := by
  have hUser : e ∈ userMessages entries' := List.mem_filter.mpr ⟨hMem, by simpa using hCarries.1⟩
  rw [hSame] at hUser
  exact (List.mem_filter.mp hUser).1

theorem Pulled.reparentStep {s : Dialogue} (hPulled : Pulled s) (hSound : Sound s)
    {position : Nat}
    (hFiled : Filed s collection target (reparentStep collection target position s).2.narrative) :
    Pulled (reparentStep collection target position s).2 := by
  have hMoved := reparentStep_moved collection target position s
  have hSerials := (hSound.reparentStep collection target position).serials
  refine ⟨fun p hMem hBuilt x hExchange e hEntry hCarries => ?_,
    fun a snapshot x hHeld hSnapshot hOwn e hEntry hCarries => ?_⟩
  · by_cases hTarget : x = target
    · by_cases hBelow : e.serial < s.trimmed + p.watermark
      · have hTake := hSerials.mem_take hEntry hBelow
        have hOld := mem_of_userMessages
          (hFiled.seen p hMem hBuilt (hTarget ▸ hExchange)) hTake hCarries
        exact hPulled.seen p hMem hBuilt x hExchange e (List.mem_of_mem_take hOld) hCarries
      · have hMark := (hSound.process p hMem).mark hBuilt
        left
        omega
    · obtain ⟨old, hOld, hRel⟩ := moved_mem_right hMoved hEntry
      obtain rfl := moved_other hRel hCarries hTarget
      exact hPulled.seen p hMem hBuilt x hExchange e hOld hCarries
  · by_cases hTarget : x = target
    · obtain ⟨-, -, -, hAppended⟩ := hSound.snapshot a snapshot hHeld hSnapshot
      by_cases hBelow : e.serial < s.trimmed + snapshot.len
      · have hTake := hSerials.mem_take hEntry hBelow
        have hOld := mem_of_userMessages
          (hFiled.cut a snapshot hHeld hSnapshot (hTarget ▸ hOwn)) hTake hCarries
        exact hPulled.cut a snapshot x hHeld hSnapshot hOwn e (List.mem_of_mem_take hOld) hCarries
      · left
        omega
    · obtain ⟨old, hOld, hRel⟩ := moved_mem_right hMoved hEntry
      obtain rfl := moved_other hRel hCarries hTarget
      exact hPulled.cut a snapshot x hHeld hSnapshot hOwn e hOld hCarries

end Reparent

/-! ## Whole runs -/

theorem misfiled_reparentStep (collection target : ExchangeId) (position : Nat) (s : Dialogue) :
    (reparentStep collection target position s).2.misfiled =
      (s.misfiled || misfiles s collection target
        (reparentStep collection target position s).2.narrative) := rfl

theorem filed_of_reparentStep {collection target : ExchangeId} {position : Nat} {s : Dialogue}
    (hFiled : (reparentStep collection target position s).2.misfiled = false) :
    Filed s collection target (reparentStep collection target position s).2.narrative := by
  rw [misfiled_reparentStep, Bool.or_eq_false_iff] at hFiled
  exact filed_of_not_misfiles hFiled.2

/-- No step takes back a misfiling. -/
theorem Step.misfiled {cfg : NarrativeConfig} {me : Nat} {s s' : Dialogue}
    (hStep : Step cfg me s s') (hFiled : s'.misfiled = false) : s.misfiled = false := by
  cases hStep with
  | stored hUntouched => exact hUntouched.misfiled ▸ hFiled
  | moved collection target position =>
      rw [misfiled_reparentStep, Bool.or_eq_false_iff] at hFiled
      exact hFiled.1
  | retried id =>
      rcases takeOverflowRetry_eq s id with hEq | hEq <;> rw [hEq] at hFiled <;> exact hFiled
  | terminated id =>
      rcases terminateProcess_eq s id with hEq | ⟨p, _, hEq⟩ <;> rw [hEq] at hFiled <;> exact hFiled
  | finished assembled liveIds hHeld hMe hSnapshot hTail hLen hAppended =>
      rw [finishAssemble_misfiled] at hFiled
      exact hFiled
  | _ => exact hFiled

/-- As long as nothing is misfiled, every step keeps what the pull model says. -/
theorem Pulled.step {cfg : NarrativeConfig} {me : Nat} {s s' : Dialogue} (hPulled : Pulled s)
    (hSound : Sound s) (hStep : Step cfg me s s') (hFiled : s'.misfiled = false) : Pulled s' := by
  cases hStep with
  | stored hUntouched =>
      refine hPulled.of_processes (fun e hMem => hUntouched.narrative ▸ hMem)
        (fun a hHeld => Or.inr (hUntouched.assembling ▸ hHeld)) fun p hMem hBuilt => ?_
      rw [hUntouched.processes] at hMem
      exact ⟨p, hMem, hBuilt, rfl, rfl, rfl⟩
  | appended messages => exact hPulled.appendMessages hSound messages
  | moved collection target position =>
      exact hPulled.reparentStep hSound (filed_of_reparentStep hFiled)
  | wrote id message =>
      refine hPulled.of_processes (fun _ hMem => hMem) (fun _ hHeld => Or.inr hHeld)
        fun p' hMem hBuilt => ?_
      obtain ⟨p, hOld, rfl | rfl⟩ := mem_updateProcess hMem
      · exact ⟨p', hOld, hBuilt, rfl, rfl, rfl⟩
      · refine ⟨p, hOld, hBuilt, rfl, rfl, ?_⟩
        -- A run writes behind the transcript it was built from.
        exact List.take_append_of_le_length (hSound.process p hOld).synced
  | retried id =>
      rcases takeOverflowRetry_eq s id with hEq | hEq
      · rw [hEq]
        exact hPulled
      · rw [hEq]
        refine hPulled.of_processes (fun _ hMem => hMem) (fun _ hHeld => Or.inr hHeld)
          fun p' hMem hBuilt => ?_
        obtain ⟨p, hOld, rfl | rfl⟩ := mem_updateProcess hMem
        · exact ⟨p', hOld, hBuilt, rfl, rfl, rfl⟩
        · exact ⟨p, hOld, hBuilt, rfl, rfl, rfl⟩
  | launched prompt own =>
      refine hPulled.of_processes (fun _ hMem => hMem) (fun _ hHeld => Or.inr hHeld)
        fun p' hMem hBuilt => ?_
      rcases List.mem_append.mp hMem with hOld | hNew
      · exact ⟨p', hOld, hBuilt, rfl, rfl, rfl⟩
      · rw [List.mem_singleton.mp hNew] at hBuilt
        simp at hBuilt
  | terminated id =>
      rcases terminateProcess_eq s id with hEq | ⟨p, _, hEq⟩
      · rw [hEq]
        exact hPulled
      · rw [hEq]
        refine hPulled.of_processes (fun _ hMem => hMem) (fun _ hHeld => Or.inr hHeld)
          fun p' hMem hBuilt => ⟨p', (List.mem_filter.mp hMem).1, hBuilt, rfl, rfl, rfl⟩
  | acquired purpose own hFree hFits =>
      refine hPulled.of_processes (fun _ hMem => hMem) (fun a hHeld => Or.inl ?_)
        fun p' hMem hBuilt => ⟨p', hMem, hBuilt, rfl, rfl, rfl⟩
      obtain rfl := Option.some.inj hHeld
      rfl
  | snapped count hHeld hMe hNew => exact hPulled.takeSnapshot hSound count
  | finished assembled liveIds hHeld hMe hSnapshot hTail hLen hAppended =>
      exact hPulled.finishAssemble hSound hHeld hSnapshot hTail hLen hAppended
  | released hHeld hMe =>
      refine hPulled.of_processes (fun _ hMem => hMem) (fun a hNone => ?_)
        fun p' hMem hBuilt => ⟨p', hMem, hBuilt, rfl, rfl, rfl⟩
      simp at hNone

/-- A run that has ended is not among the processes, and its id is not used
again. -/
def Past (s : Dialogue) : Prop :=
  ∀ ended ∈ s.inbox, ended.process.id < s.nextProcess ∧
    ∀ p ∈ s.processes, p.id ≠ ended.process.id

/-- The inbox grows by the run that ends. -/
theorem Step.inbox {cfg : NarrativeConfig} {me : Nat} {s s' : Dialogue}
    (hStep : Step cfg me s s') :
    s'.inbox = s.inbox ∨ ∃ id p, s.process? id = some p ∧
      s'.processes = (s.processes.filter fun q => q.id ≠ id) ∧
      s'.inbox = s.inbox ++ [{ process := p, unseen := unseenKind s p, trimmed := s.trimmed }] := by
  cases hStep with
  | stored hUntouched => exact Or.inl hUntouched.inbox
  | retried id =>
      rcases takeOverflowRetry_eq s id with hEq | hEq <;> rw [hEq] <;> exact Or.inl rfl
  | terminated id =>
      rcases terminateProcess_eq s id with hEq | ⟨p, hFound, hEq⟩
      · rw [hEq]
        exact Or.inl rfl
      · rw [hEq]
        exact Or.inr ⟨id, p, hFound, rfl, rfl⟩
  | finished assembled liveIds hHeld hMe hSnapshot hTail hLen hAppended =>
      exact Or.inl (finishAssemble_inbox cfg _ _ assembled liveIds s)
  | _ => exact Or.inl rfl

theorem Past.step {cfg : NarrativeConfig} {me : Nat} {s s' : Dialogue} (hPast : Past s)
    (hSound : Sound s) (hStep : Step cfg me s s') : Past s' := by
  have hLineage := hStep.lineage
  have hOld : ∀ id, id < s.nextProcess → (∀ p ∈ s.processes, p.id ≠ id) →
      ∀ p' ∈ s'.processes, p'.id ≠ id := by
    intro id hKnown hGone p' hMem hSame
    rcases hLineage.process p' hMem with ⟨p, hBefore, hId, -⟩ | hNew
    · exact hGone p hBefore (hId.symm.trans hSame)
    · exact absurd (hSame ▸ hKnown) (Nat.not_lt.mpr hNew)
  intro ended hEnded
  rcases hStep.inbox with hSame | ⟨id, p, hFound, hProcesses, hInbox⟩
  · rw [hSame] at hEnded
    obtain ⟨hKnown, hGone⟩ := hPast ended hEnded
    exact ⟨Nat.lt_of_lt_of_le hKnown hLineage.nextProcess, hOld _ hKnown hGone⟩
  · rw [hInbox] at hEnded
    rcases List.mem_append.mp hEnded with hBefore | hNow
    · obtain ⟨hKnown, hGone⟩ := hPast ended hBefore
      exact ⟨Nat.lt_of_lt_of_le hKnown hLineage.nextProcess, hOld _ hKnown hGone⟩
    · obtain ⟨hMem, hId⟩ := process?_spec hFound
      rw [List.mem_singleton.mp hNow]
      refine ⟨Nat.lt_of_lt_of_le (hSound.ids p.id (List.mem_map_of_mem hMem))
        hLineage.nextProcess, fun q hLeft => ?_⟩
      rw [hProcesses] at hLeft
      rw [hId]
      simpa using (List.mem_filter.mp hLeft).2

/-! ## One message over time -/

/-- The message with this serial is in the narrative under this exchange, or it
was trimmed. -/
def Held (serial : Nat) (x : ExchangeId) (s : Dialogue) : Prop :=
  serial < s.trimmed ∨ ∃ e ∈ s.narrative, e.serial = serial ∧ e.message.Carries x

/-- A message of a live run's exchange keeps its exchange: only a re-parenting
that misfiles could change it. -/
theorem Held.step {cfg : NarrativeConfig} {me serial : Nat} {x : ExchangeId} {s s' : Dialogue}
    (hHeld : Held serial x s) (hSound : Sound s) (hStep : Step cfg me s s')
    (hFiled : s'.misfiled = false)
    (hLive : ∃ p ∈ s.processes, p.narrativeBuilt = true ∧ p.exchangeId = some x) :
    Held serial x s' := by
  cases hStep with
  | stored hUntouched =>
      unfold Held
      rw [hUntouched.trimmed, hUntouched.narrative]
      exact hHeld
  | appended messages =>
      rcases hHeld with hTrimmed | ⟨e, hMem, hRest⟩
      · exact Or.inl hTrimmed
      · exact Or.inr ⟨e, List.mem_append_left _ hMem, hRest⟩
  | moved collection target position =>
      rcases hHeld with hTrimmed | ⟨e, hMem, hSerial, hCarries⟩
      · exact Or.inl hTrimmed
      · obtain ⟨e', hNew, hMoved⟩ :=
          moved_mem_left (reparentStep_moved collection target position s) hMem
        -- Only a re-parenting of the exchange itself could move the message, and it would misfile
        -- it.
        by_cases hSource : x = collection
        · obtain ⟨p, hProcess, hBuilt, hExchange⟩ := hLive
          have hSame := (filed_of_reparentStep hFiled).source p hProcess hBuilt (hSource ▸ hExchange)
          exact Or.inr ⟨e, mem_of_userMessages hSame.symm hMem hCarries, hSerial, hCarries⟩
        · cases hMoved with
          | kept => exact Or.inr ⟨e, hNew, hSerial, hCarries⟩
          | moved hFrom => exact absurd (Option.some.inj (hCarries.2.symm.trans hFrom)) hSource
  | retried id =>
      rcases takeOverflowRetry_eq s id with hEq | hEq <;> rw [hEq] <;> exact hHeld
  | terminated id =>
      rcases terminateProcess_eq s id with hEq | ⟨p, _, hEq⟩ <;> rw [hEq] <;> exact hHeld
  | finished assembled liveIds hLock hMe hSnapshot hTail hLen hAppended =>
      unfold Held
      rw [finishAssemble_trimmed, finishAssemble_narrative]
      rcases hHeld with hTrimmed | ⟨e, hMem, hSerial, hCarries⟩
      · left
        omega
      -- The message is trimmed by the assemble or stays behind its cut.
      · by_cases hCut : serial < s.trimmed +
            min (assembled.snapshotLen - assembled.tailCount) s.narrative.length
        · exact Or.inl hCut
        · refine Or.inr ⟨e, ?_, hSerial, hCarries⟩
          have hBound := (hSound.serials.bounds hMem).2
          rw [hSound.serials.mem_drop_iff]
          exact ⟨hMem, by omega⟩
  | _ => exact hHeld

/-- A run that saw nothing unseen at its end has nothing of its exchange behind
its watermark. -/
theorem unseenKind_nothing {s : Dialogue} {p : Process} {x : ExchangeId}
    (hBuilt : p.narrativeBuilt = true) (hExchange : p.exchangeId = some x)
    (hNothing : unseenKind s p = .nothing) :
    ∀ e ∈ s.narrative.drop p.watermark, ¬ e.message.Carries x := by
  intro e hMem hCarries
  simp only [unseenKind, hBuilt, hExchange] at hNothing
  have hArrived : e ∈ (s.narrative.drop p.watermark).filter
      fun e => decide (e.message.Carries x) := List.mem_filter.mpr ⟨hMem, by simpa using hCarries⟩
  split at hNothing
  · rename_i hEmpty
    rw [List.isEmpty_iff] at hEmpty
    rw [hEmpty] at hArrived
    simp at hArrived
  · split at hNothing <;> simp at hNothing

/-- What a run owes to one message of its exchange: while it is live it keeps
the message, and when it ends it has shown it. -/
structure Tracked (serial : Nat) (id : ProcessId) (x : ExchangeId) (s : Dialogue) : Prop where
  known : id < s.nextProcess
  live : s.misfiled = false → ∀ p ∈ s.processes, p.id = id →
    p.narrativeBuilt = true ∧ p.exchangeId = some x ∧ Held serial x s
  ended : s.misfiled = false → ∀ ended ∈ s.inbox, ended.process.id = id →
    ended.unseen = .nothing → serial ∈ ownSerials ended.process.synced ∨ serial < ended.trimmed

theorem Tracked.step {cfg : NarrativeConfig} {me serial : Nat} {id : ProcessId} {x : ExchangeId}
    {s s' : Dialogue} (hTracked : Tracked serial id x s) (hSound : Sound s)
    (hPulled : s.misfiled = false → Pulled s) (hStep : Step cfg me s s') :
    Tracked serial id x s' := by
  have hLineage := hStep.lineage
  refine ⟨Nat.lt_of_lt_of_le hTracked.known hLineage.nextProcess, fun hFiled p' hMem hId => ?_,
    fun hFiled ended hEnded hId hNothing => ?_⟩
  · have hFiledOld := hStep.misfiled hFiled
    rcases hLineage.process p' hMem with ⟨p, hOld, hSame, hExchange, hBuilt⟩ | hNew
    · obtain ⟨hOldBuilt, hOldExchange, hHeld⟩ :=
        hTracked.live hFiledOld p hOld (hSame.symm.trans hId)
      exact ⟨hBuilt.trans hOldBuilt, hExchange.trans hOldExchange,
        hHeld.step hSound hStep hFiled ⟨p, hOld, hOldBuilt, hOldExchange⟩⟩
    · exact absurd (hId ▸ hTracked.known) (Nat.not_lt.mpr hNew)
  · have hFiledOld := hStep.misfiled hFiled
    rcases hStep.inbox with hSame | ⟨other, p, hFound, -, hInbox⟩
    · rw [hSame] at hEnded
      exact hTracked.ended hFiledOld ended hEnded hId hNothing
    · rw [hInbox] at hEnded
      rcases List.mem_append.mp hEnded with hBefore | hNow
      · exact hTracked.ended hFiledOld ended hBefore hId hNothing
      · rw [List.mem_singleton.mp hNow] at hId hNothing ⊢
        obtain ⟨hMem, -⟩ := process?_spec hFound
        obtain ⟨hBuilt, hExchange, hHeld⟩ := hTracked.live hFiledOld p hMem hId
        rcases hHeld with hTrimmed | ⟨e, hEntry, rfl, hCarries⟩
        · exact Or.inr hTrimmed
        · rcases (hPulled hFiledOld).seen p hMem hBuilt x hExchange e hEntry hCarries with
            hBehind | hShown
          · -- a message behind the snapshot would have been found unseen
            have hMark := (hSound.process p hMem).mark hBuilt
            have hBound := (hSound.serials.bounds hEntry).1
            have hUnseen : e ∈ s.narrative.drop p.watermark := by
              rw [hSound.serials.mem_drop_iff]
              exact ⟨hEntry, by omega⟩
            exact absurd hCarries (unseenKind_nothing hBuilt hExchange hNothing e hUnseen)
          · exact Or.inl hShown

/-- What holds along every run. -/
structure PullInv (s : Dialogue) : Prop where
  past : Past s
  pulled : s.misfiled = false → Pulled s

theorem promised_step {cfg : NarrativeConfig} {s s' : Dialogue}
    (hPromised : System.Promised (dialogue cfg) (narrativeProtocol cfg) s s') :
    ∃ me, Step cfg me s s' := by
  cases hPromised with
  | idle hEq =>
      subst hEq
      exact ⟨0, .stored (Untouched.refl _)⟩
  | guarantee me hStep => exact ⟨me, hStep⟩
  | env hStep => exact ⟨0, .stored hStep⟩
  | crash hCrash => simp [dialogue] at hCrash

theorem PullInv.promised {cfg : NarrativeConfig} {s s' : Dialogue} (hSound : Sound s)
    (hInv : PullInv s)
    (hPromised : System.Promised (dialogue cfg) (narrativeProtocol cfg) s s') : PullInv s' := by
  obtain ⟨me, hStep⟩ := promised_step hPromised
  refine ⟨hInv.past.step hSound hStep, fun hFiled => ?_⟩
  exact (hInv.pulled (hStep.misfiled hFiled)).step hSound hStep hFiled

theorem PullInv.fresh {s : Dialogue} (hFresh : s.Fresh) : PullInv s := by
  refine ⟨fun ended hMem => ?_, fun _ => ⟨fun p hMem => ?_, fun a snapshot x hHeld => ?_⟩⟩
  · simp [hFresh.inbox] at hMem
  · simp [hFresh.processes] at hMem
  · simp [hFresh.assembling] at hHeld

/-- Along every run in which no re-parenting misfiles: a user message that
carried the exchange of a live narrative-built run is, when the run ends with
nothing unseen, shown as the run's own by the branch of its last sync, or a
trim has taken it out of the narrative. -/
theorem pull_loses_nothing {cfg : NarrativeConfig} {s : Dialogue} (hFresh : s.Fresh)
    {q r : Pool Dialogue RunError} (hRun : System.Run (dialogue cfg) { st := s } q)
    (hLater : System.Run (dialogue cfg) q r) (hFiled : r.st.misfiled = false)
    {p : Process} (hLive : p ∈ q.st.processes) (hBuilt : p.narrativeBuilt = true)
    {x : ExchangeId} (hExchange : p.exchangeId = some x) {e : Entry} (hEntry : e ∈ q.st.narrative)
    (hCarries : e.message.Carries x) {ended : Terminated} (hEnded : ended ∈ r.st.inbox)
    (hSame : ended.process.id = p.id) (hNothing : ended.unseen = .nothing) :
    e.serial ∈ ownSerials ended.process.synced ∨ e.serial < ended.trimmed := by
  have hSafe := dialogue_sound hFresh hRun
  have hSound : Sound q.st := hSafe.1
  have hInv : PullInv q.st := hRun.preserves dialogue_follows
    (fun _ _ hSound' hInv' hPromised => hInv'.promised hSound' hPromised)
    (.initial (Sound.fresh hFresh)) (PullInv.fresh hFresh)
  have hTracked : Tracked e.serial p.id x q.st := by
    refine ⟨hSound.ids p.id (List.mem_map_of_mem hLive), fun _ p' hMem hId => ?_,
      fun _ other hMem hId => ?_⟩
    · have hEq : p' = p := List.inj_on_of_nodup_map hSound.distinct hMem hLive hId
      subst hEq
      exact ⟨hBuilt, hExchange, Or.inr ⟨e, hEntry, rfl, hCarries⟩⟩
    · exact absurd hId.symm ((hInv.past other hMem).2 p hLive)
  have hBoth := hLater.preserves dialogue_follows
    (A := fun t => PullInv t ∧ Tracked e.serial p.id x t)
    (fun t t' hSound' hA hPromised => by
      obtain ⟨me, hStep⟩ := promised_step hPromised
      exact ⟨hA.1.promised hSound' hPromised, hA.2.step hSound' hA.1.pulled hStep⟩)
    hSafe ⟨hInv, hTracked⟩
  exact hBoth.2.ended hFiled ended hEnded hSame hNothing

/-- A run starts on exchange 7 and a clarification comes in. -/
def clarified : List (System.Move (dialogue {})) :=
  [.start (.startAnswer (some 7))] ++ resumes 0 6 ++
    [.start (.submit { role := .user, content := "more" } (some 7))] ++ resumes 1 3

/-- The run syncs once and ends. -/
def syncedThenEnded : List (System.Move (dialogue {})) :=
  [.start (.pump 0 [.iterationStarted] .silent)] ++ resumes 2 10

/-- The clarification is in the branch of the run's last sync. -/
theorem pull_loses_nothing_clarified :
    ∃ q r p e ended, System.Run (dialogue {}) { st := compactedDialogue } q ∧
      System.Run (dialogue {}) q r ∧ p ∈ q.st.processes ∧ p.exchangeId = some 7 ∧
      e ∈ q.st.narrative ∧ e.serial = 3 ∧ e.message.Carries 7 ∧ ended ∈ r.st.inbox ∧
      ended.process.id = p.id ∧ ended.unseen = .nothing ∧
      (e.serial ∈ ownSerials ended.process.synced ∨ e.serial < ended.trimmed) := by
  have hMoves : ((System.moves clarified { st := compactedDialogue }).bind fun q =>
      (System.moves syncedThenEnded q).map fun r =>
        (r.st.misfiled,
          q.st.processes.any fun p => p.narrativeBuilt && p.exchangeId = some 7 &&
            q.st.narrative.any fun e => e.serial = 3 && decide (e.message.Carries 7) &&
              r.st.inbox.any fun ended =>
                ended.process.id = p.id && ended.unseen = .nothing)) =
      some (false, true) := by
    decide +kernel
  obtain ⟨q, r, hRun, hLater, hValue⟩ := System.Run.exists_of_moves_twice clarified
    syncedThenEnded hMoves
  obtain ⟨hFiled, hAny⟩ := Prod.mk.inj hValue
  simp only [List.any_eq_true, Bool.and_eq_true, decide_eq_true_eq] at hAny
  obtain ⟨p, hLive, ⟨hBuilt, hExchange⟩, e, hEntry, ⟨hSerial, hCarries⟩, ended, hEnded, hSame,
    hNothing⟩ := hAny
  exact ⟨q, r, p, e, ended, hRun, hLater, hLive, hExchange, hEntry, hSerial, hCarries, hEnded,
    hSame, hNothing, pull_loses_nothing compactedDialogue_fresh hRun hLater hFiled hLive hBuilt
      hExchange hEntry hCarries hEnded hSame hNothing⟩

/-- A run starts on exchange 7, whose question is message 3, and a notice comes
in. -/
def noticed : List (System.Move (dialogue { hotMaxChars := 0 })) :=
  [.start (.startAnswer (some 7))] ++ resumes 0 7 ++
    [.start (.deliverNotice "done" none)] ++ resumes 1 2

/-- A compaction covers the question, the run syncs once more and ends. -/
def compactedThenEnded : List (System.Move (dialogue { hotMaxChars := 0 })) :=
  [.event (.compacted { seqFrom := 1, seqTo := 3 }),
    .start (.pump 0 [.iterationStarted] .silent)] ++ resumes 2 11

/-- The question itself is not in the branch of the run's last sync: the sync
trimmed it, and the run ends with nothing unseen. -/
theorem pull_trims_compacted_question :
    ∃ q r p e ended, compactedDialogue.Fresh ∧
      System.Run (dialogue { hotMaxChars := 0 }) { st := compactedDialogue } q ∧
      System.Run (dialogue { hotMaxChars := 0 }) q r ∧ p ∈ q.st.processes ∧
      p.narrativeBuilt = true ∧ p.exchangeId = some 7 ∧ e ∈ q.st.narrative ∧
      e.message.Carries 7 ∧ ended ∈ r.st.inbox ∧ ended.process.id = p.id ∧
      ended.unseen = .nothing ∧ e.serial ∉ ownSerials ended.process.synced := by
  have hMoves : ((System.moves noticed { st := compactedDialogue }).bind fun q =>
      (System.moves compactedThenEnded q).map fun r =>
        q.st.processes.any fun p => p.narrativeBuilt && p.exchangeId = some 7 &&
          q.st.narrative.any fun e => decide (e.message.Carries 7) &&
            r.st.inbox.any fun ended =>
              ended.process.id = p.id && ended.unseen = .nothing &&
                decide (e.serial ∉ ownSerials ended.process.synced)) =
      some true := by
    decide +kernel
  obtain ⟨q, r, hRun, hLater, hAny⟩ := System.Run.exists_of_moves_twice noticed
    compactedThenEnded hMoves
  simp only [List.any_eq_true, Bool.and_eq_true, decide_eq_true_eq] at hAny
  obtain ⟨p, hLive, ⟨hBuilt, hExchange⟩, e, hEntry, hCarries, ended, hEnded, ⟨hSame, hNothing⟩,
    hMissing⟩ := hAny
  exact ⟨q, r, p, e, ended, compactedDialogue_fresh, hRun, hLater, hLive, hBuilt, hExchange,
    hEntry, hCarries, hEnded, hSame, hNothing, hMissing⟩

end Dialog
end OctoForge
