import Mathlib.Data.List.Forall2
import OctoForge.Dialog.Narrative
import OctoForge.Sequence.Numbered
import OctoForge.Sequence.Keyed

/-!
# What one step does to the narrative

`Step` lists everything a coroutine of the runner can do to the shared state in
one atomic step, and what it knows when it does it.  `Sound` is the invariant
that every step keeps: the messages carry consecutive serials, every watermark
is the position of its run's snapshot among the messages still held, and a
snapshot under way describes a tail of the list.

The lock is what makes snapshots reliable: only its holder trims, so the
positions of a snapshot stay what they were until the holder is done.
-/

namespace OctoForge
namespace Dialog

open Coop
open Sequence (Numbered)

/-- Nothing that the narrative and its readers depend on has changed. -/
structure Untouched (s s' : Dialogue) : Prop where
  narrative : s'.narrative = s.narrative
  processes : s'.processes = s.processes
  nextProcess : s'.nextProcess = s.nextProcess
  assembling : s'.assembling = s.assembling
  inbox : s'.inbox = s.inbox
  trimmed : s'.trimmed = s.trimmed
  misfiled : s'.misfiled = s.misfiled

/-- An assemble for a sync renders for the exchange of its own run. -/
def Purpose.Fits (s : Dialogue) (own : Option ExchangeId) : Purpose → Prop
  | .sync id =>
      id < s.nextProcess ∧
        ∀ p ∈ s.processes, p.id = id → p.exchangeId = own ∧ p.narrativeBuilt = true
  | .answer | .check => True

/-- One atomic step of the coroutine `me`. -/
inductive Step (cfg : NarrativeConfig) (me : Nat) (s : Dialogue) : Dialogue → Prop
  | stored {s' : Dialogue} (hUntouched : Untouched s s') : Step cfg me s s'
  | appended (messages : List (ChatMessage × Nat)) : Step cfg me s (appendMessages messages s)
  | moved (collection target : ExchangeId) (position : Nat) :
      Step cfg me s (reparentStep collection target position s).2
  | wrote (id : ProcessId) (message : ChatMessage) : Step cfg me s (writePrivate id message s)
  | retried (id : ProcessId) : Step cfg me s (takeOverflowRetry id s).2
  | launched (prompt : String) (own : Option ExchangeId) : Step cfg me s (startProcess prompt own s)
  | terminated (id : ProcessId) : Step cfg me s (terminateProcess id s)
  | acquired (purpose : Purpose) (own : Option ExchangeId) (hFree : s.assembling = none)
      (hFits : purpose.Fits s own) :
      Step cfg me s { s with assembling := some { holder := me, purpose, own } }
  | snapped (count : Nat) {a : Assembling} (hHeld : s.assembling = some a) (hMe : a.holder = me)
      (hNew : a.snapshot = none) : Step cfg me s (takeSnapshot count s).2
  | finished {a : Assembling} {snapshot : Snapshot} (assembled : Assembled)
      (liveIds : List ExchangeId) (hHeld : s.assembling = some a) (hMe : a.holder = me)
      (hSnapshot : a.snapshot = some snapshot) (hTail : assembled.tail = snapshot.tail)
      (hLen : assembled.snapshotLen = snapshot.len)
      (hAppended : assembled.appended = snapshot.appended) :
      Step cfg me s (finishAssemble cfg a.purpose a.own assembled liveIds s).2
  | released {a : Assembling} (hHeld : s.assembling = some a) (hMe : a.holder = me) :
      Step cfg me s { s with assembling := none }

/-! ## What the steps leave alone -/

section Frames

variable (s : Dialogue)

theorem Untouched.refl : Untouched s s := ⟨rfl, rfl, rfl, rfl, rfl, rfl, rfl⟩

theorem untouched_insertRows (messages : List ChatMessage) (promptTokens : Option Nat) :
    Untouched s (insertRows messages promptTokens s).2 := ⟨rfl, rfl, rfl, rfl, rfl, rfl, rfl⟩

theorem untouched_setExchange (id : MessageId) (x : ExchangeId) :
    Untouched s (setExchange id x s) := ⟨rfl, rfl, rfl, rfl, rfl, rfl, rfl⟩

theorem terminateProcess_eq (id : ProcessId) :
    terminateProcess id s = s ∨ ∃ p, s.process? id = some p ∧ terminateProcess id s =
      { s with
        processes := s.processes.filter fun q => q.id ≠ id
        inbox := s.inbox ++ [{ process := p, unseen := unseenKind s p, trimmed := s.trimmed }] } := by
  unfold terminateProcess
  split
  · exact Or.inl rfl
  · rename_i p hFound
    exact Or.inr ⟨p, hFound, rfl⟩

theorem takeOverflowRetry_eq (id : ProcessId) :
    (takeOverflowRetry id s).2 = s ∨ (takeOverflowRetry id s).2 =
      updateProcess id (fun p => { p with overflowRetried := true }) s := by
  unfold takeOverflowRetry
  split
  · exact Or.inl rfl
  · split
    · exact Or.inl rfl
    · exact Or.inr rfl

theorem readOnly_select {α : Type} (f : Dialogue → α) : Co.ReadOnly (select f) := by
  constructor
  · intro s
    dsimp only
    split <;> rfl
  · intro s
    by_cases hDown : s.storeDown = true
    · simp only [hDown, if_true]
      trivial
    · simp only [hDown]
      trivial

theorem process?_spec {s : Dialogue} {id : ProcessId} {p : Process}
    (hFound : s.process? id = some p) : p ∈ s.processes ∧ p.id = id :=
  Sequence.of_find?_key hFound

end Frames

/-! ## Moving messages between exchanges -/

/-- What a re-parenting does to one message. -/
inductive Moved (collection target : ExchangeId) (e : Entry) : Entry → Prop
  | kept : Moved collection target e e
  | moved (hFrom : e.message.exchangeId = some collection) :
      Moved collection target e { e with message := { e.message with exchangeId := some target } }

theorem moveUntilRow_moved (collection target : ExchangeId) (entries : List Entry) :
    List.Forall₂ (Moved collection target) entries (moveUntilRow collection target entries).1 := by
  have hRefl : ∀ l : List Entry, List.Forall₂ (Moved collection target) l l :=
    fun l => List.forall₂_same.mpr fun e _ => .kept
  induction entries with
  | nil => exact .nil
  | cons e rest ih =>
      unfold moveUntilRow
      split
      · exact .cons .kept ih
      · rename_i hFrom
        have hMoved : Moved collection target e _ := .moved (not_not.mp hFrom)
        split
        · exact .cons hMoved (hRefl rest)
        · exact .cons hMoved ih

theorem reparentStep_moved (collection target : ExchangeId) (position : Nat) (s : Dialogue) :
    List.Forall₂ (Moved collection target) s.narrative
      (reparentStep collection target position s).2.narrative := by
  have hRefl : List.Forall₂ (Moved collection target) (s.narrative.take position)
      (s.narrative.take position) := List.forall₂_same.mpr fun _ _ => .kept
  have hRest := moveUntilRow_moved collection target (s.narrative.drop position)
  have hBoth : List.Forall₂ (Moved collection target)
      (s.narrative.take position ++ s.narrative.drop position) _ := List.rel_append hRefl hRest
  rw [List.take_append_drop] at hBoth
  exact hBoth

theorem Moved.serial {collection target : ExchangeId} {e e' : Entry}
    (hMoved : Moved collection target e e') : e'.serial = e.serial := by
  cases hMoved <;> rfl

theorem moved_serials {collection target : ExchangeId} {entries entries' : List Entry}
    (hMoved : List.Forall₂ (Moved collection target) entries entries') :
    entries'.map Entry.serial = entries.map Entry.serial := by
  induction hMoved with
  | nil => rfl
  | cons hHead _ ih => rw [List.map_cons, List.map_cons, hHead.serial, ih]

/-! ## The end of an assemble -/

/-- The processes after an assemble: every index is shifted by the trim, and
the run that asked for the assemble starts or is brought up to date. -/
theorem finishAssemble_process {cfg : NarrativeConfig} {purpose : Purpose}
    {own : Option ExchangeId} {a : Assembled} {liveIds : List ExchangeId} {s : Dialogue}
    {p' : Process} (hMem : p' ∈ (finishAssemble cfg purpose own a liveIds s).2.processes) :
    (∃ p ∈ s.processes, purpose ≠ .sync p.id ∧
      p' = { p with watermark := p.watermark - (a.snapshotLen - a.tailCount) }) ∨
    (∃ p ∈ s.processes, purpose = .sync p.id ∧
      p' = synchronised cfg (withDateEnvelope s.now (renderBranch a.messages own liveIds))
        a.tailCount a.appended p) ∨
    (purpose = .answer ∧
      p' = answering cfg own (withDateEnvelope s.now (renderBranch a.messages own liveIds))
        a.tailCount a.appended s.nextProcess) := by
  cases purpose with
  | answer =>
      simp only [finishAssemble, land, trimNarrative, List.mem_append, List.mem_map,
        List.mem_singleton] at hMem
      rcases hMem with ⟨p, hOld, rfl⟩ | rfl
      · exact Or.inl ⟨p, hOld, by simp, rfl⟩
      · exact Or.inr (Or.inr ⟨rfl, rfl⟩)
  -- Only the run that asked is synchronised.
  | sync id =>
      simp only [finishAssemble, land, trimNarrative, updateProcess, List.map_map,
        List.mem_map, Function.comp_apply] at hMem
      obtain ⟨p, hOld, rfl⟩ := hMem
      by_cases hId : p.id = id
      · refine Or.inr (Or.inl ⟨p, hOld, by rw [hId], ?_⟩)
        simp [hId, synchronised]
      · refine Or.inl ⟨p, hOld, ?_, by simp [hId]⟩
        intro hSync
        exact hId (Purpose.sync.inj hSync).symm
  | check =>
      simp only [finishAssemble, land, trimNarrative, List.mem_map] at hMem
      obtain ⟨p, hOld, rfl⟩ := hMem
      exact Or.inl ⟨p, hOld, by simp, rfl⟩

section FinishFrames

variable (cfg : NarrativeConfig) (purpose : Purpose) (own : Option ExchangeId) (a : Assembled)
  (liveIds : List ExchangeId) (s : Dialogue)

@[simp] theorem finishAssemble_narrative :
    (finishAssemble cfg purpose own a liveIds s).2.narrative =
      s.narrative.drop (a.snapshotLen - a.tailCount) := by
  cases purpose <;> rfl

@[simp] theorem finishAssemble_trimmed :
    (finishAssemble cfg purpose own a liveIds s).2.trimmed =
      s.trimmed + min (a.snapshotLen - a.tailCount) s.narrative.length := by
  cases purpose <;> rfl

@[simp] theorem finishAssemble_assembling :
    (finishAssemble cfg purpose own a liveIds s).2.assembling = none := by
  cases purpose <;> rfl

@[simp] theorem finishAssemble_inbox :
    (finishAssemble cfg purpose own a liveIds s).2.inbox = s.inbox := by
  cases purpose <;> rfl

@[simp] theorem finishAssemble_misfiled :
    (finishAssemble cfg purpose own a liveIds s).2.misfiled = s.misfiled := by
  cases purpose <;> rfl

theorem finishAssemble_ids :
    ((finishAssemble cfg purpose own a liveIds s).2.processes.map (·.id) =
        s.processes.map (·.id) ∧
      (finishAssemble cfg purpose own a liveIds s).2.nextProcess = s.nextProcess) ∨
    ((finishAssemble cfg purpose own a liveIds s).2.processes.map (·.id) =
        s.processes.map (·.id) ++ [s.nextProcess] ∧
      (finishAssemble cfg purpose own a liveIds s).2.nextProcess = s.nextProcess + 1) := by
  cases purpose with
  | answer => exact Or.inr ⟨by simp [finishAssemble, land, trimNarrative, Function.comp_def, answering], rfl⟩
  | sync id =>
      refine Or.inl ⟨?_, rfl⟩
      simp only [finishAssemble, land, trimNarrative, updateProcess, List.map_map]
      apply List.map_congr_left
      intro p _
      simp only [Function.comp_apply]
      split <;> rfl
  | check => exact Or.inl ⟨by simp [finishAssemble, land, trimNarrative, Function.comp_def], rfl⟩

end FinishFrames

/-! ## The processes of a run over time -/

/-- Every process is one that was there before or a new one, and what it runs
for never changes. -/
structure Lineage (s s' : Dialogue) : Prop where
  nextProcess : s.nextProcess ≤ s'.nextProcess
  process : ∀ p' ∈ s'.processes,
    (∃ p ∈ s.processes, p'.id = p.id ∧ p'.exchangeId = p.exchangeId ∧
      p'.narrativeBuilt = p.narrativeBuilt) ∨ s.nextProcess ≤ p'.id

theorem mem_updateProcess {id : ProcessId} {f : Process → Process} {s : Dialogue} {p' : Process}
    (hMem : p' ∈ (updateProcess id f s).processes) :
    ∃ p ∈ s.processes, p' = p ∨ p' = f p := by
  simp only [updateProcess, List.mem_map] at hMem
  obtain ⟨p, hOld, rfl⟩ := hMem
  refine ⟨p, hOld, ?_⟩
  split
  · exact Or.inr rfl
  · exact Or.inl rfl

theorem Lineage.of_processes {s s' : Dialogue} (hNext : s'.nextProcess = s.nextProcess)
    (hSub : ∀ p ∈ s'.processes, p ∈ s.processes) : Lineage s s' where
  nextProcess := Nat.le_of_eq hNext.symm
  process p' hMem := Or.inl ⟨p', hSub p' hMem, rfl, rfl, rfl⟩

theorem Step.lineage {cfg : NarrativeConfig} {me : Nat} {s s' : Dialogue}
    (hStep : Step cfg me s s') : Lineage s s' := by
  cases hStep with
  | stored hUntouched =>
      exact .of_processes hUntouched.nextProcess fun p hMem => hUntouched.processes ▸ hMem
  | appended messages => exact .of_processes rfl fun _ hMem => hMem
  | moved collection target position => exact .of_processes rfl fun _ hMem => hMem
  -- A branch is written in place: the process keeps its number and its exchange.
  | wrote id message =>
      refine ⟨Nat.le_refl _, fun p' hMem => Or.inl ?_⟩
      obtain ⟨p, hOld, rfl | rfl⟩ := mem_updateProcess hMem
      · exact ⟨p', hOld, rfl, rfl, rfl⟩
      · exact ⟨p, hOld, rfl, rfl, rfl⟩
  | retried id =>
      rcases takeOverflowRetry_eq s id with hEq | hEq <;> rw [hEq]
      · exact .of_processes rfl fun _ hMem => hMem
      · refine ⟨Nat.le_refl _, fun p' hMem => Or.inl ?_⟩
        obtain ⟨p, hOld, rfl | rfl⟩ := mem_updateProcess hMem
        · exact ⟨p', hOld, rfl, rfl, rfl⟩
        · exact ⟨p, hOld, rfl, rfl, rfl⟩
  | launched prompt own =>
      refine ⟨Nat.le_succ _, fun p' hMem => ?_⟩
      rcases List.mem_append.mp hMem with hOld | hNew
      · exact Or.inl ⟨p', hOld, rfl, rfl, rfl⟩
      · rw [List.mem_singleton.mp hNew]
        exact Or.inr (Nat.le_refl _)
  | terminated id =>
      rcases terminateProcess_eq s id with hEq | ⟨p, _, hEq⟩ <;> rw [hEq]
      · exact .of_processes rfl fun _ hMem => hMem
      · exact .of_processes rfl fun _ hMem => (List.mem_filter.mp hMem).1
  | acquired purpose own hFree hFits => exact .of_processes rfl fun _ hMem => hMem
  | snapped count hHeld hMe hNew => exact .of_processes rfl fun _ hMem => hMem
  | finished assembled liveIds hHeld hMe hSnapshot hTail hLen hAppended =>
      refine ⟨?_, fun p' hMem => ?_⟩
      · rcases finishAssemble_ids cfg _ _ assembled liveIds s with hIds | hIds
        · exact Nat.le_of_eq hIds.2.symm
        · rw [hIds.2]
          exact Nat.le_succ _
      · -- The one process that may be new has the number that came next.
        rcases finishAssemble_process hMem with ⟨p, hOld, _, rfl⟩ | ⟨p, hOld, _, rfl⟩ | ⟨_, rfl⟩
        · exact Or.inl ⟨p, hOld, rfl, rfl, rfl⟩
        · exact Or.inl ⟨p, hOld, rfl, rfl, rfl⟩
        · exact Or.inr (Nat.le_refl _)
  | released hHeld hMe => exact .of_processes rfl fun _ hMem => hMem

theorem Purpose.Fits.lineage {s s' : Dialogue} {purpose : Purpose} {own : Option ExchangeId}
    (hFits : purpose.Fits s own) (hLineage : Lineage s s') : purpose.Fits s' own := by
  cases purpose with
  | answer => trivial
  | check => trivial
  | sync id =>
      refine ⟨Nat.lt_of_lt_of_le hFits.1 hLineage.nextProcess, fun p' hMem hId => ?_⟩
      rcases hLineage.process p' hMem with ⟨p, hOld, hSame, hExchange, hBuilt⟩ | hNew
      · rw [hExchange, hBuilt]
        exact hFits.2 p hOld (hSame ▸ hId)
      · exact absurd (hId ▸ hFits.1) (Nat.not_lt.mpr hNew)

/-! ## The invariant -/

/-- A narrative-built run's watermark is where its snapshot lies in what is
left of the narrative, or the start if that was trimmed. -/
structure Process.Sound (trimmed length : Nat) (p : Process) : Prop where
  synced : p.syncedLen ≤ p.branch.length
  seen : p.narrativeBuilt = true → p.snapshot ≤ trimmed + length
  mark : p.narrativeBuilt = true → trimmed + p.watermark = max trimmed p.snapshot

/-- The tail of a snapshot under way ends where the snapshot was taken. -/
structure Snapshot.Sound (trimmed length : Nat) (snapshot : Snapshot) : Prop where
  len : snapshot.len ≤ length
  tail : snapshot.tail.length ≤ snapshot.len
  serials : Numbered Entry.serial (trimmed + snapshot.len - snapshot.tail.length) snapshot.tail
  appended : snapshot.appended = trimmed + snapshot.len

structure Sound (s : Dialogue) : Prop where
  serials : Numbered Entry.serial s.trimmed s.narrative
  process : ∀ p ∈ s.processes, p.Sound s.trimmed s.narrative.length
  ids : ∀ id ∈ s.processes.map (·.id), id < s.nextProcess
  distinct : (s.processes.map (·.id)).Nodup
  fits : ∀ a, s.assembling = some a → a.purpose.Fits s a.own
  snapshot : ∀ a snapshot, s.assembling = some a → a.snapshot = some snapshot →
    snapshot.Sound s.trimmed s.narrative.length

/-- What a step has to show when it leaves the narrative and the lock alone. -/
theorem Sound.of_processes {s s' : Dialogue} (hSound : Sound s)
    (hNarrative : s'.narrative = s.narrative) (hTrimmed : s'.trimmed = s.trimmed)
    (hAssembling : s'.assembling = s.assembling) (hLineage : Lineage s s')
    (hProcess : ∀ p ∈ s'.processes, p.Sound s.trimmed s.narrative.length)
    (hIds : ∀ id ∈ s'.processes.map (·.id), id < s'.nextProcess)
    (hDistinct : (s'.processes.map (·.id)).Nodup) : Sound s' where
  serials := by
    rw [hNarrative, hTrimmed]
    exact hSound.serials
  process p hMem := by
    rw [hNarrative, hTrimmed]
    exact hProcess p hMem
  ids := hIds
  distinct := hDistinct
  fits a hHeld := (hSound.fits a (hAssembling ▸ hHeld)).lineage hLineage
  snapshot a snapshot hHeld hSnapshot := by
    rw [hNarrative, hTrimmed]
    exact hSound.snapshot a snapshot (hAssembling ▸ hHeld) hSnapshot

theorem updateProcess_ids {id : ProcessId} {f : Process → Process} (hId : ∀ p, (f p).id = p.id)
    (s : Dialogue) : (updateProcess id f s).processes.map (·.id) = s.processes.map (·.id) := by
  simp only [updateProcess, List.map_map]
  apply List.map_congr_left
  intro p _
  simp only [Function.comp_apply]
  split
  · exact hId p
  · rfl

theorem Sound.updateProcess {s : Dialogue} (hSound : Sound s) {id : ProcessId}
    {f : Process → Process} (hId : ∀ p, (f p).id = p.id)
    (hLineage : Lineage s (updateProcess id f s))
    (hProcess : ∀ p ∈ s.processes, p.Sound s.trimmed s.narrative.length →
      (f p).Sound s.trimmed s.narrative.length) : Sound (updateProcess id f s) := by
  refine hSound.of_processes rfl rfl rfl hLineage (fun p' hMem => ?_) ?_ ?_
  · obtain ⟨p, hOld, rfl | rfl⟩ := mem_updateProcess hMem
    · exact hSound.process p' hOld
    · exact hProcess p hOld (hSound.process p hOld)
  · rw [updateProcess_ids hId]
    exact hSound.ids
  · rw [updateProcess_ids hId]
    exact hSound.distinct

theorem nodup_append_next {ids : List ProcessId} {next : ProcessId} (hDistinct : ids.Nodup)
    (hIds : ∀ id ∈ ids, id < next) :
    (∀ id ∈ ids ++ [next], id < next + 1) ∧ (ids ++ [next]).Nodup := by
  constructor
  · intro id hMem
    rcases List.mem_append.mp hMem with hOld | hNew
    · exact Nat.lt_succ_of_lt (hIds id hOld)
    · rw [List.mem_singleton.mp hNew]
      exact Nat.lt_succ_self next
  · refine List.nodup_append.mpr ⟨hDistinct, by simp, ?_⟩
    intro id hOld other hNew hEq
    rw [hEq, List.mem_singleton.mp hNew] at hOld
    exact Nat.lt_irrefl next (hIds next hOld)

theorem Process.Sound.longer {trimmed length length' : Nat} {p : Process}
    (hSound : p.Sound trimmed length) (hLength : length ≤ length') : p.Sound trimmed length' where
  synced := hSound.synced
  seen hBuilt := Nat.le_trans (hSound.seen hBuilt) (Nat.add_le_add_left hLength trimmed)
  mark := hSound.mark

theorem Dialogue.entries_numbered (s : Dialogue) (messages : List (ChatMessage × Nat)) :
    Numbered Entry.serial (s.trimmed + s.narrative.length) (s.entries messages) := by
  unfold Numbered Dialogue.entries Dialogue.appended
  apply List.ext_getElem
  · simp
  · intro index hLeft hRight
    simp

theorem Sound.appendMessages {s : Dialogue} (hSound : Sound s)
    (messages : List (ChatMessage × Nat)) : Sound (appendMessages messages s) where
  serials := hSound.serials.append (s.entries_numbered messages)
  process p hMem := (hSound.process p hMem).longer (by simp [Dialog.appendMessages])
  ids := hSound.ids
  distinct := hSound.distinct
  fits := hSound.fits
  snapshot a snapshot hHeld hSnapshot := by
    obtain ⟨hLen, hTail, hSerials, hAppended⟩ := hSound.snapshot a snapshot hHeld hSnapshot
    refine ⟨?_, hTail, hSerials, hAppended⟩
    simp only [Dialog.appendMessages, List.length_append]
    exact Nat.le_trans hLen (Nat.le_add_right _ _)

theorem Sound.reparentStep {s : Dialogue} (hSound : Sound s) (collection target : ExchangeId)
    (position : Nat) : Sound (reparentStep collection target position s).2 := by
  have hSerials := moved_serials (reparentStep_moved collection target position s)
  have hLength : (Dialog.reparentStep collection target position s).2.narrative.length =
      s.narrative.length := by
    simpa using congrArg List.length hSerials
  refine ⟨hSound.serials.of_map_eq hSerials, fun p hMem => ?_, hSound.ids, hSound.distinct,
    hSound.fits, fun a snapshot hHeld hSnapshot => ?_⟩
  · rw [hLength]
    exact hSound.process p hMem
  · rw [hLength]
    exact hSound.snapshot a snapshot hHeld hSnapshot

theorem Sound.takeSnapshot {s : Dialogue} (hSound : Sound s) (count : Nat) :
    Sound (takeSnapshot count s).2 where
  serials := hSound.serials
  process := hSound.process
  ids := hSound.ids
  distinct := hSound.distinct
  fits a' hHeld' := by
    simp only [Dialog.takeSnapshot, Option.map_eq_some_iff] at hHeld'
    obtain ⟨a, hHeld, rfl⟩ := hHeld'
    exact hSound.fits a hHeld
  snapshot a' snapshot hHeld' hSnapshot := by
    simp only [Dialog.takeSnapshot, Option.map_eq_some_iff] at hHeld'
    obtain ⟨a, hHeld, rfl⟩ := hHeld'
    simp only [Option.some.injEq] at hSnapshot
    subst hSnapshot
    have hTail := hSound.serials.drop (s.narrative.length - min count s.narrative.length)
    refine ⟨Nat.le_refl _, ?_, ?_, rfl⟩
    · show (tailOf s.narrative count).length ≤ s.narrative.length
      simp [tailOf]
    · show Numbered Entry.serial
        (s.trimmed + s.narrative.length - (tailOf s.narrative count).length)
        (tailOf s.narrative count)
      have hStart : s.trimmed + s.narrative.length - (tailOf s.narrative count).length =
          s.trimmed + min (s.narrative.length - min count s.narrative.length)
            s.narrative.length := by
        simp only [tailOf, List.length_drop]
        omega
      rw [hStart]
      exact hTail

/-- The trim shifts every index by what it dropped, and the run that asked for
the assemble gets the position of its snapshot. -/
theorem Sound.finishAssemble {cfg : NarrativeConfig} {s : Dialogue} (hSound : Sound s)
    {a : Assembling} {snapshot : Snapshot} {assembled : Assembled} {liveIds : List ExchangeId}
    (hHeld : s.assembling = some a) (hSnapshot : a.snapshot = some snapshot)
    (hTail : assembled.tail = snapshot.tail) (hLen : assembled.snapshotLen = snapshot.len)
    (hAppended : assembled.appended = snapshot.appended) :
    Sound (finishAssemble cfg a.purpose a.own assembled liveIds s).2 := by
  obtain ⟨hSnapLen, hTailLen, -, hSnapAppended⟩ := hSound.snapshot a snapshot hHeld hSnapshot
  have hCount : assembled.tailCount = snapshot.tail.length := by
    rw [Assembled.tailCount, hTail]
  refine ⟨?_, ?_, ?_, ?_, ?_, ?_⟩
  · simp only [finishAssemble_narrative, finishAssemble_trimmed]
    exact hSound.serials.drop _
  · intro p' hMem
    simp only [finishAssemble_narrative, finishAssemble_trimmed, List.length_drop]
    rw [hLen, hCount]
    -- The marks of the others move with the trim; the run that asked has seen the snapshot.
    rcases finishAssemble_process hMem with ⟨p, hOld, -, rfl⟩ | ⟨p, hOld, -, rfl⟩ | ⟨-, rfl⟩
    · obtain ⟨hSynced, hSeen, hMark⟩ := hSound.process p hOld
      refine ⟨hSynced, fun hBuilt => ?_, fun hBuilt => ?_⟩
      · have := hSeen hBuilt
        show p.snapshot ≤ _
        omega
      · have := hMark hBuilt
        show _ + (p.watermark - (assembled.snapshotLen - assembled.tailCount)) = max _ p.snapshot
        rw [hLen, hCount]
        omega
    · refine ⟨?_, fun _ => ?_, fun _ => ?_⟩
      · simp only [synchronised, List.length_cons, List.length_append]
        omega
      · show assembled.appended ≤ _
        rw [hAppended, hSnapAppended]
        omega
      · show _ + assembled.tailCount = max _ assembled.appended
        rw [hCount, hAppended, hSnapAppended]
        omega
    · refine ⟨?_, fun _ => ?_, fun _ => ?_⟩
      · simp only [answering, List.length_cons]
        omega
      · show assembled.appended ≤ _
        rw [hAppended, hSnapAppended]
        omega
      · show _ + assembled.tailCount = max _ assembled.appended
        rw [hCount, hAppended, hSnapAppended]
        omega
  · rcases finishAssemble_ids cfg a.purpose a.own assembled liveIds s with ⟨hIds, hNext⟩ | ⟨hIds, hNext⟩
    · rw [hIds, hNext]
      exact hSound.ids
    · rw [hIds, hNext]
      exact (nodup_append_next hSound.distinct hSound.ids).1
  · rcases finishAssemble_ids cfg a.purpose a.own assembled liveIds s with ⟨hIds, -⟩ | ⟨hIds, -⟩
    · rw [hIds]
      exact hSound.distinct
    · rw [hIds]
      exact (nodup_append_next hSound.distinct hSound.ids).2
  · intro a' hHeld'
    simp at hHeld'
  · intro a' snapshot' hHeld'
    simp at hHeld'

/-- Every step keeps the invariant. -/
theorem Sound.step {cfg : NarrativeConfig} {me : Nat} {s s' : Dialogue} (hSound : Sound s)
    (hStep : Step cfg me s s') : Sound s' := by
  have hLineage := hStep.lineage
  cases hStep with
  | stored hUntouched =>
      refine hSound.of_processes hUntouched.narrative hUntouched.trimmed hUntouched.assembling
        hLineage ?_ ?_ ?_
      · rw [hUntouched.processes]
        exact hSound.process
      · rw [hUntouched.processes, hUntouched.nextProcess]
        exact hSound.ids
      · rw [hUntouched.processes]
        exact hSound.distinct
  | appended messages => exact hSound.appendMessages messages
  | moved collection target position => exact hSound.reparentStep collection target position
  | wrote id message =>
      refine hSound.updateProcess (fun _ => rfl) hLineage fun p _ hProcess => ?_
      refine ⟨?_, hProcess.seen, hProcess.mark⟩
      simp only [List.length_append]
      exact Nat.le_trans hProcess.synced (Nat.le_add_right _ _)
  | retried id =>
      rcases takeOverflowRetry_eq s id with hEq | hEq
      · rw [hEq]
        exact hSound
      · rw [hEq] at hLineage ⊢
        exact hSound.updateProcess (fun _ => rfl) hLineage fun p _ hProcess =>
          ⟨hProcess.synced, hProcess.seen, hProcess.mark⟩
  | launched prompt own =>
      have hIds := nodup_append_next hSound.distinct hSound.ids
      refine hSound.of_processes rfl rfl rfl hLineage (fun p hMem => ?_) ?_ ?_
      · rcases List.mem_append.mp hMem with hOld | hNew
        · exact hSound.process p hOld
        · rw [List.mem_singleton.mp hNew]
          -- Nothing is asked of a run whose transcript is not built.
          exact ⟨Nat.zero_le _, nofun, nofun⟩
      · simpa [startProcess] using hIds.1
      · simpa [startProcess] using hIds.2
  | terminated id =>
      rcases terminateProcess_eq s id with hEq | ⟨p, _, hEq⟩
      · rw [hEq]
        exact hSound
      · rw [hEq] at hLineage ⊢
        have hSub : (s.processes.filter fun q => q.id ≠ id).Sublist s.processes :=
          List.filter_sublist
        refine hSound.of_processes rfl rfl rfl hLineage (fun q hMem => ?_) (fun other hMem => ?_) ?_
        · exact hSound.process q (hSub.subset hMem)
        · exact hSound.ids other ((hSub.map _).subset hMem)
        · exact (hSub.map _).nodup hSound.distinct
  | acquired purpose own hFree hFits =>
      refine ⟨hSound.serials, hSound.process, hSound.ids, hSound.distinct, ?_, ?_⟩
      · intro a hHeld
        obtain rfl := Option.some.inj hHeld
        exact hFits.lineage hLineage
      · intro a snapshot hHeld hSnapshot
        obtain rfl := Option.some.inj hHeld
        simp at hSnapshot
  | snapped count hHeld hMe hNew => exact hSound.takeSnapshot count
  | finished assembled liveIds hHeld hMe hSnapshot hTail hLen hAppended =>
      exact hSound.finishAssemble hHeld hSnapshot hTail hLen hAppended
  | released hHeld hMe =>
      refine ⟨hSound.serials, hSound.process, hSound.ids, hSound.distinct, ?_, ?_⟩
      · intro a hNone
        simp at hNone
      · intro a snapshot hNone
        simp at hNone

theorem Sound.fresh {s : Dialogue} (hFresh : s.Fresh) : Sound s where
  serials := by
    rw [Numbered, hFresh.trimmed, hFresh.serials, List.range_eq_range']
  process p hMem := by simp [hFresh.processes] at hMem
  ids id hMem := by simp [hFresh.processes] at hMem
  distinct := by simp [hFresh.processes]
  fits a hHeld := by simp [hFresh.assembling] at hHeld
  snapshot a snapshot hHeld := by simp [hFresh.assembling] at hHeld

end Dialog
end OctoForge
