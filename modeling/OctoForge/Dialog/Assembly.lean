import OctoForge.Dialog.Steps

/-!
# What an assemble leaves out

The narrative and the message table are two mirrors of one log.  A message is
persisted first and appended later, and the compactor moves messages from the
tail into the summaries.  An assemble takes the summaries and a count from the
database and later the last so many messages of the list; everything before
them is trimmed.

Starting from a narrative that holds every stored message past the compaction
boundary, except those still on their way, such an assemble should lose
nothing: every stored message is in the summaries, in the tail, behind the
snapshot, or still on its way.  It does so exactly when the list, from its
first message that the summaries do not cover, is no longer at the snapshot
than the table past its boundary was at the count.
-/

namespace OctoForge
namespace Dialog

open Coop
open Co (Safe)
open Sequence (Numbered)

/-! ## The surroundings of an assemble -/

/-- What may happen beside an assemble: messages are persisted, persisted
messages are appended, compactions commit, and events come. -/
inductive MirrorMove where
  | persist (messages : List ChatMessage) (promptTokens : Option Nat)
  | append (messages : List (ChatMessage × Nat))
  | commit (summary : DialogueSummary)
  | event (event : DialogueEvent)

/-- Only persisted messages are appended, and a compaction never moves the
boundary back. -/
def mirrorMove : MirrorMove → Dialogue → Dialogue
  | .persist messages promptTokens, s => (insertRows messages promptTokens s).2
  | .append messages, s => appendMessages (messages.filter fun m => m.2 ∈ s.pending) s
  | .commit summary, s =>
      if s.boundary ≤ summary.seqTo then { s with summaries := [summary] } else s
  | .event event, s => (dialogueEvent event s).getD s

/-- The narrative holds every stored message past the compaction boundary
except those on their way. -/
structure Mirrors (s : Dialogue) : Prop where
  covered : ∀ row ∈ s.rows, s.boundary < row.seq →
    row.seq ∈ s.narrative.map (·.seq) ∨ row.seq ∈ s.pending
  serials : Numbered Entry.serial s.trimmed s.narrative

/-- Nothing is lost: every stored message is covered by the summaries that were
put into the topics block, or is in the tail, or was appended after the
snapshot, or is on its way; and what was trimmed is covered by the summaries. -/
def LeavesNoGap (a : Assembled) (removed : List Entry) (t : Dialogue) : Prop :=
  (∀ row ∈ t.rows,
    row.seq ≤ maxSeqTo a.summaries ∨ row.seq ∈ a.tail.map (·.seq) ∨
      (∃ e ∈ t.narrative, e.seq = row.seq ∧ a.appended ≤ e.serial) ∨ row.seq ∈ t.pending) ∧
  ∀ e ∈ removed, e.seq ≤ maxSeqTo a.summaries

/-! ## The list an assemble cuts -/

/-- All items before the last `count` satisfy `p` exactly when the items from
the first one that does not are no more than `count`. -/
theorem all_take_iff_length_dropWhile {α : Type} (p : α → Bool) (items : List α) (count : Nat) :
    (∀ item ∈ items.take (items.length - min count items.length), p item = true) ↔
      (items.dropWhile p).length ≤ count := by
  induction items with
  | nil => simp
  | cons item rest ih =>
      rw [List.length_cons]
      by_cases hItem : p item = true
      · rw [List.dropWhile_cons_of_pos hItem, ← ih]
        by_cases hAll : rest.length < count
        · have hNone : rest.length + 1 - min count (rest.length + 1) = 0 := by omega
          have hNone' : rest.length - min count rest.length = 0 := by omega
          simp [hNone, hNone']
        · have hSucc : rest.length + 1 - min count (rest.length + 1) =
              rest.length - min count rest.length + 1 := by omega
          simp [hSucc, hItem]
      · rw [List.dropWhile_cons_of_neg hItem, List.length_cons]
        constructor
        · intro hAll
          by_contra hLong
          have hPos : rest.length + 1 - min count (rest.length + 1) =
              rest.length - count + 1 := by omega
          rw [hPos] at hAll
          exact hItem (hAll item List.mem_cons_self)
        · intro hShort
          have hNone : rest.length + 1 - min count (rest.length + 1) = 0 := by omega
          simp [hNone]

theorem length_tailOf (history : List Entry) (count : Nat) :
    (tailOf history count).length = min count history.length := by
  simp only [tailOf, List.length_drop]
  omega

theorem take_append_tailOf (history : List Entry) (count : Nat) :
    history.take (history.length - (tailOf history count).length) ++ tailOf history count =
      history := by
  rw [length_tailOf, tailOf, List.take_append_drop]

theorem Dialogue.entries_seqs (s : Dialogue) (messages : List (ChatMessage × Nat)) :
    (s.entries messages).map (·.seq) = messages.map (·.2) := by
  apply List.ext_getElem
  · simp [Dialogue.entries]
  · intro index hLeft hRight
    simp [Dialogue.entries]

/-! ## What holds while an assemble is under way -/

/-- Before the snapshot: past the boundary the assemble started with, every row
is in the narrative or on its way. -/
structure BeforeSnapshot (boundary : Nat) (s : Dialogue) : Prop where
  forward : boundary ≤ s.boundary
  covered : ∀ row ∈ s.rows,
    row.seq ≤ boundary ∨ row.seq ∈ s.narrative.map (·.seq) ∨ row.seq ∈ s.pending

/-- After the snapshot: the narrative is the one of the snapshot and what has
been appended since. -/
structure AfterSnapshot (boundary : Nat) (history : List Entry) (appended : Nat)
    (later : List Entry) (s : Dialogue) : Prop where
  narrative : s.narrative = history ++ later
  since : ∀ e ∈ later, appended ≤ e.serial
  count : appended ≤ s.appended
  covered : ∀ row ∈ s.rows,
    row.seq ≤ boundary ∨ row.seq ∈ history.map (·.seq) ∨ row.seq ∈ later.map (·.seq) ∨
      row.seq ∈ s.pending

/-- What an event leaves alone here. -/
theorem event_mirror (event : DialogueEvent) (s : Dialogue) :
    let s' := (dialogueEvent event s).getD s
    s'.rows = s.rows ∧ s'.narrative = s.narrative ∧ s'.pending = s.pending ∧
      s'.trimmed = s.trimmed ∧ s.boundary ≤ s'.boundary := by
  cases event with
  | compacted summary =>
      simp only [dialogueEvent]
      split
      · rename_i hForward
        simp only [Bool.and_eq_true, decide_eq_true_eq] at hForward
        refine ⟨rfl, rfl, rfl, rfl, ?_⟩
        have hBoundary : s.boundary < summary.seqTo := hForward.2
        simp only [Option.getD_some, Dialogue.boundary, maxSeqTo, List.map_cons, List.map_nil,
          List.foldr_cons, List.foldr_nil]
        simp only [Dialogue.boundary, maxSeqTo] at hBoundary
        omega
      · exact ⟨rfl, rfl, rfl, rfl, Nat.le_refl _⟩
  | _ => exact ⟨rfl, rfl, rfl, rfl, Nat.le_refl _⟩

theorem BeforeSnapshot.move {boundary : Nat} {s : Dialogue} (hBefore : BeforeSnapshot boundary s)
    (m : MirrorMove) : BeforeSnapshot boundary (mirrorMove m s) := by
  obtain ⟨hForward, hCovered⟩ := hBefore
  cases m with
  | persist messages promptTokens =>
      refine ⟨hForward, fun row hRow => ?_⟩
      rcases List.mem_append.mp hRow with hOld | hNew
      · rcases hCovered row hOld with hLe | hHeld | hPending
        · exact Or.inl hLe
        · exact Or.inr (Or.inl hHeld)
        · exact Or.inr (Or.inr (List.mem_append_left _ hPending))
      · exact Or.inr (Or.inr (List.mem_append_right _ (List.mem_map_of_mem hNew)))
  | append messages =>
      refine ⟨hForward, fun row hRow => ?_⟩
      simp only [mirrorMove, appendMessages, List.map_append, List.mem_append,
        Dialogue.entries_seqs, List.mem_filter]
      rcases hCovered row hRow with hLe | hHeld | hPending
      · exact Or.inl hLe
      · exact Or.inr (Or.inl (Or.inl hHeld))
      -- A pending row is among those that are appended now, or stays pending.
      · by_cases hNow : row.seq ∈ (messages.filter fun m => m.2 ∈ s.pending).map (·.2)
        · exact Or.inr (Or.inl (Or.inr hNow))
        · exact Or.inr (Or.inr ⟨hPending, by simpa using hNow⟩)
  | commit summary =>
      simp only [mirrorMove]
      split
      · rename_i hLe
        refine ⟨?_, hCovered⟩
        have hSeqTo : boundary ≤ summary.seqTo := Nat.le_trans hForward hLe
        simpa [Dialogue.boundary, maxSeqTo] using hSeqTo
      · exact ⟨hForward, hCovered⟩
  | event event =>
      obtain ⟨hRows, hNarrative, hPending, -, hBoundary⟩ := event_mirror event s
      refine ⟨Nat.le_trans hForward hBoundary, ?_⟩
      simp only [mirrorMove, hRows, hNarrative, hPending]
      exact hCovered

/-- What was appended after the snapshot only grows. -/
theorem AfterSnapshot.move {boundary appended : Nat} {history later : List Entry} {s : Dialogue}
    (hAfter : AfterSnapshot boundary history appended later s) (m : MirrorMove) :
    ∃ later', AfterSnapshot boundary history appended later' (mirrorMove m s) := by
  obtain ⟨hNarrative, hLater, hCount, hCovered⟩ := hAfter
  cases m with
  | persist messages promptTokens =>
      refine ⟨later, hNarrative, hLater, hCount, fun row hRow => ?_⟩
      rcases List.mem_append.mp hRow with hOld | hNew
      · rcases hCovered row hOld with hLe | hHeld | hSince | hPending
        · exact Or.inl hLe
        · exact Or.inr (Or.inl hHeld)
        · exact Or.inr (Or.inr (Or.inl hSince))
        · exact Or.inr (Or.inr (Or.inr (List.mem_append_left _ hPending)))
      · exact Or.inr (Or.inr (Or.inr (List.mem_append_right _ (List.mem_map_of_mem hNew))))
  | append messages =>
      refine ⟨later ++ s.entries (messages.filter fun m => m.2 ∈ s.pending), ?_, ?_, ?_, ?_⟩
      · simp [mirrorMove, appendMessages, hNarrative]
      · intro e hMem
        rcases List.mem_append.mp hMem with hOld | hNew
        · exact hLater e hOld
        · exact Nat.le_trans hCount ((s.entries_numbered _).bounds hNew).1
      · refine Nat.le_trans hCount ?_
        simp only [mirrorMove, appendMessages, Dialogue.appended, List.length_append]
        omega
      · intro row hRow
        simp only [mirrorMove, appendMessages, List.map_append, List.mem_append,
          Dialogue.entries_seqs, List.mem_filter]
        rcases hCovered row hRow with hLe | hHeld | hSince | hPending
        · exact Or.inl hLe
        · exact Or.inr (Or.inl hHeld)
        · exact Or.inr (Or.inr (Or.inl (Or.inl hSince)))
        · -- A pending row is among those that are appended now, or stays pending.
          by_cases hNow : row.seq ∈ (messages.filter fun m => m.2 ∈ s.pending).map (·.2)
          · exact Or.inr (Or.inr (Or.inl (Or.inr hNow)))
          · exact Or.inr (Or.inr (Or.inr ⟨hPending, by simpa using hNow⟩))
  -- A compaction leaves the narrative alone.
  | commit summary =>
      refine ⟨later, ?_⟩
      simp only [mirrorMove]
      split <;> exact ⟨hNarrative, hLater, hCount, hCovered⟩
  | event event =>
      obtain ⟨hRows, hSame, hPending, hTrimmed, -⟩ := event_mirror event s
      refine ⟨later, ?_, hLater, ?_, ?_⟩
      · simp only [mirrorMove, hSame, hNarrative]
      · simp only [mirrorMove, Dialogue.appended, hSame, hTrimmed]
        exact hCount
      · simp only [mirrorMove, hRows, hPending]
        exact hCovered

/-! ## The assemble beside its surroundings -/

/-- An assemble and the moves of its surroundings. -/
def mirrorProtocol : Protocol Dialogue :=
  Protocol.beside fun s s' => ∃ m, s' = mirrorMove m s

theorem mirror_idle (s : Dialogue) : mirrorProtocol.guarantee 0 s s := rfl

theorem stable_beforeSnapshot (boundary : Nat) :
    mirrorProtocol.Stable 0 (BeforeSnapshot boundary) := by
  apply Protocol.stable_beside
  rintro s _ hBefore ⟨m, rfl⟩
  exact hBefore.move m

/-- What the assemble knows from its snapshot on: its tail is cut from the
narrative it saw, and its summaries reach at least to where it started. -/
structure Cut (boundary : Nat) (a : Assembled) (s : Dialogue) : Prop where
  tail : a.tail = tailOf a.history a.counted.length
  snapshotLen : a.snapshotLen = a.history.length
  reach : boundary ≤ maxSeqTo a.summaries
  after : ∃ later, AfterSnapshot boundary a.history a.appended later s

theorem stable_cut (boundary : Nat) (a : Assembled) : mirrorProtocol.Stable 0 (Cut boundary a) := by
  apply Protocol.stable_beside
  rintro s _ hCut ⟨m, rfl⟩
  obtain ⟨later, hAfter⟩ := hCut.after
  exact ⟨hCut.tail, hCut.snapshotLen, hCut.reach, hAfter.move m⟩

/-- A read of the database under an assertion: the value is that of a state in
which the assertion holds. -/
theorem safe_select_of {α : Type} {A : Dialogue → Prop} {f : Dialogue → α}
    {post : Except RunError α → Dialogue → Prop} {s : Dialogue}
    (hStable : mirrorProtocol.Stable 0 A) (hA : A s) (hOk : ∀ t, A t → post (.ok (f t)) t)
    (hError : ∀ error t, post (.error error) t) : Safe mirrorProtocol 0 post (select f) s := by
  refine Co.safe_await A hStable hA fun t hA' _ _ => ⟨trivial, rfl, ?_⟩
  by_cases hDown : t.storeDown = true
  · simp only [hDown, if_true]
    exact hError _ t
  · simp only [hDown]
    exact hOk t hA'

theorem Cut.startCompact {boundary : Nat} {a : Assembled} {s : Dialogue} (hCut : Cut boundary a s) :
    Cut boundary a { s with compacting := true } := by
  obtain ⟨hTail, hLen, hReach, later, hNarrative, hSince, hCount, hCovered⟩ := hCut
  exact ⟨hTail, hLen, hReach, later, hNarrative, hSince, hCount, hCovered⟩

theorem safe_triggerCompact_mirror {cfg : NarrativeConfig} {boundary : Nat} {a : Assembled}
    {s : Dialogue} (hCut : Cut boundary a s) (tail : List Entry) (afterSeq : Nat) :
    Safe mirrorProtocol 0 (fun r t => r = .ok () → Cut boundary a t)
      (triggerCompact cfg tail afterSeq) s := by
  have hDecided : ∀ (overflows : Bool) t, Cut boundary a t →
      Safe mirrorProtocol 0 (fun r t => r = .ok () → Cut boundary a t)
        (if overflows then startCompact else pure ()) t := by
    intro overflows t hCut'
    cases overflows with
    | true =>
        refine Co.safe_await _ (stable_cut boundary a) hCut' fun u hCut'' _ _ => ?_
        exact ⟨trivial, rfl, fun _ => hCut''.startCompact⟩
    | false => exact fun _ => hCut'
  unfold triggerCompact
  split
  · exact hDecided true s hCut
  · unfold tokenOverflow
    split
    · exact hDecided false s hCut
    · simp only [Co.bind_eq, Co.bind_assoc]
      rw [Co.safe_bind]
      refine safe_select_of (stable_cut boundary a) hCut (fun t hCut' => ?_)
        fun _ _ hOk => by cases hOk
      simp only [Co.continuePost_ok]
      cases t.latestPromptTokens afterSeq with
      | none => exact hDecided false t hCut'
      | some promptTokens => exact hDecided _ t hCut'

theorem BeforeSnapshot.takeSnapshot {boundary count : Nat} {s : Dialogue}
    (hBefore : BeforeSnapshot boundary s) :
    AfterSnapshot boundary s.narrative s.appended [] (takeSnapshot count s).2 where
  narrative := (List.append_nil s.narrative).symm
  since _ hMem := by simp at hMem
  count := Nat.le_refl _
  covered row hRow := by
    rcases hBefore.covered row hRow with hLe | hHeld | hPending
    · exact Or.inl hLe
    · exact Or.inr (Or.inl hHeld)
    · exact Or.inr (Or.inr (Or.inr hPending))

theorem safe_assemble_mirror {cfg : NarrativeConfig} {boundary : Nat} {s : Dialogue}
    (hBefore : BeforeSnapshot boundary s) :
    Safe mirrorProtocol 0 (fun r t => ∀ a, r = .ok a → Cut boundary a t) (assemble cfg) s := by
  unfold assemble
  simp only [Co.bind_eq]
  rw [Co.safe_bind]
  refine Co.safe_gather_readOnly
    (Q := fun summaries t => BeforeSnapshot boundary t ∧ boundary ≤ maxSeqTo summaries)
    mirror_idle ?_ ?_ (fun _ _ _ _ hOk => by cases hOk) (readOnly_select _) trivial ?_
  · intro summaries t t' hBoth hRely
    exact ⟨stable_beforeSnapshot boundary t t' hBoth.1 hRely, hBoth.2⟩
  · rintro summaries ⟨counted, countedBoundary⟩ t ⟨hBefore', hReach⟩
    simp only [Co.continuePost_ok]
    -- the snapshot is taken in whatever state the reads left behind
    have hRest : ∀ (summaries : List DialogueSummary) u, boundary ≤ maxSeqTo summaries →
        BeforeSnapshot boundary u →
        Safe mirrorProtocol 0 (fun r t => ∀ a, r = .ok a → Cut boundary a t)
          ((Co.atomic fun s =>
              (((takeSnapshot counted.length s).1, s.narrative),
                (takeSnapshot counted.length s).2)).bind fun x =>
            (triggerCompact cfg x.1.tail (maxSeqTo summaries)).bind fun _ =>
              Co.done { summaries, tail := x.1.tail, snapshotLen := x.1.len, counted,
                        history := x.2, appended := x.1.appended }) u := by
      intro summaries u hReach' hBeforeSnap
      rw [Co.safe_bind]
      refine Co.safe_await _ (stable_beforeSnapshot boundary) hBeforeSnap fun v hBefore'' _ _ => ?_
      refine ⟨trivial, rfl, ?_⟩
      simp only [Co.safe_done, Co.continuePost_ok]
      rw [Co.safe_bind]
      have hCut : Cut boundary
          { summaries, tail := (takeSnapshot counted.length v).1.tail
            snapshotLen := (takeSnapshot counted.length v).1.len, counted
            history := v.narrative, appended := (takeSnapshot counted.length v).1.appended }
          (takeSnapshot counted.length v).2 :=
        ⟨rfl, rfl, hReach', [], hBefore''.takeSnapshot⟩
      refine (safe_triggerCompact_mirror hCut _ _).mono fun r w hEnd => ?_
      cases r with
      | error error =>
          rintro a hEq
          cases hEq
      | ok value =>
          rintro a hEq
          obtain rfl := Except.ok.inj hEq
          exact hEnd rfl
    split
    · rw [Co.safe_bind]
      refine safe_select_of (stable_beforeSnapshot boundary) hBefore' (fun u hBefore'' => ?_)
        (fun _ _ _ hOk => by cases hOk)
      exact hRest _ u hBefore''.forward hBefore''
    · exact hRest summaries t hReach hBefore'
  · refine safe_select_of (stable_beforeSnapshot boundary) hBefore (fun t hBefore' => ?_)
      (fun _ _ _ hOk => by cases hOk)
    rintro summaries hEq
    obtain rfl := Except.ok.inj hEq
    exact ⟨hBefore', hBefore'.forward⟩

/-- What is known when the assemble has ended. -/
def Ended (boundary : Nat) : Except RunError (Assembled × List Entry) → Dialogue → Prop
  | .error _, _ => True
  | .ok (a, removed), t =>
      a.tail = tailOf a.history a.counted.length ∧ boundary ≤ maxSeqTo a.summaries ∧
        removed = a.history.take (a.history.length - a.tail.length) ∧
        ∀ row ∈ t.rows, row.seq ≤ boundary ∨ row.seq ∈ a.history.map (·.seq) ∨
          (∃ e ∈ t.narrative, e.seq = row.seq ∧ a.appended ≤ e.serial) ∨ row.seq ∈ t.pending

@[simp] theorem finishAssemble_rows (cfg : NarrativeConfig) (purpose : Purpose)
    (own : Option ExchangeId) (a : Assembled) (liveIds : List ExchangeId) (s : Dialogue) :
    (finishAssemble cfg purpose own a liveIds s).2.rows = s.rows := by
  cases purpose <;> rfl

@[simp] theorem finishAssemble_pending (cfg : NarrativeConfig) (purpose : Purpose)
    (own : Option ExchangeId) (a : Assembled) (liveIds : List ExchangeId) (s : Dialogue) :
    (finishAssemble cfg purpose own a liveIds s).2.pending = s.pending := by
  cases purpose <;> rfl

/-- The trim takes its messages from the snapshot, never from what came later. -/
theorem Cut.finish {cfg : NarrativeConfig} {purpose : Purpose} {own : Option ExchangeId}
    {boundary : Nat} {a : Assembled} {s : Dialogue} (hCut : Cut boundary a s)
    (liveIds : List ExchangeId) :
    Ended boundary (.ok (a, (finishAssemble cfg purpose own a liveIds s).1))
      (finishAssemble cfg purpose own a liveIds s).2 := by
  obtain ⟨hTail, hLen, hReach, later, hNarrative, hSince, -, hCovered⟩ := hCut
  have hDrop : a.snapshotLen - a.tailCount = a.history.length - a.tail.length := by
    rw [hLen, Assembled.tailCount]
  have hWithin : a.history.length - a.tail.length ≤ a.history.length := Nat.sub_le _ _
  refine ⟨hTail, hReach, ?_, fun row hRow => ?_⟩
  · show s.narrative.take (a.snapshotLen - a.tailCount) = _
    rw [hDrop, hNarrative, List.take_append_of_le_length hWithin]
  · rw [finishAssemble_rows] at hRow
    rw [finishAssemble_pending, finishAssemble_narrative, hDrop, hNarrative,
      List.drop_append_of_le_length hWithin]
    rcases hCovered row hRow with hLe | hHeld | hLater | hPending
    · exact Or.inl hLe
    · exact Or.inr (Or.inl hHeld)
    · obtain ⟨e, hMem, hSeq⟩ := List.mem_map.mp hLater
      exact Or.inr (Or.inr (Or.inl ⟨e, List.mem_append_right _ hMem, hSeq, hSince e hMem⟩))
    · exact Or.inr (Or.inr (Or.inr hPending))

theorem safe_assembleNarrative_mirror {cfg : NarrativeConfig} {me : Nat} {purpose : Purpose}
    {own : Option ExchangeId} {boundary : Nat} {s : Dialogue}
    (hBefore : BeforeSnapshot boundary s) :
    Safe mirrorProtocol 0 (Ended boundary) (assembleNarrative cfg me purpose own) s := by
  unfold assembleNarrative
  simp only [Co.bind_eq]
  rw [Co.safe_bind]
  refine Co.safe_await _ (stable_beforeSnapshot boundary) hBefore fun t hBefore' _ _ => ?_
  refine ⟨trivial, rfl, ?_⟩
  simp only [Co.safe_done, Co.continuePost_ok]
  rw [Co.safe_tryCatch, Co.safe_bind]
  have hLocked : BeforeSnapshot boundary { t with assembling := some { holder := me, purpose, own } } :=
    ⟨hBefore'.forward, hBefore'.covered⟩
  refine Co.safe_gather_readOnly (Q := Cut boundary) mirror_idle (stable_cut boundary) ?_ ?_
    (readOnly_select _) trivial (safe_assemble_mirror hLocked)
  · rintro a liveIds u hCut
    simp only [Co.continuePost_ok]
    rw [Co.safe_bind]
    refine Co.safe_await _ (stable_cut boundary a) hCut fun v hCut' _ _ => ⟨trivial, rfl, ?_⟩
    exact hCut'.finish liveIds
  · intro error u _
    -- a failed assemble returns nothing
    refine Co.safe_await (fun _ => True) (fun _ _ _ _ => trivial) trivial fun v _ _ _ => ?_
    exact ⟨trivial, rfl, trivial⟩

/-- Started from a narrative that mirrors the table, an assemble beside any
persists, appends and commits leaves no gap exactly when, at its snapshot, the
narrative from its first message past the summaries on is no longer than the
table past its boundary was at the count. -/
theorem assembly_leaves_no_gap_iff {cfg : NarrativeConfig} {me : Nat} {purpose : Purpose}
    {own : Option ExchangeId} {s t : Dialogue} {a : Assembled} {removed : List Entry}
    (hMirrors : Mirrors s)
    (hRun : Co.Run (fun s s' => ∃ m, s' = mirrorMove m s) (assembleNarrative cfg me purpose own) s
      (.ok (a, removed)) t) :
    LeavesNoGap a removed t ↔
      (a.history.dropWhile fun e => decide (e.seq ≤ maxSeqTo a.summaries)).length ≤
        a.counted.length := by
  have hBefore : BeforeSnapshot s.boundary s := by
    refine ⟨Nat.le_refl _, fun row hRow => ?_⟩
    by_cases hLe : row.seq ≤ s.boundary
    · exact Or.inl hLe
    · exact Or.inr (hMirrors.covered row hRow (Nat.lt_of_not_le hLe))
  have hSafe : Safe mirrorProtocol 0 (Ended s.boundary) (assembleNarrative cfg me purpose own) s :=
    safe_assembleNarrative_mirror hBefore
  obtain ⟨hTail, hReach, hRemoved, hCovered⟩ := hSafe.run_beside hRun
  -- the trim removes exactly what lies before the last `counted` messages
  have hTrim : (∀ e ∈ removed, e.seq ≤ maxSeqTo a.summaries) ↔
      (a.history.dropWhile fun e => decide (e.seq ≤ maxSeqTo a.summaries)).length ≤
        a.counted.length := by
    rw [← all_take_iff_length_dropWhile, hRemoved, hTail, length_tailOf]
    simp only [decide_eq_true_eq]
  constructor
  · intro hNoGap
    exact hTrim.mp hNoGap.2
  · intro hShort
    have hOld := hTrim.mpr hShort
    refine ⟨fun row hRow => ?_, hOld⟩
    rcases hCovered row hRow with hLe | hHeld | hSince | hPending
    · exact Or.inl (Nat.le_trans hLe hReach)
    · obtain ⟨e, hMem, hSeq⟩ := List.mem_map.mp hHeld
      rw [← take_append_tailOf a.history a.counted.length, ← hTail, ← hRemoved] at hMem
      rcases List.mem_append.mp hMem with hGone | hKept
      · exact Or.inl (hSeq ▸ hOld e hGone)
      · exact Or.inr (Or.inl (List.mem_map.mpr ⟨e, hKept, hSeq⟩))
    · exact Or.inr (Or.inr (Or.inl hSince))
    · exact Or.inr (Or.inr (Or.inr hPending))

theorem compactedDialogue_mirrors : Mirrors compactedDialogue :=
  ⟨by decide, rfl⟩

/-- A fourth message is persisted and appended. -/
def fourthMessage : List MirrorMove :=
  [.persist [{ role := .user, content := "and" }] none,
   .append [({ role := .user, content := "and", id := some 4 }, 4)]]

/-- The fourth message comes after the snapshot: it is neither in the tail of
two nor trimmed, and nothing is missing. -/
theorem assembly_leaves_no_gap_late_append :
    ∃ s a removed t, Mirrors s ∧
      Co.Run (fun s s' => ∃ m, s' = mirrorMove m s) (assembleNarrative {} 0 .answer (some 7)) s
        (.ok (a, removed)) t ∧
      t.narrative.map (·.seq) = [2, 3, 4] ∧ LeavesNoGap a removed t := by
  have hRuns : (Co.runWith mirrorMove [[], [], [], [], fourthMessage]
      (assembleNarrative {} 0 .answer (some 7)) compactedDialogue).map
        (fun outcome => (outcome.2.narrative.map (·.seq), outcome.1.toOption.map fun result =>
          ((result.1.history.dropWhile
            fun e => decide (e.seq ≤ maxSeqTo result.1.summaries)).length,
            result.1.counted.length))) = some ([2, 3, 4], some (2, 2)) := by
    decide +kernel
  obtain ⟨⟨r, t⟩, hRuns, hValue⟩ := Option.map_eq_some_iff.mp hRuns
  obtain ⟨hSeqs, hResult⟩ := Prod.mk.inj hValue
  cases r with
  | error error => simp [Except.toOption] at hResult
  | ok result =>
      obtain ⟨a, removed⟩ := result
      simp only [Except.toOption, Option.map_some, Option.some.injEq, Prod.mk.injEq] at hResult
      have hRun := Co.Run.of_runWith hRuns
      refine ⟨_, a, removed, t, compactedDialogue_mirrors, hRun, hSeqs, ?_⟩
      exact (assembly_leaves_no_gap_iff compactedDialogue_mirrors hRun).mpr
        (Nat.le_of_eq (hResult.1.trans hResult.2.symm))

/-- The fourth message comes between the count and the snapshot: the tail of
two is now the last two of four, and the second message, which no summary
covers, is trimmed. -/
theorem assembly_gap_on_early_append :
    ∃ s a removed t, Mirrors s ∧
      Co.Run (fun s s' => ∃ m, s' = mirrorMove m s) (assembleNarrative {} 0 .answer (some 7)) s
        (.ok (a, removed)) t ∧
      ¬ LeavesNoGap a removed t := by
  have hRuns : (Co.runWith mirrorMove [[], [], [], fourthMessage]
      (assembleNarrative {} 0 .answer (some 7)) compactedDialogue).map
        (fun outcome => outcome.1.toOption.map fun result =>
          (result.2.map (·.seq), maxSeqTo result.1.summaries)) = some (some ([1, 2], 1)) := by
    decide +kernel
  obtain ⟨⟨r, t⟩, hRuns, hResult⟩ := Option.map_eq_some_iff.mp hRuns
  cases r with
  | error error => simp [Except.toOption] at hResult
  | ok result =>
      obtain ⟨a, removed⟩ := result
      simp only [Except.toOption, Option.map_some, Option.some.injEq, Prod.mk.injEq] at hResult
      refine ⟨_, a, removed, t, compactedDialogue_mirrors, Co.Run.of_runWith hRuns, ?_⟩
      intro hNoGap
      have hSecond : 2 ∈ removed.map (·.seq) := by simp [hResult.1]
      obtain ⟨e, hMem, hSeq⟩ := List.mem_map.mp hSecond
      have hCovered := hNoGap.2 e hMem
      rw [hSeq, hResult.2] at hCovered
      omega

end Dialog
end OctoForge
