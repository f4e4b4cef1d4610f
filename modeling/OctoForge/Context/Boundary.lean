import OctoForge.Context.Compactor
import Mathlib.Data.List.Pairwise

/-!
# The boundary of what has been compacted

A compaction adds the next messages to what the summaries cover, provided that
the summaries are still those whose boundary it read.  Then the boundary moves
forward and no message is left out.  `Moves` is what every step of the compactors
does, as long as no replacement was stale.
-/

namespace OctoForge
namespace Context

open Coop
open Co (Triple Spec Atoms AtomOk)

/-! ## What the summaries cover -/

theorem foldr_min_le {list : List Nat} {a b : Nat} (hLe : list.foldr min a ≤ b) :
    a ≤ b ∨ ∃ x ∈ list, x ≤ b := by
  induction list with
  | nil => exact Or.inl hLe
  | cons x rest ih =>
      have hMin : (x :: rest).foldr min a = min x (rest.foldr min a) := rfl
      by_cases hHere : x ≤ b
      · exact Or.inr ⟨x, List.mem_cons_self, hHere⟩
      · rcases ih (by omega) with hBase | ⟨y, hMem, hLe⟩
        · exact Or.inl hBase
        · exact Or.inr ⟨y, List.mem_cons_of_mem x hMem, hLe⟩

theorem fillSegment_isPrefix (targetChars : Nat) (first : Bool) (total : Nat)
    (tail : List ArchivedMessage) : fillSegment targetChars first total tail <+: tail := by
  induction tail generalizing first total with
  | nil => exact List.nil_prefix
  | cons m rest ih =>
      unfold fillSegment
      split
      · exact List.nil_prefix
      · exact List.prefix_cons_inj m |>.mpr (ih _ _)

/-- Only the oldest messages of the tail are compacted. -/
theorem selectCompactSegment_isPrefix (tail : List ArchivedMessage) (targetChars : Nat) :
    selectCompactSegment tail targetChars <+: tail := by
  have hSegment : fillSegment targetChars true 0 tail.dropLast <+: tail :=
    (fillSegment_isPrefix targetChars true 0 tail.dropLast).trans (List.dropLast_prefix tail)
  unfold selectCompactSegment
  generalize fillSegment targetChars true 0 tail.dropLast = segment at hSegment
  simp only
  split
  · rename_i lastIn firstOut hLast hNext
    split
    · split
      · exact (List.dropLast_prefix segment).trans hSegment
      · -- the note is the next message of the tail
        obtain ⟨more, rfl⟩ := hSegment
        rw [List.getElem?_append_right (Nat.le_refl _), Nat.sub_self] at hNext
        cases more with
        | nil => simp at hNext
        | cons next more =>
            obtain rfl := Option.some.inj hNext
            exact ⟨more, by simp⟩
    · exact hSegment
  · exact hSegment

/-- Every message from the first one compacted up to the boundary is in the range
of a summary that was made of it. -/
structure Covered (s : Archive) : Prop where
  reached : ∀ x ∈ s.summaries, ∃ row ∈ s.rows, x.seqTo ≤ row.seq
  cover : ∀ row ∈ s.rows, (∃ x ∈ s.summaries, x.seqFrom ≤ row.seq) → row.seq ≤ s.boundary →
    ∃ x ∈ s.summaries, x.seqFrom ≤ row.seq ∧ row.seq ≤ x.seqTo ∧ row.seq ∈ x.sources

/-- The rows are in the order of their seqs. -/
def Ordered (rows : List ArchivedMessage) : Prop := rows.Pairwise fun a b => a.seq < b.seq

theorem seq_lt_next {rows : List ArchivedMessage} {row : ArchivedMessage} (hMem : row ∈ rows) :
    row.seq < (rows.map (·.seq)).foldr max 0 + 1 := by
  induction rows with
  | nil => simp at hMem
  | cons first rest ih =>
      have hMax : ((first :: rest).map (·.seq)).foldr max 0 =
          max first.seq ((rest.map (·.seq)).foldr max 0) := rfl
      rcases List.mem_cons.mp hMem with rfl | hMem
      · omega
      · have hRest := ih hMem
        omega

/-! ## Steps -/

/-- The messages have got more, behind the others. -/
def Extends (rows rows' : List ArchivedMessage) : Prop :=
  ∃ more, rows' = rows ++ more ∧ Ordered more ∧ ∀ row ∈ rows, ∀ new ∈ more, row.seq < new.seq

theorem Extends.refl (rows : List ArchivedMessage) : Extends rows rows :=
  ⟨[], (List.append_nil rows).symm, List.Pairwise.nil, fun _ _ _ hMem => by simp at hMem⟩

/-- A step.  As long as it is not stale, the boundary does not go back. -/
structure Moves (s s' : Archive) : Prop where
  rows : Extends s.rows s'.rows
  version : s'.replaced = s.replaced ∧ s'.summaries = s.summaries ∨ s.replaced < s'.replaced
  fresh : s'.stale = false → s.stale = false ∧ s.boundary ≤ s'.boundary ∧ (Covered s → Covered s')

/-- What holds in every state. -/
def Inv (s : Archive) : Prop := Ordered s.rows ∧ (s.stale = false → Covered s)

theorem Moves.inv {s s' : Archive} (hInv : Inv s) (hMoves : Moves s s') : Inv s' := by
  refine ⟨?_, fun hFresh => ?_⟩
  · obtain ⟨more, hRows, hMore, hBehind⟩ := hMoves.rows
    rw [Ordered, hRows, List.pairwise_append]
    exact ⟨hInv.1, hMore, hBehind⟩
  · obtain ⟨hBefore, -, hCovered⟩ := hMoves.fresh hFresh
    exact hCovered (hInv.2 hBefore)

/-- A step that leaves what is stored alone. -/
structure Aside (s s' : Archive) : Prop where
  rows : s'.rows = s.rows
  summaries : s'.summaries = s.summaries
  replaced : s'.replaced = s.replaced
  stale : s'.stale = s.stale

theorem Aside.refl (s : Archive) : Aside s s := ⟨rfl, rfl, rfl, rfl⟩

theorem Aside.moves {s s' : Archive} (hAside : Aside s s') : Moves s s' := by
  refine ⟨hAside.rows ▸ Extends.refl _, Or.inl ⟨hAside.replaced, hAside.summaries⟩, fun hFresh => ?_⟩
  have hBoundary : s'.boundary = s.boundary := by
    rw [Archive.boundary, hAside.summaries, Archive.boundary]
  refine ⟨hAside.stale ▸ hFresh, Nat.le_of_eq hBoundary.symm, fun hCovered => ⟨?_, ?_⟩⟩
  · rw [hAside.summaries, hAside.rows]
    exact hCovered.reached
  · rw [hAside.summaries, hAside.rows, hBoundary]
    exact hCovered.cover

/-- A new message is behind the boundary. -/
theorem moves_append (role : Dialog.MessageRole) (content : String) (s : Archive) :
    Moves s (s.append role content) := by
  have hNew : ∀ row ∈ s.rows, row.seq < (s.rows.map (·.seq)).foldr max 0 + 1 :=
    fun row hMem => seq_lt_next hMem
  refine ⟨⟨_, rfl, List.pairwise_singleton _ _, fun row hMem new hLast => ?_⟩, Or.inl ⟨rfl, rfl⟩,
    fun hFresh => ⟨hFresh, Nat.le_refl _, fun hCovered => ⟨fun x hMem => ?_, fun row hMem hFrom hTo => ?_⟩⟩⟩
  · obtain rfl := List.mem_singleton.mp hLast
    exact hNew row hMem
  · obtain ⟨row, hRow, hReached⟩ := hCovered.reached x hMem
    exact ⟨row, List.mem_append_left _ hRow, hReached⟩
  · rcases List.mem_append.mp hMem with hMem | hMem
    · exact hCovered.cover row hMem hFrom hTo
    · obtain rfl := List.mem_singleton.mp hMem
      -- the boundary is not past the messages there were
      have hBoundary : s.boundary < (s.rows.map (·.seq)).foldr max 0 + 1 := by
        have hAll : ∀ summaries : List DialogueSummary,
            (∀ x ∈ summaries, ∃ row ∈ s.rows, x.seqTo ≤ row.seq) →
            maxSeqTo summaries < (s.rows.map (·.seq)).foldr max 0 + 1 := by
          intro summaries hReached
          induction summaries with
          | nil => exact Nat.succ_pos _
          | cons x rest ih =>
              have hMax : maxSeqTo (x :: rest) = max x.seqTo (maxSeqTo rest) := rfl
              obtain ⟨row, hRow, hLe⟩ := hReached x List.mem_cons_self
              have hRowLt := hNew row hRow
              have hRest := ih fun y hMem => hReached y (List.mem_cons_of_mem x hMem)
              omega
        exact hAll s.summaries hCovered.reached
      have hSeq : (s.rows.map (·.seq)).foldr max 0 + 1 ≤ s.boundary := hTo
      omega

/-- What a compaction saw, unless it was overtaken since: where the boundary is, and
that its segment comes right behind it. -/
structure Saw (boundary version : Nat) (segment : List ArchivedMessage) (s : Archive) : Prop where
  since : version ≤ s.replaced
  reaches : s.replaced = version → s.boundary = boundary
  follows : ∃ more, (s.rows.filter fun row => boundary < row.seq) = segment ++ more

/-- These are the summaries, unless they were replaced since. -/
structure Merges (version : Nat) (previous : List DialogueSummary) (s : Archive) : Prop where
  since : version ≤ s.replaced
  merges : s.replaced = version → ∀ x, x ∈ previous ↔ x ∈ s.summaries

theorem moves_replaceForDialog {s : Archive} {boundary version : Nat} {first : ArchivedMessage}
    {rest : List ArchivedMessage} {previous : List DialogueSummary} (hInv : Inv s)
    (hSaw : Saw boundary version (first :: rest) s) (hMerges : Merges version previous s) (topics : List String)
    (content : String) :
    Moves s (s.replaceForDialog version (mergedSummary topics content first rest previous)) := by
  generalize hLast : (first :: rest).getLast (List.cons_ne_nil first rest) = last
  have hTo : (mergedSummary topics content first rest previous).seqTo = last.seq := by
    rw [mergedSummary, hLast]
  obtain ⟨more, hMore⟩ := hSaw.follows
  have hSegment : ∀ row ∈ first :: rest, row ∈ s.rows ∧ boundary < row.seq := by
    intro row hMem
    have hFilter : row ∈ s.rows.filter fun row => boundary < row.seq := by
      rw [hMore]
      exact List.mem_append_left _ hMem
    simpa using List.mem_filter.mp hFilter
  have hLastMem : last ∈ first :: rest := hLast ▸ List.getLast_mem _
  refine ⟨Extends.refl _, Or.inr (Nat.lt_succ_self _), fun hFresh => ?_⟩
  obtain ⟨hBefore, hVersion⟩ : s.stale = false ∧ s.replaced = version := by
    simpa [Archive.replaceForDialog] using hFresh
  have hBoundary := hSaw.reaches hVersion
  -- The merged summary is the only one, so the boundary is where it ends.
  have hMax : (s.replaceForDialog version (mergedSummary topics content first rest previous)).boundary =
      last.seq := by
    show max (mergedSummary topics content first rest previous).seqTo 0 = last.seq
    rw [hTo]
    exact Nat.max_zero _
  have hForward := (hSegment last hLastMem).2
  refine ⟨hBefore, by omega, fun hCovered => ⟨fun x hMem => ?_, fun row hMem hFrom hRow => ?_⟩⟩
  · obtain rfl := List.mem_singleton.mp hMem
    exact ⟨last, (hSegment last hLastMem).1, Nat.le_of_eq hTo⟩
  · obtain ⟨x, hX, hFrom⟩ := hFrom
    obtain rfl := List.mem_singleton.mp hX
    refine ⟨_, hX, hFrom, by omega, ?_⟩
    rw [hMax] at hRow
    refine List.mem_append.mpr ?_
    by_cases hOld : row.seq ≤ boundary
    · -- an old message: one of the summaries that were merged is made of it
      have hFirst := (hSegment first List.mem_cons_self).2
      rcases foldr_min_le hFrom with hLe | ⟨seqFrom, hSeqFrom, hLe⟩
      · omega
      · obtain ⟨y, hY, rfl⟩ := List.mem_map.mp hSeqFrom
        obtain ⟨z, hZ, -, -, hSource⟩ := hCovered.cover row hMem
          ⟨y, (hMerges.merges hVersion y).mp hY, hLe⟩ (by omega)
        exact Or.inl (List.mem_flatMap.mpr ⟨z, (hMerges.merges hVersion z).mpr hZ, hSource⟩)
    · refine Or.inr (List.mem_map.mpr ⟨row, ?_, rfl⟩)
      have hFilter : row ∈ (first :: rest) ++ more := by
        rw [← hMore]
        exact List.mem_filter.mpr ⟨hMem, by simpa using hOld⟩
      rcases List.mem_append.mp hFilter with hHere | hLater
      · exact hHere
      · -- what comes behind the segment is past its last message
        have hOrdered : Ordered ((first :: rest) ++ more) := hMore ▸ hInv.1.filter _
        have hPast := (List.pairwise_append.mp hOrdered).2.2 last hLastMem row hLater
        omega

/-! ## The protocol -/

/-- Everybody only makes such steps. -/
def boundaryProtocol : Protocol Archive := Protocol.ofStep Inv Moves

variable {me : Nat}

theorem steps_aside {α : Type} {c : Work α} (hSteps : Co.Steps Aside c) (A : Archive → Prop) :
    Atoms boundaryProtocol me A c :=
  hSteps.atoms fun _ _ hInv _ hAside => ⟨hAside.moves.inv hInv, hAside.moves⟩

theorem kept_saw (boundary version : Nat) (segment : List ArchivedMessage) :
    boundaryProtocol.Kept (Saw boundary version segment) := by
  refine Protocol.kept_ofStep fun s s' _ hSaw hMoves => ?_
  obtain ⟨more, hMore⟩ := hSaw.follows
  obtain ⟨new, hRows, -⟩ := hMoves.rows
  have hFollows : ∃ more, (s'.rows.filter fun row => boundary < row.seq) = segment ++ more :=
    ⟨more ++ new.filter fun row => boundary < row.seq, by
      rw [hRows, List.filter_append, hMore, List.append_assoc]⟩
  have hSince := hSaw.since
  rcases hMoves.version with ⟨hSame, hSummaries⟩ | hLater
  · refine ⟨by omega, fun hEq => ?_, hFollows⟩
    rw [Archive.boundary, hSummaries]
    exact hSaw.reaches (hSame ▸ hEq)
  · exact ⟨by omega, fun hEq => by omega, hFollows⟩

theorem kept_merges (version : Nat) (previous : List DialogueSummary) :
    boundaryProtocol.Kept (Merges version previous) := by
  refine Protocol.kept_ofStep fun s s' _ hMerges hMoves => ?_
  have hSince := hMerges.since
  rcases hMoves.version with ⟨hSame, hSummaries⟩ | hLater
  · refine ⟨by omega, fun hEq => ?_⟩
    rw [hSummaries]
    exact hMerges.merges (hSame ▸ hEq)
  · exact ⟨by omega, fun hEq => by omega⟩

theorem kept_and {A B : Archive → Prop} (hA : boundaryProtocol.Kept A)
    (hB : boundaryProtocol.Kept B) : boundaryProtocol.Kept fun s => A s ∧ B s :=
  fun s s' hInv hBoth hStep => ⟨hA s s' hInv hBoth.1 hStep, hB s s' hInv hBoth.2 hStep⟩

/-! ## The compaction -/

theorem spec_select {α : Type} {A : Archive → Prop} {B : α → Archive → Prop} (k : Nat)
    {f : Archive → α} (hKept : boundaryProtocol.Kept A)
    (hRead : ∀ s, Inv s → A s → B (f s) s) : Spec boundaryProtocol me A (select k f) B := by
  refine Co.triple_attempt (hKept.stable me) fun s hInv hA => ?_
  split
  · exact ⟨hInv, (Aside.refl s).moves, fun _ hEq => by simp at hEq, fun _ _ => trivial⟩
  · split
    · exact ⟨hInv, (Aside.refl s).moves, fun _ hEq => by simp at hEq, fun _ _ => trivial⟩
    · refine ⟨hInv, (Aside.refl s).moves, fun value hEq => ?_, fun _ _ => trivial⟩
      obtain rfl := Except.ok.inj hEq
      exact hRead s hInv hA

theorem spec_complete {A : Archive → Prop} (k : Nat) (hKept : boundaryProtocol.Kept A) :
    Spec boundaryProtocol me A (complete k) fun _ => A := by
  refine Co.triple_attempt (hKept.stable me) fun s hInv hA => ?_
  split
  · exact ⟨hInv, (Aside.refl s).moves, fun _ hEq => by simp at hEq, fun _ _ => trivial⟩
  · split
    · exact ⟨hInv, (Aside.refl s).moves, fun _ hEq => by simp at hEq, fun _ _ => trivial⟩
    · exact ⟨hInv, (Aside.refl s).moves, fun _ _ => hA, fun _ _ => trivial⟩

theorem spec_replace {A : Archive → Prop} (k version : Nat) (summary : DialogueSummary)
    (hKept : boundaryProtocol.Kept A)
    (hReplace : ∀ s, Inv s → A s → Moves s (s.replaceForDialog version summary)) :
    Spec boundaryProtocol me A (replace k version summary) fun _ _ => True := by
  refine (spec_select (B := fun _ => A) k hKept fun _ _ hA => hA).bind fun _ => ?_
  refine Co.triple_attempt (hKept.stable me) fun s hInv hA => ?_
  have hMoves := hReplace s hInv hA
  have hLands : Inv (s.replaceForDialog version summary) ∧
      Moves s (s.replaceForDialog version summary) := ⟨hMoves.inv hInv, hMoves⟩
  have hStays : Inv s ∧ Moves s s := ⟨hInv, (Aside.refl s).moves⟩
  split
  · show Inv (ite _ _ _) ∧ Moves s (ite _ _ _) ∧ _
    split
    · exact ⟨hStays.1, hStays.2, fun _ _ => trivial, fun _ _ => trivial⟩
    · exact ⟨hLands.1, hLands.2, fun _ _ => trivial, fun _ _ => trivial⟩
  · split
    · exact ⟨hStays.1, hStays.2, fun _ _ => trivial, fun _ _ => trivial⟩
    · exact ⟨hLands.1, hLands.2, fun _ _ => trivial, fun _ _ => trivial⟩

theorem spec_compact (cfg : CompactorConfig) (topics : List String) (content : String) (k : Nat) :
    Spec boundaryProtocol me (fun _ => True) (compact cfg topics content k) fun _ _ => True := by
  refine (spec_select (B := fun read => Saw read.1 read.2 []) k (Protocol.Kept.true _)
    fun s _ _ => ⟨Nat.le_refl _, fun _ => rfl, _, rfl⟩).bind fun read => ?_
  obtain ⟨boundary, version⟩ := read
  refine (spec_select (B := fun tail => Saw boundary version
    (selectCompactSegment tail cfg.compactTargetChars)) k (kept_saw boundary version [])
    fun s _ hSaw => ⟨hSaw.since, hSaw.reaches, ?_⟩).bind fun tail => ?_
  · -- what is compacted is the front of the messages behind the boundary
    obtain ⟨more, hMore⟩ := (selectCompactSegment_isPrefix _ cfg.compactTargetChars).trans
      (List.take_prefix cfg.segmentFetchLimit (s.rows.filter fun row => boundary < row.seq))
    exact ⟨more, hMore.symm⟩
  · cases hSegment : selectCompactSegment tail cfg.compactTargetChars with
    | nil => exact Co.triple_done fun _ _ _ => trivial
    | cons first rest =>
        refine (spec_select (B := fun previous s => Saw boundary version (first :: rest) s ∧
          Merges version previous s) k (kept_saw boundary version (first :: rest))
          fun s _ hSaw => ⟨hSaw, hSaw.since, fun _ x => List.mem_mergeSort⟩).bind fun previous => ?_
        have hKept := kept_and (kept_saw boundary version (first :: rest))
          (kept_merges version previous)
        refine (spec_complete k hKept).bind fun _ => ?_
        refine (spec_select (B := fun _ s => Saw boundary version (first :: rest) s ∧
          Merges version previous s) k hKept fun _ _ hBoth => hBoth).bind fun _ => ?_
        exact spec_replace k version _ hKept fun s hInv hBoth =>
          moves_replaceForDialog hInv hBoth.1 hBoth.2 topics content

/-! ## The rest of the compactors -/

theorem aside_setTask (k : Nat) (f : CompactionTask → CompactionTask) (s : Archive) :
    Aside s (s.setTask k f) := ⟨rfl, rfl, rfl, rfl⟩

theorem aside_startCompact (node : Nat) (s : Archive) : Aside s (s.startCompact node).2 := by
  unfold Archive.startCompact
  split
  · exact Aside.refl s
  · exact ⟨rfl, rfl, rfl, rfl⟩

theorem aside_onCompactDone (k : Nat) (s : Archive) : Aside s (s.onCompactDone k) := by
  unfold Archive.onCompactDone
  simp only
  split
  · exact ⟨rfl, rfl, rfl, rfl⟩
  · exact Aside.refl s

theorem aside_dropRunning (node : Nat) (s : Archive) : Aside s (s.dropRunning node).2 := by
  unfold Archive.dropRunning
  split
  · exact Aside.refl s
  · exact ⟨rfl, rfl, rfl, rfl⟩

theorem steps_awaitTask (k : Nat) : Co.Steps Aside (awaitTask k) := by
  unfold awaitTask
  refine Co.atoms_attemptWhen fun s _ _ _ => ⟨trivial, ?_⟩
  dsimp only
  split
  · exact Aside.refl s
  · exact Aside.refl s

theorem steps_awaitQuietly (k : Nat) : Co.Steps Aside (awaitQuietly k) := by
  refine Atoms.tryCatch (steps_awaitTask k) fun error => ?_
  cases error with
  | cancelled => trivial
  | failed => trivial

theorem steps_compactOwn (node before : Nat) : Co.Steps Aside (compactOwn node before) := by
  refine Atoms.bind (Co.atoms_atomic fun s _ _ _ => ⟨trivial, aside_startCompact node s⟩) fun k => ?_
  refine Atoms.bind (Atoms.tryCatch (Atoms.bind (steps_awaitTask k) fun _ => Co.atoms_done _)
    fun error => ?_) fun compacted => ?_
  · cases error with
    | cancelled => trivial
    | failed => trivial
  · cases compacted with
    | false => trivial
    | true => exact Atoms.bind (Co.atoms_read Aside.refl) fun _ => Co.atoms_done _

theorem steps_compactNow (node : Nat) : Co.Steps Aside (compactNow node) := by
  refine Atoms.bind (Co.atoms_read Aside.refl) fun before => ?_
  refine Atoms.bind (Co.atoms_read Aside.refl) fun running => ?_
  cases running with
  | none => exact steps_compactOwn node before
  | some k =>
      refine Atoms.bind (steps_awaitQuietly k) fun _ => ?_
      refine Atoms.bind (Co.atoms_read Aside.refl) fun boundary => ?_
      split
      · trivial
      · exact steps_compactOwn node before

theorem steps_aclose (node : Nat) : Co.Steps Aside (aclose node) := by
  refine Atoms.bind (Co.atoms_atomic fun s _ _ _ => ⟨trivial, aside_dropRunning node s⟩)
    fun running => ?_
  cases running with
  | none => trivial
  | some k => exact steps_awaitQuietly k

theorem spec_compactTask (cfg : CompactorConfig) (topics : List String) (content : String) (k : Nat) :
    Spec boundaryProtocol me (fun _ => True) (compactTask cfg topics content k) fun _ _ => True := by
  have hAside : ∀ {α : Type} {c : Work α}, Co.Steps Aside c →
      Spec boundaryProtocol me (fun _ => True) c fun _ _ => True :=
    fun hSteps => (steps_aside hSteps _).spec (Protocol.Kept.true _)
  refine Triple.bind (B := fun _ _ => True) (hAside
    (Co.atoms_blockUntil fun s _ _ _ => ⟨trivial, aside_setTask _ _ s⟩)) fun _ => ?_
  refine Triple.bind (B := fun _ _ => True) (Triple.tryCatch
    ((spec_compact cfg topics content k).bind fun _ => Co.triple_done fun _ _ _ => trivial)
    fun _ _ => Co.triple_done fun _ _ _ => trivial) fun error => ?_
  refine Triple.bind (B := fun _ _ => True) (hAside
    (Co.atoms_modify fun s _ _ _ => ⟨trivial, aside_setTask _ _ s⟩)) fun _ => ?_
  exact hAside (Co.atoms_modify fun s _ _ _ => ⟨trivial, aside_onCompactDone k s⟩)

theorem compactors_follow (cfg : CompactorConfig) : (compactors cfg).Follows boundaryProtocol where
  body_safe call me s hInv := by
    have hSafe : Spec boundaryProtocol me (fun _ => True) ((compactors cfg).body call me)
        fun _ _ => True := by
      cases call with
      | trigger node =>
          exact (steps_aside (Co.atoms_modify fun s _ _ _ =>
            ⟨trivial, aside_startCompact node s⟩) _).spec (Protocol.Kept.true _)
      | compactNow node =>
          exact (steps_aside (Atoms.bind (steps_compactNow node) fun _ => Co.atoms_done _) _).spec
            (Protocol.Kept.true _)
      | aclose node => exact (steps_aside (steps_aclose node) _).spec (Protocol.Kept.true _)
      | compact k topics content => exact spec_compactTask cfg topics content k
    exact (hSafe s hInv trivial).mono fun _ _ _ => trivial
  event_env event s s' hInv hEvent := by
    have hMoves : Moves s s' := by
      cases event with
      | append role content =>
          obtain rfl := Option.some.inj hEvent
          exact moves_append role content s
      | storeDown down =>
          obtain rfl := Option.some.inj hEvent
          exact Aside.moves ⟨rfl, rfl, rfl, rfl⟩
      | llmDown down =>
          obtain rfl := Option.some.inj hEvent
          exact Aside.moves ⟨rfl, rfl, rfl, rfl⟩
      | lose k =>
          obtain rfl := Option.some.inj hEvent
          exact Aside.moves ⟨rfl, rfl, rfl, rfl⟩
    exact ⟨hMoves.inv hInv, hMoves⟩
  crash_inv s s' hInv hCrash := by
    obtain rfl := Option.some.inj hCrash
    exact Moves.inv hInv (Aside.moves ⟨rfl, rfl, rfl, rfl⟩)

theorem promised_moves {cfg : CompactorConfig} {s s' : Archive}
    (hStep : System.Promised (compactors cfg) boundaryProtocol s s') : Moves s s' := by
  cases hStep with
  | idle hEq => exact hEq ▸ (Aside.refl s).moves
  | guarantee me hStep => exact hStep
  | env hStep => exact hStep
  | crash hCrash =>
      obtain rfl := Option.some.inj hCrash
      exact Aside.moves ⟨rfl, rfl, rfl, rfl⟩

/-- Whatever the processes of a dialog trigger, await, close and lose, and in whatever
order: as long as no compaction replaces summaries it has not seen, the boundary
only moves forward, and the summaries cover every message up to it. -/
theorem boundary_moves_forward {cfg : CompactorConfig} {s : Archive} {q r : Pool Archive CompactError}
    (hOrdered : Ordered s.rows) (hCovered : Covered s)
    (hFirst : System.Run (compactors cfg) { st := s } q)
    (hSecond : System.Run (compactors cfg) q r) (hFresh : r.st.stale = false) :
    q.st.boundary ≤ r.st.boundary ∧ Covered q.st ∧ Covered r.st := by
  have hFollows := compactors_follow cfg
  have hStart := System.PoolSafe.initial (ε := CompactError) (P := boundaryProtocol) (s := s)
    ⟨hOrdered, fun _ => hCovered⟩
  have hMiddle := hFirst.sound hFollows hStart
  have hForward : r.st.stale = false → q.st.stale = false ∧ q.st.boundary ≤ r.st.boundary := by
    refine System.Run.preserves hFollows (A := fun t => t.stale = false →
      q.st.stale = false ∧ q.st.boundary ≤ t.boundary) (fun t t' _ hBefore hStep hFresh => ?_)
      hSecond hMiddle fun hFresh => ⟨hFresh, Nat.le_refl _⟩
    obtain ⟨hFresh', hLe, -⟩ := (promised_moves hStep).fresh hFresh
    obtain ⟨hStill, hUntil⟩ := hBefore hFresh'
    exact ⟨hStill, Nat.le_trans hUntil hLe⟩
  obtain ⟨hBefore, hLe⟩ := hForward hFresh
  exact ⟨hLe, hMiddle.1.2 hBefore, (hSecond.sound hFollows hMiddle).1.2 hFresh⟩

/-- `count` steps of a thread. -/
def resumes (thread count : Nat) : List (System.Move (compactors {})) :=
  List.replicate count (.resume thread)

/-- A dialog of three messages, and a compaction that waits for the LLM. -/
def waitsForLlm : List (System.Move (compactors {})) :=
  List.flatten [List.replicate 3 (.event (.append .user "hello")), [.start (.trigger 0)], resumes 0 1,
    [.start (.compact 0 [] "")], resumes 1 4]

/-- Another process has taken over and compacts, too, one message further. -/
def overtakes : List (System.Move (compactors {})) :=
  List.flatten [[.event (.append .user "hello"), .start (.trigger 1)], resumes 2 1,
    [.start (.compact 1 [] "")], resumes 3 8]

theorem boundary_forward_two_compactions :
    ∃ q r, System.Run (compactors {}) { st := {} } q ∧ System.Run (compactors {}) q r ∧
      q.st.boundary = 2 ∧ r.st.boundary = 3 ∧
      q.st.boundary ≤ r.st.boundary ∧ Covered q.st ∧ Covered r.st := by
  have hMoves : ((System.moves (waitsForLlm ++ resumes 1 4) { st := {} }).bind
      fun q => (System.moves overtakes q).map fun r =>
        (q.st.boundary, r.st.boundary, r.st.stale)) = some (2, 3, false) := by
    decide +kernel
  obtain ⟨q, r, hFirst, hSecond, hSeen⟩ := System.Run.exists_of_moves_twice _ _ hMoves
  obtain ⟨hBefore, hAfter, hFresh⟩ := by simpa using hSeen
  refine ⟨q, r, hFirst, hSecond, hBefore, hAfter, ?_⟩
  have hCovered : Covered {} := ⟨fun _ hMem => by simp at hMem, fun _ hMem => by simp at hMem⟩
  exact boundary_moves_forward (s := {}) List.Pairwise.nil hCovered hFirst hSecond hFresh

/-- The first compaction comes back and replaces what the second has stored. -/
theorem boundary_moves_back :
    ∃ q r, System.Run (compactors {}) { st := {} } q ∧ System.Run (compactors {}) q r ∧
      q.st.boundary = 3 ∧ r.st.boundary = 2 := by
  have hMoves : ((System.moves (waitsForLlm ++ overtakes) { st := {} }).bind
      fun q => (System.moves (resumes 1 4) q).map fun r =>
        (q.st.boundary, r.st.boundary)) = some (3, 2) := by
    decide +kernel
  obtain ⟨q, r, hFirst, hSecond, hSeen⟩ := System.Run.exists_of_moves_twice _ _ hMoves
  obtain ⟨hBefore, hAfter⟩ := Prod.mk.inj hSeen
  exact ⟨q, r, hFirst, hSecond, hBefore, hAfter⟩

end Context
end OctoForge
