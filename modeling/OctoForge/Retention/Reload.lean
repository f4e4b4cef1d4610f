import OctoForge.Context.Boundary
import OctoForge.Coop.Zoom
import Mathlib.Data.List.MinMax
import Mathlib.Order.Nat

/-!
# What a sweep leaves of a dialog

The retention sweep deletes old messages while processes append to a dialog and
compact it.  A message behind the boundary of the summaries may go, and the ones
past it are what a process loads again when it starts.

The sweep and the compactors know nothing of each other.  `appended` is read by
nothing: the messages there have ever been.
-/

namespace OctoForge
namespace Retention

open Coop Context
open Co (Spec Triple Atoms)
open Dialog (MessageRole)

/-! ## The messages of a dialog, with a sweep -/

/-- `coalesce(max(seq), 0) + 1`. -/
def nextSeq (rows : List ArchivedMessage) : Nat := (rows.map (·.seq)).foldr max 0 + 1

/-- The rows past a boundary. -/
def past (boundary : Nat) (rows : List ArchivedMessage) : List ArchivedMessage :=
  rows.filter fun row => boundary < row.seq

/-- `list_hot_slice`. -/
def listHotSlice (s : Archive) : List ArchivedMessage := past s.boundary s.rows

structure Swept where
  archive : Archive := {}
  /-- `created_at`, by seq. -/
  createdAt : Nat → Int := fun _ => 0
  appended : List ArchivedMessage := []

namespace Swept

def setArchive (archive : Archive) (s : Swept) : Swept := { s with archive }

/-- `append`, at this time. -/
def append (role : MessageRole) (content : String) (now : Int) (s : Swept) : Swept where
  archive := s.archive.append role content
  createdAt := Function.update s.createdAt (nextSeq s.archive.rows) now
  appended := s.appended ++ [{ seq := nextSeq s.archive.rows, role, content }]

/-- The condition of the `DELETE`.  Without a summary the boundary is `NULL`, and no
seq is at most that. -/
def isDue (cutoff : Int) (s : Swept) (row : ArchivedMessage) : Bool :=
  decide (s.createdAt row.seq < cutoff) && !s.archive.summaries.isEmpty &&
    decide (row.seq ≤ s.archive.boundary)

/-- `_sweep_messages`, for this dialog. -/
def sweepMessages (cutoff : Int) (s : Swept) : Swept :=
  { s with archive := { s.archive with
      rows := s.archive.rows.filter fun row => !s.isDue cutoff row } }

/-- The archive, had nothing ever been deleted from it. -/
def unswept (s : Swept) : Archive := { s.archive with rows := s.appended }

end Swept

/-! ## The compactors, and a sweep now and then -/

/-- What a compactor does, beside the sweeps. -/
abbrev onArchive {α : Type} (c : Work α) : Co Swept CompactError α :=
  Co.zoom Swept.archive Swept.setArchive c

inductive SweptEvent where
  | append (role : MessageRole) (content : String) (now : Int)
  | storeDown (down : Bool)
  | llmDown (down : Bool)
  | lose (k : Nat)
  | sweep (cutoff : Int)

def sweptEvent : SweptEvent → Swept → Option Swept
  | .append role content now, s => some (s.append role content now)
  | .storeDown down, s => some (s.setArchive { s.archive with storeDown := down })
  | .llmDown down, s => some (s.setArchive { s.archive with llmDown := down })
  | .lose k, s => some (s.setArchive (s.archive.setTask k fun task => { task with lost := true }))
  | .sweep cutoff, s => some (s.sweepMessages cutoff)

/-- A crash takes all processes; what is stored stays. -/
def sweptCompactors (cfg : CompactorConfig) : System Swept CompactError where
  Call := CompactorCall
  body call me := onArchive (compactorBody cfg call me)
  Event := SweptEvent
  event := sweptEvent
  crash s := some (s.setArchive { s.archive with tasks := [], running := fun _ => none })

/-! ## Rows by their seqs -/

theorem past_append (boundary : Nat) (rows more : List ArchivedMessage) :
    past boundary (rows ++ more) = past boundary rows ++ past boundary more := List.filter_append ..

theorem mem_past {boundary : Nat} {rows : List ArchivedMessage} {row : ArchivedMessage} :
    row ∈ past boundary rows ↔ row ∈ rows ∧ boundary < row.seq := by
  simp [past]

/-- What is past a later boundary is past an earlier one. -/
theorem past_past {m n : Nat} (hLe : m ≤ n) (rows : List ArchivedMessage) :
    past n (past m rows) = past n rows := by
  simp only [past, List.filter_filter]
  refine List.filter_congr fun row _ => ?_
  simp only [Bool.and_eq_left_iff_imp, decide_eq_true_eq]
  omega

theorem le_of_getLast {rows : List ArchivedMessage} {row last : ArchivedMessage}
    (hOrdered : Ordered rows) (hLast : rows.getLast? = some last) (hMem : row ∈ rows) :
    row.seq ≤ last.seq := by
  obtain ⟨front, rfl⟩ := List.getLast?_eq_some_iff.mp hLast
  rcases List.mem_append.mp hMem with hFront | hHere
  · exact Nat.le_of_lt ((List.pairwise_append.mp hOrdered).2.2 row hFront last
      (List.mem_singleton.mpr rfl))
  · exact Nat.le_of_eq (congrArg _ (List.mem_singleton.mp hHere))

theorem foldr_max_map_le {α : Type} {list : List α} {f : α → Nat} {bound : Nat}
    (hAll : ∀ x ∈ list, f x ≤ bound) : (list.map f).foldr max 0 ≤ bound :=
  List.max_le_of_forall_le (list.map f) bound (by simpa using hAll)

/-- In order, the next seq comes after the last row. -/
theorem nextSeq_of_getLast {rows : List ArchivedMessage} {last : ArchivedMessage}
    (hOrdered : Ordered rows) (hLast : rows.getLast? = some last) :
    nextSeq rows = last.seq + 1 := by
  have hMax := foldr_max_map_le fun row hRow => le_of_getLast hOrdered hLast hRow
  exact Nat.le_antisymm (Nat.succ_le_succ hMax) (seq_lt_next (List.mem_of_getLast? hLast))

/-- The last message of the tail is never compacted. -/
theorem selectCompactSegment_length {tail : List ArchivedMessage} (targetChars : Nat)
    (hTail : tail ≠ []) : (selectCompactSegment tail targetChars).length < tail.length := by
  have hPos : 0 < tail.length := List.length_pos_iff.mpr hTail
  have hFill : (fillSegment targetChars true 0 tail.dropLast).length < tail.length := by
    have hLe := (fillSegment_isPrefix targetChars true 0 tail.dropLast).length_le
    rw [List.length_dropLast] at hLe
    omega
  unfold selectCompactSegment
  generalize fillSegment targetChars true 0 tail.dropLast = segment at hFill
  simp only
  split
  · split
    · split
      · rw [List.length_dropLast]
        omega
      · rw [List.length_append, List.length_singleton]
        omega
    · exact hFill
  · exact hFill

/-- So there is a later message than each one that is. -/
theorem exists_later_of_mem_segment {tail : List ArchivedMessage} {targetChars : Nat}
    {row : ArchivedMessage} (hOrdered : Ordered tail)
    (hMem : row ∈ selectCompactSegment tail targetChars) : ∃ later ∈ tail, row.seq < later.seq := by
  obtain ⟨more, hMore⟩ := selectCompactSegment_isPrefix tail targetChars
  have hTail : tail ≠ [] := by
    rintro rfl
    exact absurd hMem (by rw [(List.append_eq_nil_iff.mp hMore).1]; exact List.not_mem_nil)
  have hLength := selectCompactSegment_length targetChars hTail
  cases more with
  | nil =>
      rw [List.append_nil] at hMore
      exact absurd (congrArg List.length hMore) (Nat.ne_of_lt hLength)
  | cons later more =>
      refine ⟨later, hMore ▸ by simp, ?_⟩
      rw [← hMore] at hOrdered
      exact (List.pairwise_append.mp hOrdered).2.2 row hMem later List.mem_cons_self

/-! ## What holds in every state -/

/-- The last message there has been is still there, every summary ends before it, and
unless a replacement was stale nothing past the boundary is missing and everything up to
it went into a summary. -/
structure Intact (s : Swept) : Prop where
  ordered : Ordered s.appended
  rows : s.archive.rows.Sublist s.appended
  last : s.archive.rows.getLast? = s.appended.getLast?
  reached : ∀ x ∈ s.archive.summaries, ∃ row ∈ s.appended, x.seqTo < row.seq
  hot : s.archive.stale = false → listHotSlice s.archive = listHotSlice s.unswept
  told : s.archive.stale = false → ∀ row ∈ s.appended, row.seq ≤ s.archive.boundary →
    ∃ x ∈ s.archive.summaries, row.seq ∈ x.sources

/-- A step.  As long as the summaries stay, it leaves what is past the boundary where it was. -/
structure Goes (s s' : Swept) : Prop where
  since : s.archive.replaced ≤ s'.archive.replaced
  summaries : s'.archive.replaced = s.archive.replaced → s'.archive.summaries = s.archive.summaries
  hot : s'.archive.replaced = s.archive.replaced →
    ∃ more, listHotSlice s'.archive = listHotSlice s.archive ++ more
  appended : ∀ row ∈ s.appended, row ∈ s'.appended

/-- What a step owes. -/
def Lands (s s' : Swept) : Prop := Intact s' ∧ Goes s s'

theorem boundary_eq {s t : Archive} (hSummaries : t.summaries = s.summaries) :
    t.boundary = s.boundary := congrArg maxSeqTo hSummaries

/-- A step of the archive that leaves what is stored alone. -/
theorem lands_aside {s : Swept} {archive : Archive} (hIntact : Intact s)
    (hAside : Aside s.archive archive) : Lands s (s.setArchive archive) := by
  have hBoundary : archive.boundary = s.archive.boundary := boundary_eq hAside.summaries
  have hHot : listHotSlice archive = listHotSlice s.archive := by
    rw [listHotSlice, hBoundary, hAside.rows, listHotSlice]
  refine ⟨⟨hIntact.ordered, hAside.rows ▸ hIntact.rows, hAside.rows ▸ hIntact.last,
    hAside.summaries ▸ hIntact.reached, fun hFresh => ?_, fun hFresh row hMem hTo => ?_⟩,
    ⟨Nat.le_of_eq hAside.replaced.symm, fun _ => hAside.summaries,
      fun _ => ⟨[], by rw [List.append_nil]; exact hHot⟩, fun _ hMem => hMem⟩⟩
  · have hUnswept : listHotSlice (s.setArchive archive).unswept = listHotSlice s.unswept :=
      congrArg (fun boundary => past boundary s.appended) hBoundary
    exact (hHot.trans (hIntact.hot (hAside.stale ▸ hFresh))).trans hUnswept.symm
  · obtain ⟨x, hX, hSource⟩ := hIntact.told (hAside.stale ▸ hFresh) row hMem (hBoundary ▸ hTo)
    exact ⟨x, hAside.summaries ▸ hX, hSource⟩

theorem lands_refl {s : Swept} (hIntact : Intact s) : Lands s s :=
  lands_aside hIntact (Aside.refl s.archive)

/-- The boundary is before the last message. -/
theorem Intact.boundary_lt {s : Swept} (hIntact : Intact s) {last : ArchivedMessage}
    (hLast : s.appended.getLast? = some last) (hSome : s.archive.summaries ≠ []) :
    s.archive.boundary < last.seq := by
  have hEach : ∀ x ∈ s.archive.summaries, x.seqTo < last.seq := fun x hX =>
    (hIntact.reached x hX).elim fun row hRow =>
      Nat.lt_of_lt_of_le hRow.2 (le_of_getLast hIntact.ordered hLast hRow.1)
  obtain ⟨x, hX⟩ := List.exists_mem_of_ne_nil _ hSome
  have hBoundary : s.archive.boundary ≤ last.seq - 1 :=
    foldr_max_map_le fun y hY => Nat.le_sub_one_of_lt (hEach y hY)
  have hPos := hEach x hX
  omega

/-! ## Appending and sweeping -/

/-- A seq is never given twice, whatever has been deleted. -/
theorem Intact.nextSeq_eq {s : Swept} (hIntact : Intact s) :
    nextSeq s.archive.rows = nextSeq s.appended := by
  have hOrdered : Ordered s.archive.rows := hIntact.ordered.sublist hIntact.rows
  cases hLast : s.appended.getLast? with
  | none =>
      rw [List.getLast?_eq_none_iff.mp hLast,
        List.getLast?_eq_none_iff.mp (hIntact.last.trans hLast)]
  | some last =>
      rw [nextSeq_of_getLast hOrdered (hIntact.last.trans hLast),
        nextSeq_of_getLast hIntact.ordered hLast]

theorem lands_append {s : Swept} (hIntact : Intact s) (role : MessageRole) (content : String)
    (now : Int) : Lands s (s.append role content now) := by
  have hNew : ∀ row ∈ s.appended, row.seq < nextSeq s.archive.rows := fun row hMem =>
    hIntact.nextSeq_eq ▸ seq_lt_next hMem
  have hBoundary : s.archive.boundary < nextSeq s.archive.rows := by
    refine Nat.lt_succ_of_le (foldr_max_map_le fun x hX => ?_)
    obtain ⟨row, hRow, hLt⟩ := hIntact.reached x hX
    exact Nat.le_of_lt_succ (Nat.lt_trans hLt (hNew row hRow))
  refine ⟨⟨?_, hIntact.rows.append (List.Sublist.refl _), ?_, fun x hX => ?_, fun hFresh => ?_,
    fun hFresh row hMem hTo => ?_⟩, ⟨Nat.le_refl _, fun _ => rfl, fun _ => ⟨_, past_append ..⟩,
    fun _ hMem => List.mem_append_left _ hMem⟩⟩
  · refine List.pairwise_append.mpr ⟨hIntact.ordered, List.pairwise_singleton _ _, ?_⟩
    intro row hMem new hLast
    obtain rfl := List.mem_singleton.mp hLast
    exact hNew row hMem
  · exact (List.getLast?_concat ..).trans (List.getLast?_concat ..).symm
  · obtain ⟨row, hRow, hLt⟩ := hIntact.reached x hX
    exact ⟨row, List.mem_append_left _ hRow, hLt⟩
  · exact (past_append ..).trans
      ((congrArg (· ++ _) (hIntact.hot hFresh)).trans (past_append ..).symm)
  · rcases List.mem_append.mp hMem with hOld | hHere
    · exact hIntact.told hFresh row hOld hTo
    · obtain rfl := List.mem_singleton.mp hHere
      exact absurd hTo (Nat.not_le_of_lt hBoundary)

/-- No message past the boundary is due. -/
theorem past_sweepMessages (cutoff : Int) (s : Swept) :
    listHotSlice (s.sweepMessages cutoff).archive = listHotSlice s.archive := by
  refine (List.filter_filter ..).trans (List.filter_congr fun row _ => ?_)
  by_cases hPast : s.archive.boundary < row.seq
  · have hNot : ¬ row.seq ≤ s.archive.boundary := Nat.not_le_of_lt hPast
    have hStays : s.isDue cutoff row = false := by simp [Swept.isDue, hNot]
    rw [hStays, Bool.not_false, Bool.and_true]
    rfl
  · have hNot : decide (s.archive.boundary < row.seq) = false := decide_eq_false hPast
    exact (congrArg (· && !s.isDue cutoff row) hNot).trans hNot.symm

theorem lands_sweepMessages {s : Swept} (hIntact : Intact s) (cutoff : Int) :
    Lands s (s.sweepMessages cutoff) := by
  have hHot := past_sweepMessages cutoff s
  refine ⟨⟨hIntact.ordered, List.filter_sublist.trans hIntact.rows, ?_, hIntact.reached,
    fun hFresh => hHot.trans (hIntact.hot hFresh), hIntact.told⟩, ⟨Nat.le_refl _, fun _ => rfl,
    fun _ => ⟨[], by rw [List.append_nil]; exact hHot⟩, fun _ hMem => hMem⟩⟩
  refine Eq.trans ?_ hIntact.last
  cases hLast : s.archive.rows.getLast? with
  | none =>
      show (s.archive.rows.filter _).getLast? = none
      rw [List.getLast?_eq_none_iff.mp hLast]
      rfl
  | some last =>
      have hStays : s.isDue cutoff last = false := by
        by_cases hNone : s.archive.summaries = []
        · simp [Swept.isDue, hNone]
        · have hNot := Nat.not_le_of_lt (hIntact.boundary_lt (hIntact.last ▸ hLast) hNone)
          simp [Swept.isDue, hNot]
      obtain ⟨front, hRows⟩ := List.getLast?_eq_some_iff.mp hLast
      show (s.archive.rows.filter _).getLast? = some last
      rw [hRows, List.filter_append, List.filter_singleton, hStays]
      exact List.getLast?_concat ..

/-! ## Replacing the summaries -/

/-- What a compaction saw, unless it was overtaken since: where the boundary is, and that its
segment comes right behind it.  However that is, there is a later message than each of those. -/
structure Saw (boundary version : Nat) (segment : List ArchivedMessage) (s : Swept) : Prop where
  since : version ≤ s.archive.replaced
  reaches : s.archive.replaced = version →
    s.archive.boundary = boundary ∧ ∃ more, listHotSlice s.archive = segment ++ more
  later : ∀ row ∈ segment, ∃ later ∈ s.appended, row.seq < later.seq

theorem Saw.goes {boundary version : Nat} {segment : List ArchivedMessage} {s s' : Swept}
    (hSaw : Saw boundary version segment s) (hGoes : Goes s s') :
    Saw boundary version segment s' := by
  have hSince := hSaw.since
  have hOnward := hGoes.since
  refine ⟨by omega, fun hEq => ?_, fun row hMem => ?_⟩
  · have hSame : s'.archive.replaced = s.archive.replaced := by omega
    obtain ⟨hBoundary, more, hMore⟩ := hSaw.reaches (hSame ▸ hEq)
    obtain ⟨new, hNew⟩ := hGoes.hot hSame
    refine ⟨(boundary_eq (hGoes.summaries hSame)).trans hBoundary, more ++ new, ?_⟩
    rw [hNew, hMore, List.append_assoc]
  · obtain ⟨later, hLater, hLt⟩ := hSaw.later row hMem
    exact ⟨later, hGoes.appended later hLater, hLt⟩

theorem merges_goes {version : Nat} {previous : List DialogueSummary} {s s' : Swept}
    (hMerges : Merges version previous s.archive) (hGoes : Goes s s') :
    Merges version previous s'.archive := by
  have hSince := hMerges.since
  have hOnward := hGoes.since
  refine ⟨by omega, fun hEq x => ?_⟩
  have hSame : s'.archive.replaced = s.archive.replaced := by omega
  rw [hGoes.summaries hSame]
  exact hMerges.merges (hSame ▸ hEq) x

theorem lands_replaceForDialog {s : Swept} {boundary version : Nat} {first : ArchivedMessage}
    {rest : List ArchivedMessage} {previous : List DialogueSummary} (hIntact : Intact s)
    (hSaw : Saw boundary version (first :: rest) s) (hMerges : Merges version previous s.archive)
    (topics : List String) (content : String) :
    Lands s (s.setArchive (s.archive.replaceForDialog version
      (mergedSummary topics content first rest previous))) := by
  generalize hLast : (first :: rest).getLast (List.cons_ne_nil first rest) = last
  have hLastMem : last ∈ first :: rest := hLast ▸ List.getLast_mem _
  have hTo : (mergedSummary topics content first rest previous).seqTo = last.seq := by
    rw [mergedSummary, hLast]
  -- The merged summary is the only one, so the boundary is where it ends.
  have hMax : (s.archive.replaceForDialog version
      (mergedSummary topics content first rest previous)).boundary = last.seq := by
    show max (mergedSummary topics content first rest previous).seqTo 0 = last.seq
    rw [hTo]
    exact Nat.max_zero _
  have hReplaced : s.archive.replaced < s.archive.replaced + 1 := Nat.lt_succ_self _
  -- Unless it is stale, the segment is what comes behind the boundary.
  have hSeen : (s.archive.replaceForDialog version
      (mergedSummary topics content first rest previous)).stale = false →
      s.archive.stale = false ∧ s.archive.replaced = version := fun hFresh => by
    simpa [Archive.replaceForDialog] using hFresh
  have hSegment : s.archive.replaced = version →
      ∀ row ∈ first :: rest, s.archive.boundary < row.seq := by
    intro hVersion row hMem
    obtain ⟨-, more, hMore⟩ := hSaw.reaches hVersion
    exact (mem_past.mp (hMore ▸ List.mem_append_left more hMem : row ∈ listHotSlice s.archive)).2
  refine ⟨⟨hIntact.ordered, hIntact.rows, hIntact.last, fun x hX => ?_, fun hFresh => ?_,
    fun hFresh row hMem hUpTo => ?_⟩, ⟨Nat.le_of_lt hReplaced,
    fun hSame => absurd hSame (Nat.ne_of_gt hReplaced),
    fun hSame => absurd hSame (Nat.ne_of_gt hReplaced), fun _ hMem => hMem⟩⟩
  · obtain rfl := List.mem_singleton.mp hX
    exact hTo ▸ hSaw.later last hLastMem
  · obtain ⟨hBefore, hVersion⟩ := hSeen hFresh
    have hForward := Nat.le_of_lt (hSegment hVersion last hLastMem)
    have hPast : past last.seq s.archive.rows = past last.seq s.appended := by
      rw [← past_past hForward, ← past_past hForward s.appended]
      exact congrArg (past last.seq) (hIntact.hot hBefore)
    exact ((congrArg (fun boundary => past boundary s.archive.rows) hMax).trans hPast).trans
      (congrArg (fun boundary => past boundary s.appended) hMax).symm
  · obtain ⟨hBefore, hVersion⟩ := hSeen hFresh
    refine ⟨_, List.mem_singleton.mpr rfl, List.mem_append.mpr ?_⟩
    by_cases hOld : row.seq ≤ s.archive.boundary
    · -- an old message: one of the summaries that were merged is made of it
      obtain ⟨x, hX, hSource⟩ := hIntact.told hBefore row hMem hOld
      exact Or.inl (List.mem_flatMap.mpr ⟨x, (hMerges.merges hVersion x).mpr hX, hSource⟩)
    · refine Or.inr (List.mem_map.mpr ⟨row, ?_, rfl⟩)
      obtain ⟨-, more, hMore⟩ := hSaw.reaches hVersion
      have hHot : row ∈ listHotSlice s.unswept := mem_past.mpr ⟨hMem, Nat.lt_of_not_le hOld⟩
      rw [← hIntact.hot hBefore, hMore] at hHot
      rcases List.mem_append.mp hHot with hHere | hLater
      · exact hHere
      · -- what comes behind the segment is past its last message
        have hOrdered : Ordered ((first :: rest) ++ more) :=
          hMore ▸ (hIntact.ordered.sublist hIntact.rows).filter _
        have hPast := (List.pairwise_append.mp hOrdered).2.2 last hLastMem row hLater
        have hRow : row.seq ≤ last.seq := hMax ▸ hUpTo
        omega

/-! ## The protocol -/

def sweptProtocol : Protocol Swept := Protocol.ofStep Intact Goes

variable {me : Nat}

theorem kept_saw (boundary version : Nat) (segment : List ArchivedMessage) :
    sweptProtocol.Kept (Saw boundary version segment) :=
  Protocol.kept_ofStep fun _ _ _ hSaw hGoes => hSaw.goes hGoes

theorem kept_sawMerges (boundary version : Nat) (segment : List ArchivedMessage)
    (previous : List DialogueSummary) :
    sweptProtocol.Kept fun s =>
      Saw boundary version segment s ∧ Merges version previous s.archive :=
  Protocol.kept_ofStep fun _ _ _ hBoth hGoes => ⟨hBoth.1.goes hGoes, merges_goes hBoth.2 hGoes⟩

theorem atoms_aside {α : Type} {c : Work α} (hSteps : Co.Steps Aside c) (A : Swept → Prop) :
    Atoms sweptProtocol me A (onArchive c) := by
  have hZoom : Co.Steps (fun s s' => ∃ archive, Aside s.archive archive ∧ s' = s.setArchive archive)
      (onArchive c) := hSteps.zoom fun t s hAside => ⟨s, hAside, rfl⟩
  refine hZoom.atoms fun s s' hIntact _ hStep => ?_
  obtain ⟨archive, hAside, rfl⟩ := hStep
  exact lands_aside hIntact hAside

theorem spec_aside {α : Type} {c : Work α} (hSteps : Co.Steps Aside c) :
    Spec sweptProtocol me (fun _ => True) (onArchive c) fun _ _ => True :=
  (atoms_aside hSteps _).spec (Protocol.Kept.true _)

theorem spec_bind {α β : Type} {A : Swept → Prop} {B : α → Swept → Prop} {C : β → Swept → Prop}
    {c : Work α} {f : α → Work β} (hFirst : Spec sweptProtocol me A (onArchive c) B)
    (hRest : ∀ value, Spec sweptProtocol me (B value) (onArchive (f value)) C) :
    Spec sweptProtocol me A (onArchive (c.bind f)) C := by
  rw [onArchive, Co.zoom_bind]
  exact hFirst.bind hRest

/-! ## The compaction -/

theorem spec_select {α : Type} {A : Swept → Prop} {B : α → Swept → Prop} (k : Nat)
    {f : Archive → α} (hKept : sweptProtocol.Kept A)
    (hRead : ∀ s, Intact s → A s → B (f s.archive) s) :
    Spec sweptProtocol me A (onArchive (select k f)) B := by
  rw [onArchive, select, Co.zoom_attempt]
  refine Co.triple_attempt (hKept.stable me) fun s hIntact hA => ?_
  obtain ⟨hSame, hGoes⟩ := lands_refl hIntact
  split
  · exact ⟨hSame, hGoes, fun _ hEq => by simp at hEq, fun _ _ => trivial⟩
  · split
    · exact ⟨hSame, hGoes, fun _ hEq => by simp at hEq, fun _ _ => trivial⟩
    · refine ⟨hSame, hGoes, fun value hEq => ?_, fun _ _ => trivial⟩
      obtain rfl := Except.ok.inj hEq
      exact hRead s hIntact hA

theorem spec_complete {A : Swept → Prop} (k : Nat) (hKept : sweptProtocol.Kept A) :
    Spec sweptProtocol me A (onArchive (complete k)) fun _ => A := by
  rw [onArchive, complete, Co.zoom_attempt]
  refine Co.triple_attempt (hKept.stable me) fun s hIntact hA => ?_
  obtain ⟨hSame, hGoes⟩ := lands_refl hIntact
  split
  · exact ⟨hSame, hGoes, fun _ hEq => by simp at hEq, fun _ _ => trivial⟩
  · split
    · exact ⟨hSame, hGoes, fun _ hEq => by simp at hEq, fun _ _ => trivial⟩
    · exact ⟨hSame, hGoes, fun _ _ => hA, fun _ _ => trivial⟩

theorem spec_replace {A : Swept → Prop} (k version : Nat) (summary : DialogueSummary)
    (hKept : sweptProtocol.Kept A) (hReplace : ∀ s, Intact s → A s →
      Lands s (s.setArchive (s.archive.replaceForDialog version summary))) :
    Spec sweptProtocol me A (onArchive (replace k version summary)) fun _ _ => True := by
  refine spec_bind (spec_select (B := fun _ => A) k hKept fun _ _ hA => hA) fun _ => ?_
  rw [onArchive, Co.zoom_attempt]
  refine Co.triple_attempt (hKept.stable me) fun s hIntact hA => ?_
  obtain ⟨hSame, hGoes⟩ := lands_refl hIntact
  obtain ⟨hReplaced, hReplaces⟩ := hReplace s hIntact hA
  split
  · show Intact (Swept.setArchive (ite _ _ _) s) ∧ Goes s (Swept.setArchive (ite _ _ _) s) ∧ _
    split
    · exact ⟨hSame, hGoes, fun _ _ => trivial, fun _ _ => trivial⟩
    · exact ⟨hReplaced, hReplaces, fun _ _ => trivial, fun _ _ => trivial⟩
  · split
    · exact ⟨hSame, hGoes, fun _ _ => trivial, fun _ _ => trivial⟩
    · exact ⟨hReplaced, hReplaces, fun _ _ => trivial, fun _ _ => trivial⟩

theorem spec_compact (cfg : CompactorConfig) (topics : List String) (content : String) (k : Nat) :
    Spec sweptProtocol me (fun _ => True) (onArchive (compact cfg topics content k))
      fun _ _ => True := by
  refine spec_bind (spec_select (B := fun read => Saw read.1 read.2 []) k (Protocol.Kept.true _)
    fun s _ _ => ⟨Nat.le_refl _, fun _ => ⟨rfl, _, rfl⟩, fun _ hMem => by simp at hMem⟩)
    fun read => ?_
  obtain ⟨boundary, version⟩ := read
  refine spec_bind (spec_select (B := fun tail => Saw boundary version
    (selectCompactSegment tail cfg.compactTargetChars)) k (kept_saw boundary version [])
    fun s hIntact hSaw => ⟨hSaw.since, fun hEq => ?_, fun row hMem => ?_⟩) fun tail => ?_
  · -- what is compacted is the front of the messages behind the boundary
    obtain ⟨hBoundary, -⟩ := hSaw.reaches hEq
    obtain ⟨more, hMore⟩ := (selectCompactSegment_isPrefix _ cfg.compactTargetChars).trans
      (List.take_prefix cfg.segmentFetchLimit (past boundary s.archive.rows))
    exact ⟨hBoundary, more, by rw [listHotSlice, hBoundary]; exact hMore.symm⟩
  · have hTail : (Archive.tailAfter boundary cfg.segmentFetchLimit s.archive).Sublist s.appended :=
      ((List.take_sublist _ _).trans List.filter_sublist).trans hIntact.rows
    obtain ⟨later, hLater, hLt⟩ :=
      exists_later_of_mem_segment (hIntact.ordered.sublist hTail) hMem
    exact ⟨later, hTail.subset hLater, hLt⟩
  · cases hSegment : selectCompactSegment tail cfg.compactTargetChars with
    | nil => exact Co.triple_done fun _ _ _ => trivial
    | cons first rest =>
        refine spec_bind (spec_select (B := fun previous s =>
          Saw boundary version (first :: rest) s ∧ Merges version previous s.archive) k
          (kept_saw boundary version (first :: rest))
          fun s _ hSaw => ⟨hSaw, hSaw.since, fun _ x => List.mem_mergeSort⟩) fun previous => ?_
        have hKept := kept_sawMerges boundary version (first :: rest) previous
        refine spec_bind (spec_complete k hKept) fun _ => ?_
        refine spec_bind (spec_select (B := fun _ s => Saw boundary version (first :: rest) s ∧
          Merges version previous s.archive) k hKept fun _ _ hBoth => hBoth) fun _ => ?_
        exact spec_replace k version _ hKept fun s hIntact hBoth =>
          lands_replaceForDialog hIntact hBoth.1 hBoth.2 topics content

theorem spec_compactTask (cfg : CompactorConfig) (topics : List String) (content : String)
    (k : Nat) :
    Spec sweptProtocol me (fun _ => True) (onArchive (compactTask cfg topics content k))
      fun _ _ => True := by
  refine spec_bind (B := fun _ _ => True) (spec_aside
    (Co.atoms_blockUntil fun s _ _ _ => ⟨trivial, aside_setTask _ _ s⟩)) fun _ => ?_
  refine spec_bind (B := fun _ _ => True) ?_ fun error => ?_
  · rw [onArchive, Co.zoom_tryCatch]
    refine Triple.tryCatch (spec_bind (spec_compact cfg topics content k)
      fun _ => Co.triple_done fun _ _ _ => trivial) fun _ _ => Co.triple_done fun _ _ _ => trivial
  refine spec_bind (B := fun _ _ => True) (spec_aside
    (Co.atoms_modify fun s _ _ _ => ⟨trivial, aside_setTask _ _ s⟩)) fun _ => ?_
  exact spec_aside (Co.atoms_modify fun s _ _ _ => ⟨trivial, aside_onCompactDone k s⟩)

/-! ## Every run -/

theorem spec_body (cfg : CompactorConfig) (call : CompactorCall) :
    Spec sweptProtocol me (fun _ => True) (onArchive (compactorBody cfg call me))
      fun _ _ => True := by
  cases call with
  | trigger node =>
      exact spec_aside (Co.atoms_modify fun s _ _ _ => ⟨trivial, aside_startCompact node s⟩)
  | compactNow node =>
      exact spec_aside (Atoms.bind (steps_compactNow node) fun _ => Co.atoms_done _)
  | aclose node => exact spec_aside (steps_aclose node)
  | compact k topics content => exact spec_compactTask cfg topics content k

theorem sweptCompactors_follow (cfg : CompactorConfig) :
    (sweptCompactors cfg).Follows sweptProtocol where
  body_safe call me s hIntact :=
    (spec_body cfg call s hIntact trivial).mono fun _ _ _ => trivial
  event_env event s s' hIntact hEvent := by
    cases event with
    | append role content now =>
        obtain rfl := Option.some.inj hEvent
        exact lands_append hIntact role content now
    | storeDown down =>
        obtain rfl := Option.some.inj hEvent
        exact lands_aside hIntact ⟨rfl, rfl, rfl, rfl⟩
    | llmDown down =>
        obtain rfl := Option.some.inj hEvent
        exact lands_aside hIntact ⟨rfl, rfl, rfl, rfl⟩
    | lose k =>
        obtain rfl := Option.some.inj hEvent
        exact lands_aside hIntact ⟨rfl, rfl, rfl, rfl⟩
    | sweep cutoff =>
        obtain rfl := Option.some.inj hEvent
        exact lands_sweepMessages hIntact cutoff
  crash_inv s s' hIntact hCrash := by
    obtain rfl := Option.some.inj hCrash
    have hAside : Aside s.archive { s.archive with tasks := [], running := fun _ => none } :=
      ⟨rfl, rfl, rfl, rfl⟩
    exact (lands_aside hIntact hAside).1

theorem intact_empty : Intact {} where
  ordered := List.Pairwise.nil
  rows := List.Sublist.refl _
  last := rfl
  reached _ hMem := by simp at hMem
  hot _ := rfl
  told _ _ hMem := by simp at hMem

theorem intact_of_run {cfg : CompactorConfig} {q : Pool Swept CompactError}
    (hRun : System.Run (sweptCompactors cfg) { st := {} } q) : Intact q.st :=
  (hRun.sound (sweptCompactors_follow cfg) (System.PoolSafe.initial intact_empty)).1

/-- However sweeps, compactions, messages and crashes come, no seq is given a second time.  As
long as no compaction replaces summaries it has not seen, a process loads what it would load had
nothing been deleted, and every message that it no longer loads is in a summary. -/
theorem reload_of_sweeps {cfg : CompactorConfig} {q : Pool Swept CompactError}
    (hRun : System.Run (sweptCompactors cfg) { st := {} } q) :
    nextSeq q.st.archive.rows = nextSeq q.st.unswept.rows ∧
    (q.st.archive.stale = false →
      listHotSlice q.st.archive = listHotSlice q.st.unswept ∧
      ∀ row ∈ q.st.appended, row ∉ listHotSlice q.st.archive →
        ∃ x ∈ q.st.archive.summaries, row.seq ∈ x.sources) := by
  have hIntact := intact_of_run hRun
  refine ⟨hIntact.nextSeq_eq, fun hFresh => ⟨hIntact.hot hFresh, fun row hMem hNot => ?_⟩⟩
  refine hIntact.told hFresh row hMem (Nat.le_of_not_lt fun hPast => hNot ?_)
  rw [hIntact.hot hFresh]
  exact mem_past.mpr ⟨hMem, hPast⟩

/-- `count` steps of a thread. -/
def sweptResumes (thread count : Nat) : List (System.Move (sweptCompactors {})) :=
  List.replicate count (.resume thread)

/-- Three old messages, and a compaction that waits for the LLM. -/
def oldMessages : List (System.Move (sweptCompactors {})) :=
  List.flatten [List.replicate 3 (.event (.append .user "hello" 0)), [.start (.trigger 0)],
    sweptResumes 0 1, [.start (.compact 0 [] "")], sweptResumes 1 4]

/-- Another process has taken over and compacts, too, one message further. -/
def newerCompaction : List (System.Move (sweptCompactors {})) :=
  List.flatten [[.event (.append .user "hello" 1), .start (.trigger 1)], sweptResumes 2 1,
    [.start (.compact 1 [] "")], sweptResumes 3 8]

/-- The compaction returns before a sweep. -/
def sweepsAfter : List (System.Move (sweptCompactors {})) :=
  List.flatten [oldMessages, sweptResumes 1 4, [.event (.sweep 1)]]

/-- The compaction returns after a newer one and a sweep. -/
def sweepsBefore : List (System.Move (sweptCompactors {})) :=
  List.flatten [oldMessages, newerCompaction, [.event (.sweep 1)], sweptResumes 1 4]

theorem reload_of_sweeps_two_deleted :
    ∃ q, System.Run (sweptCompactors {}) { st := {} } q ∧
      q.st.archive.rows.map (·.seq) = [3] ∧ q.st.unswept.rows.map (·.seq) = [1, 2, 3] ∧
      nextSeq q.st.archive.rows = nextSeq q.st.unswept.rows ∧
      listHotSlice q.st.archive = listHotSlice q.st.unswept ∧
      ∀ row ∈ q.st.appended, row ∉ listHotSlice q.st.archive →
        ∃ x ∈ q.st.archive.summaries, row.seq ∈ x.sources := by
  have hMoves : (System.moves sweepsAfter { st := {} }).map (fun q =>
      (q.st.archive.rows.map (·.seq), q.st.unswept.rows.map (·.seq), q.st.archive.stale)) =
      some ([3], [1, 2, 3], false) := by
    decide +kernel
  obtain ⟨q, hRun, hSeen⟩ := System.Run.exists_of_moves _ hMoves
  obtain ⟨hRows, hAll, hFresh⟩ := by simpa using hSeen
  obtain ⟨hNext, hReload⟩ := reload_of_sweeps hRun
  obtain ⟨hHot, hTold⟩ := hReload hFresh
  exact ⟨q, hRun, by simpa using hRows, by simpa using hAll, hNext, hHot, hTold⟩

/-- A compaction that was overtaken puts the boundary back; what has been deleted in between is
neither in the dialog nor in a summary. -/
theorem message_lost_of_stale :
    ∃ q, System.Run (sweptCompactors {}) { st := {} } q ∧ ∃ row ∈ q.st.appended,
      row ∉ q.st.archive.rows ∧ ∀ x ∈ q.st.archive.summaries, row.seq ∉ x.sources := by
  have hMoves : (System.moves sweepsBefore { st := {} }).map (fun q =>
      decide (∃ row ∈ q.st.appended, row ∉ q.st.archive.rows ∧
        ∀ x ∈ q.st.archive.summaries, row.seq ∉ x.sources)) = some true := by
    decide +kernel
  obtain ⟨q, hRun, hLost⟩ := System.Run.exists_of_moves _ hMoves
  exact ⟨q, hRun, of_decide_eq_true hLost⟩

end Retention
end OctoForge
