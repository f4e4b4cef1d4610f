import Mathlib.Algebra.GroupWithZero.Nat
import OctoForge.Context.Boundary

/-!
# The segment of a compaction

Three rules meet where a segment ends: it stays within a number of characters, it leaves the
last message of the window alone, and it does not come between an interrupted answer and its
note.  The window is the front of what is past the boundary, so a pair may also be cut by the
window.
-/

namespace OctoForge
namespace Context

/-- The size of a segment. -/
def contentChars (segment : List ArchivedMessage) : Nat :=
  (segment.map fun m => m.content.length).sum

variable {targetChars : Nat} {tail : List ArchivedMessage}

/-- After the first message, only what fits is taken. -/
theorem contentChars_fillSegment (targetChars total : Nat) (tail : List ArchivedMessage) :
    fillSegment targetChars false total tail = [] ∨
      total + contentChars (fillSegment targetChars false total tail) ≤ targetChars := by
  induction tail generalizing total with
  | nil => exact .inl rfl
  | cons m rest ih =>
      unfold fillSegment
      split
      · exact .inl rfl
      · rename_i hFits
        have hFits : total + m.content.length ≤ targetChars := by simpa using hFits
        refine .inr ?_
        have hSum : ∀ segment, contentChars (m :: segment) =
            m.content.length + contentChars segment := by simp [contentChars]
        rw [hSum]
        rcases ih (total + m.content.length) with hNil | hLe
        · rw [hNil]
          simpa [contentChars] using hFits
        · omega

/-- The first message is always taken. -/
theorem fillSegment_first (m : ArchivedMessage) (rest : List ArchivedMessage) :
    fillSegment targetChars true 0 (m :: rest) =
      m :: fillSegment targetChars false m.content.length rest := by
  simp [fillSegment]

/-- What the loop takes is within the target, or the first message alone. -/
theorem fits_fillSegment (targetChars : Nat) (tail : List ArchivedMessage) :
    contentChars (fillSegment targetChars true 0 tail) ≤ targetChars ∨
      fillSegment targetChars true 0 tail = tail.take 1 := by
  cases tail with
  | nil => exact .inl (Nat.zero_le _)
  | cons m rest =>
      rw [fillSegment_first]
      rcases contentChars_fillSegment targetChars m.content.length rest with
        hNil | hLe
      · exact .inr (by rw [hNil, List.take_succ_cons, List.take_zero])
      · exact .inl (by simpa [contentChars] using hLe)

/-- How a segment comes about from what the loop has taken. -/
inductive Cut (tail taken : List ArchivedMessage) : List ArchivedMessage → Prop
  /-- The cut is not within a pair. -/
  | here (hWhole : ∀ a b, taken.getLast? = some a → tail[taken.length]? = some b →
      isSplitPair a b = false) : Cut tail taken taken
  /-- The note is the message that is kept: the answer stays with it. -/
  | before {a b : ArchivedMessage} (hLast : taken.getLast? = some a)
      (hNext : tail[taken.length]? = some b) (hPair : isSplitPair a b = true)
      (hEnd : taken.length + 1 = tail.length) : Cut tail taken taken.dropLast
  | behind {a b : ArchivedMessage} (hLast : taken.getLast? = some a)
      (hNext : tail[taken.length]? = some b) (hPair : isSplitPair a b = true)
      (hMore : taken.length + 1 ≠ tail.length) : Cut tail taken (taken ++ [b])

theorem cut_selectCompactSegment (tail : List ArchivedMessage) (targetChars : Nat) :
    Cut tail (fillSegment targetChars true 0 tail.dropLast)
      (selectCompactSegment tail targetChars) := by
  unfold selectCompactSegment
  generalize fillSegment targetChars true 0 tail.dropLast = taken
  simp only
  split
  · rename_i a b hLast hNext
    split
    · rename_i hPair
      split
      · rename_i hEnd
        exact .before hLast hNext hPair hEnd
      · rename_i hMore
        exact .behind hLast hNext hPair hMore
    · rename_i hWhole
      refine .here fun a' b' hLast' hNext' => ?_
      obtain rfl := Option.some.inj (hLast.symm.trans hLast')
      obtain rfl := Option.some.inj (hNext.symm.trans hNext')
      simpa using hWhole
  · rename_i hNone
    exact .here fun a b hLast hNext => absurd hNext (hNone a b hLast)

/-- The two sides of a pair are an answer and a note. -/
theorem roles_of_isSplitPair {a b : ArchivedMessage} (hPair : isSplitPair a b = true) :
    a.role = .assistant ∧ b.role = .system := by
  simp only [isSplitPair, Bool.and_eq_true, decide_eq_true_eq] at hPair
  exact ⟨hPair.1.1, hPair.1.2⟩

/-- The last message of the window is never taken. -/
theorem selectCompactSegment_prefix_dropLast (tail : List ArchivedMessage) (targetChars : Nat) :
    selectCompactSegment tail targetChars <+: tail.dropLast := by
  have hTaken := fillSegment_isPrefix targetChars true 0 tail.dropLast
  have hCut := cut_selectCompactSegment tail targetChars
  generalize fillSegment targetChars true 0 tail.dropLast = taken at hTaken hCut
  generalize selectCompactSegment tail targetChars = segment at hCut
  cases hCut with
  | here hWhole => exact hTaken
  | before hLast hNext hPair hEnd => exact (List.dropLast_prefix taken).trans hTaken
  | behind hLast hNext hPair hMore =>
      -- the note is not the last message, so it is the next of the others
      rename_i a b
      have hBound := (List.getElem?_eq_some_iff.mp hNext).1
      have hNote : tail.dropLast[taken.length]? = some b := by
        rw [List.getElem?_dropLast, if_pos (by omega), hNext]
      obtain ⟨more, hMoreEq⟩ := hTaken
      rw [← hMoreEq, List.getElem?_append_right (Nat.le_refl _), Nat.sub_self] at hNote
      rw [← hMoreEq]
      cases more with
      | nil => simp at hNote
      | cons next more =>
          obtain rfl := Option.some.inj hNote
          exact ⟨more, by simp⟩

/-- Of three messages, one is taken. -/
theorem selectCompactSegment_ne_nil (hThree : 3 ≤ tail.length) :
    selectCompactSegment tail targetChars ≠ [] := by
  have hCut := cut_selectCompactSegment tail targetChars
  obtain ⟨m, rest, hTail⟩ : ∃ m rest, tail.dropLast = m :: rest := by
    cases hDrop : tail.dropLast with
    | nil =>
        have hLength : tail.dropLast.length = 0 := by rw [hDrop]; rfl
        rw [List.length_dropLast] at hLength
        omega
    | cons m rest => exact ⟨m, rest, rfl⟩
  rw [hTail, fillSegment_first] at hCut
  generalize fillSegment targetChars false m.content.length rest = others at hCut
  generalize selectCompactSegment tail targetChars = segment at hCut
  cases hCut with
  | here hWhole => simp
  | before hLast hNext hPair hEnd =>
      -- all but the note had been taken: that is more than the answer
      cases others with
      | nil =>
          simp only [List.length_cons, List.length_nil] at hEnd
          omega
      | cons next more => simp
  | behind hLast hNext hPair hMore => simp

/-- A segment does not end within a pair. -/
theorem isSplitPair_selectCompactSegment {a b : ArchivedMessage}
    (hLast : (selectCompactSegment tail targetChars).getLast? = some a)
    (hNext : tail[(selectCompactSegment tail targetChars).length]? = some b) :
    isSplitPair a b = false := by
  have hTaken := fillSegment_isPrefix targetChars true 0 tail.dropLast
  have hCut := cut_selectCompactSegment tail targetChars
  generalize fillSegment targetChars true 0 tail.dropLast = taken at hTaken hCut
  generalize selectCompactSegment tail targetChars = segment at hCut hLast hNext
  cases hCut with
  | here hWhole => exact hWhole a b hLast hNext
  | before hLast' hNext' hPair hEnd =>
      -- what comes next is the answer of the pair, and no note
      rename_i answer note
      obtain ⟨start, rfl⟩ := List.getLast?_eq_some_iff.mp hLast'
      obtain ⟨more, hMore⟩ := hTaken.trans (List.dropLast_prefix tail)
      rw [List.dropLast_concat, ← hMore] at hNext
      obtain rfl : answer = b := by simpa using hNext
      cases hSplit : isSplitPair a answer with
      | false => rfl
      | true =>
          have hAnswer := (roles_of_isSplitPair hPair).1
          have hNote := (roles_of_isSplitPair hSplit).2
          rw [hAnswer] at hNote
          cases hNote
  | behind hLast' hNext' hPair hMore =>
      -- the last message is the note, and no answer
      rename_i answer note
      obtain rfl : note = a := by simpa using hLast
      cases hSplit : isSplitPair note b with
      | false => rfl
      | true =>
          have hNote := (roles_of_isSplitPair hPair).2
          have hAnswer := (roles_of_isSplitPair hSplit).1
          rw [hNote] at hAnswer
          cases hAnswer

/-- Without the note of the pair rule, a segment is within the target, or the first message
alone. -/
theorem fits_selectCompactSegment (tail : List ArchivedMessage) (targetChars : Nat) :
    ∃ counted, (selectCompactSegment tail targetChars = counted ∨
        ∃ a note, counted.getLast? = some a ∧ isSplitPair a note = true ∧
          selectCompactSegment tail targetChars = counted ++ [note]) ∧
      (contentChars counted ≤ targetChars ∨ counted = tail.take 1) := by
  have hTaken := fillSegment_isPrefix targetChars true 0 tail.dropLast
  have hFits := fits_fillSegment targetChars tail.dropLast
  have hCut := cut_selectCompactSegment tail targetChars
  generalize fillSegment targetChars true 0 tail.dropLast = taken at hTaken hCut hFits
  generalize selectCompactSegment tail targetChars = segment at hCut
  have hAlone : contentChars taken ≤ targetChars ∨ taken = tail.take 1 := by
    rcases hFits with hLe | hFirst
    · exact .inl hLe
    · obtain ⟨more, hMore⟩ := List.dropLast_prefix tail
      cases hDrop : tail.dropLast with
      | nil =>
          rw [hDrop, List.take_nil] at hFirst
          exact .inl (by simp [hFirst, contentChars])
      | cons m rest =>
          rw [hDrop] at hFirst hMore
          exact .inr (by rw [hFirst, ← hMore]; rfl)
  cases hCut with
  | here hWhole => exact ⟨taken, .inl rfl, hAlone⟩
  | before hLast hNext hPair hEnd =>
      refine ⟨taken.dropLast, .inl rfl, .inl ?_⟩
      rcases hAlone with hLe | hFirst
      · obtain ⟨start, rfl⟩ := List.getLast?_eq_some_iff.mp hLast
        rw [List.dropLast_concat]
        simp only [contentChars, List.map_append, List.sum_append] at hLe ⊢
        omega
      · have hNil : taken.dropLast = [] := by
          rw [hFirst]
          cases tail <;> rfl
        simp [hNil, contentChars]
  | behind hLast hNext hPair hMore =>
      exact ⟨taken, .inr ⟨_, _, hLast, hPair, rfl⟩, hAlone⟩

/-! ## The compaction -/

/-- What `_compact` selects of what is past the boundary: the front of its window, less the
last message; something, when the window has three messages, and then the boundary moves
forward; no half of a pair; and as much as fits, or the first message alone, with a note that
completes a pair on top. -/
theorem compact_selects (s : Archive) (cfg : CompactorConfig) (version : Nat)
    (topics : List String) (content : String) (previous : List DialogueSummary) :
    let past := s.rows.filter fun row => s.boundary < row.seq
    let window := s.tailAfter s.boundary cfg.segmentFetchLimit
    let segment := selectCompactSegment window cfg.compactTargetChars
    segment <+: window.dropLast ∧
    (3 ≤ window.length → segment ≠ []) ∧
    (∀ first rest, segment = first :: rest → s.boundary <
      (s.replaceForDialog version (mergedSummary topics content first rest previous)).boundary) ∧
    (∀ a b, segment.getLast? = some a → past[segment.length]? = some b →
      isSplitPair a b = false) ∧
    ∃ counted, (segment = counted ∨
        ∃ a note, counted.getLast? = some a ∧ isSplitPair a note = true ∧
          segment = counted ++ [note]) ∧
      (contentChars counted ≤ cfg.compactTargetChars ∨ counted = window.take 1) := by
  intro past window segment
  have hPrefix : segment <+: window.dropLast :=
    selectCompactSegment_prefix_dropLast window cfg.compactTargetChars
  refine ⟨hPrefix, selectCompactSegment_ne_nil, fun first rest hSegment => ?_,
    fun a b hLast hNext => ?_, fits_selectCompactSegment window cfg.compactTargetChars⟩
  · -- the last message taken is past the boundary
    have hMem : (first :: rest).getLast (List.cons_ne_nil first rest) ∈ past := by
      refine ((hPrefix.trans (List.dropLast_prefix window)).trans
        (List.take_prefix cfg.segmentFetchLimit past)).subset ?_
      rw [hSegment]
      exact List.getLast_mem _
    have hPast := (List.mem_filter.mp hMem).2
    show s.boundary < max (mergedSummary topics content first rest previous).seqTo 0
    rw [Nat.max_zero]
    simpa [mergedSummary] using hPast
  · -- the window goes on past the segment as the archive does
    refine isSplitPair_selectCompactSegment hLast ?_
    have hShort : segment.length < window.length := by
      have hLe := hPrefix.length_le
      rw [List.length_dropLast] at hLe
      have hSome : segment ≠ [] := by
        rintro hNil
        rw [hNil] at hLast
        cases hLast
      have hPos := List.length_pos_of_ne_nil hSome
      omega
    have hBound : segment.length < cfg.segmentFetchLimit :=
      Nat.lt_of_lt_of_le hShort (List.length_take_le _ _)
    show (past.take cfg.segmentFetchLimit)[segment.length]? = some b
    rw [List.getElem?_take_of_lt hBound, hNext]

end Context
end OctoForge
