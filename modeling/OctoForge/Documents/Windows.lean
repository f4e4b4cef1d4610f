import Mathlib.Data.List.Basic
import Mathlib.Order.MinMax

/-!
# Merging windows

`response_find` shows a window of text around every match.  The windows are sorted by their starts,
and one that begins in the last window, or right behind it, makes that window longer.
-/

namespace OctoForge
namespace Documents

/-- A stretch of positions, without its end, and the match it is shown for. -/
structure Window (α : Type) where
  start : α
  stop : α
  place : α
  deriving DecidableEq, Repr

section Windows

variable {α : Type} [LinearOrder α]

/-- The order of triples. -/
def windowLe (window other : Window α) : Bool :=
  decide (window.start < other.start ∨ window.start = other.start ∧
    (window.stop < other.stop ∨ window.stop = other.stop ∧ window.place ≤ other.place))

/-- The body of the loop. -/
def addWindow (merged : List (Window α)) (window : Window α) : List (Window α) :=
  match merged.getLast? with
  | some last =>
      if window.start ≤ last.stop then
        merged.dropLast ++ [{ last with stop := max last.stop window.stop }]
      else merged ++ [window]
  | none => merged ++ [window]

/-- `_merge_windows`. -/
def mergeWindows (windows : List (Window α)) : List (Window α) :=
  (windows.mergeSort windowLe).foldl addWindow []

/-- The positions of a window. -/
def Window.Covers (window : Window α) (position : α) : Prop :=
  window.start ≤ position ∧ position < window.stop

/-- The window lies in another. -/
def Window.Within (window block : Window α) : Prop :=
  block.start ≤ window.start ∧ window.stop ≤ block.stop

/-- What becomes of windows: they are sorted and apart, have the same positions, and every match is
in one of them and in no other. -/
structure Merged (windows blocks : List (Window α)) : Prop where
  sorted : blocks.Pairwise fun block later => block.start < later.start
  apart : blocks.Pairwise fun block later => block.stop < later.start
  union : ∀ position, (∃ block ∈ blocks, block.Covers position) ↔
    ∃ window ∈ windows, window.Covers position
  inOne : ∀ window ∈ windows, ∃ block ∈ blocks, window.Within block ∧
    ∀ other ∈ blocks, other.Covers window.place → other = block

variable {windows done rest merged : List (Window α)} {window other last : Window α}

/-! ## The order -/

theorem windowLe_iff : windowLe window other = true ↔
    window.start < other.start ∨ window.start = other.start ∧
      (window.stop < other.stop ∨ window.stop = other.stop ∧ window.place ≤ other.place) :=
  decide_eq_true_iff

theorem start_le_of_windowLe (hLe : windowLe window other = true) : window.start ≤ other.start := by
  rcases windowLe_iff.mp hLe with hLess | ⟨hSame, -⟩
  · exact hLess.le
  · exact hSame.le

theorem windowLe_trans (first second third : Window α) (h₁ : windowLe first second = true)
    (h₂ : windowLe second third = true) : windowLe first third = true := by
  rw [windowLe_iff] at h₁ h₂ ⊢
  rcases h₁ with h₁ | ⟨h₁, hRest₁⟩ <;> rcases h₂ with h₂ | ⟨h₂, hRest₂⟩
  · exact .inl (h₁.trans h₂)
  · exact .inl (h₂ ▸ h₁)
  · exact .inl (h₁ ▸ h₂)
  · refine .inr ⟨h₁.trans h₂, ?_⟩
    rcases hRest₁ with hRest₁ | ⟨hStop₁, hPlace₁⟩ <;> rcases hRest₂ with hRest₂ | ⟨hStop₂, hPlace₂⟩
    · exact .inl (hRest₁.trans hRest₂)
    · exact .inl (hStop₂ ▸ hRest₁)
    · exact .inl (hStop₁ ▸ hRest₂)
    · exact .inr ⟨hStop₁.trans hStop₂, hPlace₁.trans hPlace₂⟩

theorem windowLe_total (window other : Window α) :
    (windowLe window other || windowLe other window) = true := by
  rw [Bool.or_eq_true, windowLe_iff, windowLe_iff]
  rcases lt_trichotomy window.start other.start with hLess | hStart | hMore
  · exact .inl (.inl hLess)
  · rcases lt_trichotomy window.stop other.stop with hLess | hStop | hMore
    · exact .inl (.inr ⟨hStart, .inl hLess⟩)
    · rcases le_total window.place other.place with hPlace | hPlace
      · exact .inl (.inr ⟨hStart, .inr ⟨hStop, hPlace⟩⟩)
      · exact .inr (.inr ⟨hStart.symm, .inr ⟨hStop.symm, hPlace⟩⟩)
    · exact .inr (.inr ⟨hStart.symm, .inl hMore⟩)
  · exact .inr (.inl hMore)

/-! ## The loop -/

/-- What the windows up to here have been merged to. -/
structure Merging (done merged : List (Window α)) : Prop where
  filled : ∀ block ∈ merged, block.start < block.stop
  apart : merged.Pairwise fun block later => block.stop < later.start
  starts : ∀ block ∈ merged, ∃ window ∈ done, window.start = block.start
  inside : ∀ block ∈ merged, ∀ position, block.Covers position →
    ∃ window ∈ done, window.Covers position
  within : ∀ window ∈ done, ∃ block ∈ merged, window.Within block

theorem Merging.nil : Merging ([] : List (Window α)) [] :=
  ⟨nofun, List.Pairwise.nil, nofun, nofun, nofun⟩

theorem addWindow_concat (merged : List (Window α)) (last window : Window α) :
    addWindow (merged ++ [last]) window =
      if window.start ≤ last.stop then
        merged ++ [{ last with stop := max last.stop window.stop }]
      else merged ++ [last] ++ [window] := by
  rw [addWindow, List.getLast?_concat]
  dsimp only
  rw [List.dropLast_concat]

/-- A window behind the last block is a block of its own. -/
theorem Merging.behind (hMerging : Merging done merged) (hFilled : window.start < window.stop)
    (hBehind : ∀ block ∈ merged, block.stop < window.start) :
    Merging (done ++ [window]) (merged ++ [window]) := by
  refine ⟨fun block hBlock => ?_, ?_, fun block hBlock => ?_, fun block hBlock position hCovers => ?_,
    fun other hOther => ?_⟩
  · rcases List.mem_append.mp hBlock with hOld | hNew
    · exact hMerging.filled block hOld
    · exact List.mem_singleton.mp hNew ▸ hFilled
  · refine List.pairwise_append.mpr ⟨hMerging.apart, List.pairwise_singleton _ _, ?_⟩
    intro block hOld later hNew
    exact List.mem_singleton.mp hNew ▸ hBehind block hOld
  · rcases List.mem_append.mp hBlock with hOld | hNew
    · obtain ⟨start, hStart, hSame⟩ := hMerging.starts block hOld
      exact ⟨start, List.mem_append_left _ hStart, hSame⟩
    · exact ⟨window, List.mem_append_right _ (List.mem_singleton_self _),
        congrArg Window.start (List.mem_singleton.mp hNew).symm⟩
  · rcases List.mem_append.mp hBlock with hOld | hNew
    · obtain ⟨inner, hInner, hIn⟩ := hMerging.inside block hOld position hCovers
      exact ⟨inner, List.mem_append_left _ hInner, hIn⟩
    · exact ⟨window, List.mem_append_right _ (List.mem_singleton_self _),
        List.mem_singleton.mp hNew ▸ hCovers⟩
  · rcases List.mem_append.mp hOther with hOld | hNew
    · obtain ⟨block, hBlock, hWithin⟩ := hMerging.within other hOld
      exact ⟨block, List.mem_append_left _ hBlock, hWithin⟩
    · refine ⟨window, List.mem_append_right _ (List.mem_singleton_self _), ?_⟩
      rw [List.mem_singleton.mp hNew]
      exact ⟨le_refl _, le_refl _⟩

/-- What a window that touches the last block adds to it are its own positions. -/
theorem covers_grown {position : α} (hTouches : window.start ≤ last.stop)
    (hCovers : ({ last with stop := max last.stop window.stop } : Window α).Covers position) :
    last.Covers position ∨ window.Covers position := by
  obtain ⟨hStart, hStop⟩ := hCovers
  by_cases hInside : position < last.stop
  · exact .inl ⟨hStart, hInside⟩
  · -- What is not in the last block any more is in the window.
    refine .inr ⟨hTouches.trans (not_lt.mp hInside), ?_⟩
    exact (lt_max_iff.mp hStop).resolve_left hInside

/-- A window that begins in the last block, or where it ends, makes it longer. -/
theorem Merging.grow (hMerging : Merging done (merged ++ [last]))
    (hAfter : last.start ≤ window.start) (hTouches : window.start ≤ last.stop) :
    Merging (done ++ [window]) (merged ++ [{ last with stop := max last.stop window.stop }]) := by
  have hLast : last ∈ merged ++ [last] := List.mem_append_right _ (List.mem_singleton_self _)
  obtain ⟨hApart, -, hBefore⟩ := List.pairwise_append.mp hMerging.apart
  refine ⟨fun block hBlock => ?_, ?_, fun block hBlock => ?_, fun block hBlock position hCovers => ?_,
    fun other hOther => ?_⟩
  · rcases List.mem_append.mp hBlock with hOld | hNew
    · exact hMerging.filled block (List.mem_append_left _ hOld)
    · rw [List.mem_singleton.mp hNew]
      exact lt_of_lt_of_le (hMerging.filled last hLast) (le_max_left _ _)
  -- The last block begins where it did, so it is still apart from those before it.
  · refine List.pairwise_append.mpr ⟨hApart, List.pairwise_singleton _ _, ?_⟩
    intro block hOld later hNew
    rw [List.mem_singleton.mp hNew]
    exact hBefore block hOld last (List.mem_singleton_self _)
  · have hStart : ∃ block' ∈ merged ++ [last], block'.start = block.start := by
      rcases List.mem_append.mp hBlock with hOld | hNew
      · exact ⟨block, List.mem_append_left _ hOld, rfl⟩
      · exact ⟨last, hLast, by rw [List.mem_singleton.mp hNew]⟩
    obtain ⟨block', hBlock', hSame⟩ := hStart
    obtain ⟨start, hIn, hStart⟩ := hMerging.starts block' hBlock'
    exact ⟨start, List.mem_append_left _ hIn, hStart.trans hSame⟩
  -- Its new positions are the window's.
  · have hOld : ∀ block' ∈ merged ++ [last], block'.Covers position →
        ∃ window' ∈ done ++ [window], window'.Covers position := by
      intro block' hBlock' hCovers'
      obtain ⟨inner, hInner, hIn⟩ := hMerging.inside block' hBlock' position hCovers'
      exact ⟨inner, List.mem_append_left _ hInner, hIn⟩
    rcases List.mem_append.mp hBlock with hBefore | hNew
    · exact hOld block (List.mem_append_left _ hBefore) hCovers
    · rw [List.mem_singleton.mp hNew] at hCovers
      rcases covers_grown hTouches hCovers with hThere | hHere
      · exact hOld last hLast hThere
      · exact ⟨window, List.mem_append_right _ (List.mem_singleton_self _), hHere⟩
  · rcases List.mem_append.mp hOther with hDone | hNew
    · obtain ⟨block, hBlock, hWithin⟩ := hMerging.within other hDone
      rcases List.mem_append.mp hBlock with hOld | hThere
      · exact ⟨block, List.mem_append_left _ hOld, hWithin⟩
      · obtain rfl := List.mem_singleton.mp hThere
        exact ⟨_, List.mem_append_right _ (List.mem_singleton_self _), hWithin.1,
          hWithin.2.trans (le_max_left _ _)⟩
    · obtain rfl := List.mem_singleton.mp hNew
      exact ⟨_, List.mem_append_right _ (List.mem_singleton_self _), hAfter, le_max_right _ _⟩

/-- The next window, which begins no earlier than those before it. -/
theorem Merging.addWindow (hMerging : Merging done merged) (hFilled : window.start < window.stop)
    (hSorted : ∀ other ∈ done, other.start ≤ window.start) :
    Merging (done ++ [window]) (addWindow merged window) := by
  rcases List.eq_nil_or_concat' merged with rfl | ⟨before, last, rfl⟩
  · exact hMerging.behind hFilled nofun
  · have hLast : last ∈ before ++ [last] := List.mem_append_right _ (List.mem_singleton_self _)
    obtain ⟨start, hIn, hStart⟩ := hMerging.starts last hLast
    rw [addWindow_concat]
    split
    · rename_i hTouches
      exact hMerging.grow (hStart ▸ hSorted start hIn) hTouches
    · -- It is behind the last block, and so behind those before.
      rename_i hApart
      refine hMerging.behind hFilled fun block hBlock => ?_
      rcases List.mem_append.mp hBlock with hOld | hThere
      · have hBefore := (List.pairwise_append.mp hMerging.apart).2.2 block hOld last
          (List.mem_singleton_self _)
        exact hBefore.trans ((hMerging.filled last hLast).trans (not_le.mp hApart))
      · exact List.mem_singleton.mp hThere ▸ not_le.mp hApart

theorem Merging.foldl (hMerging : Merging done merged)
    (hFilled : ∀ window ∈ rest, window.start < window.stop)
    (hSorted : (done ++ rest).Pairwise fun window other => window.start ≤ other.start) :
    Merging (done ++ rest) (rest.foldl Documents.addWindow merged) := by
  induction rest generalizing done merged with
  | nil =>
      rw [List.append_nil]
      exact hMerging
  | cons window rest ih =>
      have hBefore : ∀ other ∈ done, other.start ≤ window.start := fun other hOther =>
        (List.pairwise_append.mp hSorted).2.2 other hOther window List.mem_cons_self
      have hNext := hMerging.addWindow (hFilled window List.mem_cons_self) hBefore
      have hAll := ih hNext (fun other hOther => hFilled other (List.mem_cons_of_mem _ hOther))
        (by rwa [List.append_assoc])
      rwa [List.append_assoc] at hAll

/-- Blocks that are apart have no position in common. -/
theorem eq_of_covers {blocks : List (Window α)} {position : α}
    (hApart : blocks.Pairwise fun block later => block.stop < later.start)
    (hWindow : window ∈ blocks) (hOther : other ∈ blocks) (hCovers : window.Covers position)
    (hCovers' : other.Covers position) : window = other := by
  induction blocks with
  | nil => cases hWindow
  | cons first rest ih =>
      obtain ⟨hFirst, hRest⟩ := List.pairwise_cons.mp hApart
      rcases List.mem_cons.mp hWindow with rfl | hLater <;>
        rcases List.mem_cons.mp hOther with rfl | hLater'
      · rfl
      · exact absurd (hCovers.2.trans (hFirst other hLater')) (not_lt.mpr hCovers'.1)
      · exact absurd (hCovers'.2.trans (hFirst window hLater)) (not_lt.mpr hCovers.1)
      · exact ih hRest hLater hLater'

/-- What the loop does with all windows, from no block on. -/
theorem merging_mergeWindows
    (hWindows : ∀ window ∈ windows, window.start ≤ window.place ∧ window.place < window.stop) :
    Merging (windows.mergeSort windowLe) (mergeWindows windows) := by
  have hSorted : (windows.mergeSort windowLe).Pairwise
      fun window other => window.start ≤ other.start :=
    (List.pairwise_mergeSort windowLe_trans windowLe_total windows).imp start_le_of_windowLe
  refine Merging.nil.foldl (fun window hWindow => ?_) hSorted
  obtain ⟨hStart, hStop⟩ := hWindows window (List.mem_mergeSort.mp hWindow)
  exact lt_of_le_of_lt hStart hStop

/-- A match is in the block of its window, and the blocks have no position in common. -/
theorem Merging.inOne (hMerging : Merging windows merged) (hWindow : window ∈ windows)
    (hPlace : window.start ≤ window.place ∧ window.place < window.stop) :
    ∃ block ∈ merged, window.Within block ∧
      ∀ other ∈ merged, other.Covers window.place → other = block := by
  obtain ⟨block, hBlock, hWithin⟩ := hMerging.within window hWindow
  refine ⟨block, hBlock, hWithin, fun other hOther hCovers => ?_⟩
  exact eq_of_covers hMerging.apart hOther hBlock hCovers
    ⟨hWithin.1.trans hPlace.1, lt_of_lt_of_le hPlace.2 hWithin.2⟩

/-- Windows around matches are merged to blocks that are apart and show every match once. -/
theorem mergeWindows_merged {windows : List (Window α)}
    (hWindows : ∀ window ∈ windows, window.start ≤ window.place ∧ window.place < window.stop) :
    Merged windows (mergeWindows windows) := by
  have hMerging := merging_mergeWindows hWindows
  refine ⟨?_, hMerging.apart, fun position => ⟨?_, ?_⟩, fun window hWindow => ?_⟩
  · refine hMerging.apart.imp_of_mem fun {block later} hBlock _ hApart => ?_
    exact (hMerging.filled block hBlock).trans hApart
  · -- A block has no positions but those of the windows, and a window lies in a block.
    rintro ⟨block, hBlock, hCovers⟩
    obtain ⟨window, hWindow, hIn⟩ := hMerging.inside block hBlock position hCovers
    exact ⟨window, List.mem_mergeSort.mp hWindow, hIn⟩
  · rintro ⟨window, hWindow, hStart, hStop⟩
    obtain ⟨block, hBlock, hWithin⟩ := hMerging.within window (List.mem_mergeSort.mpr hWindow)
    exact ⟨block, hBlock, hWithin.1.trans hStart, lt_of_lt_of_le hStop hWithin.2⟩
  · exact hMerging.inOne (List.mem_mergeSort.mpr hWindow) (hWindows window hWindow)

theorem mergeWindows_merged_three :
    Merged [⟨4, 9, 6⟩, ⟨0, 5, 2⟩, ⟨12, 20, 15⟩]
      (mergeWindows [(⟨4, 9, 6⟩ : Window Nat), ⟨0, 5, 2⟩, ⟨12, 20, 15⟩]) :=
  mergeWindows_merged (by decide)

end Windows

/-! ## The windows of a find -/

/-- The windows of `response_find` around the positions that it shows. -/
def findWindows (length before after : Nat) (shown : List (Nat × Nat)) : List (Window Nat) :=
  shown.map fun (place, stop) => ⟨place - before, min length (stop + after), place⟩

/-- Every match that is shown, where it lies in the text, is in one of the blocks and begins in no
other. -/
theorem find_in_one_block {length before after : Nat} {shown : List (Nat × Nat)}
    (hShown : ∀ found ∈ shown, found.1 < found.2 ∧ found.2 ≤ length) :
    ∀ found ∈ shown, ∃ block ∈ mergeWindows (findWindows length before after shown),
      block.start ≤ found.1 ∧ found.2 ≤ block.stop ∧
        ∀ other ∈ mergeWindows (findWindows length before after shown),
          other.Covers found.1 → other = block := by
  have hWindows : ∀ window ∈ findWindows length before after shown,
      window.start ≤ window.place ∧ window.place < window.stop := by
    intro window hWindow
    obtain ⟨found, hFound, rfl⟩ := List.mem_map.mp hWindow
    obtain ⟨hSome, hBound⟩ := hShown found hFound
    dsimp only
    omega
  intro found hFound
  obtain ⟨hSome, hBound⟩ := hShown found hFound
  have hWindow : ⟨found.1 - before, min length (found.2 + after), found.1⟩ ∈
      findWindows length before after shown := List.mem_map.mpr ⟨found, hFound, rfl⟩
  obtain ⟨block, hBlock, ⟨hStart, hStop⟩, hOnly⟩ :=
    (merging_mergeWindows hWindows).inOne (List.mem_mergeSort.mpr hWindow)
      (hWindows _ hWindow)
  refine ⟨block, hBlock, ?_, ?_, hOnly⟩
  · dsimp only at hStart
    omega
  · dsimp only at hStop
    omega

end Documents
end OctoForge
