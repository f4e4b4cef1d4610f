import Mathlib.Data.List.Nodup

/-!
# Places in a sorted list

A stable sort puts an element behind those that are less and behind those that are as great
and were before it.  Counting them gives its place, and whether it is among the first `k`.
-/

namespace Sequence

variable {α : Type} {l above below : List α} {a b r : α}

/-- Wherever `b` stands, `a` stands before it. -/
def Before (l : List α) (a b : α) : Prop :=
  ∀ above below, l = above ++ b :: below → a ∈ above

theorem before_of_notMem (hNot : b ∉ l) : Before l a b := by
  rintro above below rfl
  exact absurd (List.mem_append_right above List.mem_cons_self) hNot

theorem before_map {β : Type} {f : α → β} {all : List α}
    (hInj : ∀ x ∈ all, ∀ y ∈ all, f x = f y → x = y) (hSub : l ⊆ all) (hA : a ∈ all)
    (hB : b ∈ all) : Before (l.map f) (f a) (f b) ↔ Before l a b := by
  constructor
  · rintro hBefore above below rfl
    have hImage := hBefore (above.map f) (below.map f) (by simp)
    obtain ⟨x, hX, hSame⟩ := List.mem_map.mp hImage
    exact hInj x (hSub (List.mem_append_left _ hX)) a hA hSame ▸ hX
  · intro hBefore above below hSplit
    obtain ⟨first, second, rfl, rfl, hSecond⟩ := List.map_eq_append_iff.mp hSplit
    obtain ⟨x, rest, rfl, hSame, -⟩ := List.map_eq_cons_iff.mp hSecond
    have hX : x ∈ all := hSub (List.mem_append_right _ List.mem_cons_self)
    obtain rfl := hInj x hX b hB hSame
    exact List.mem_map_of_mem (hBefore first rest rfl)

/-- `r` goes before `b` when `l` is sorted. -/
def goesBefore [DecidableEq α] (le : α → α → Bool) (l : List α) (r b : α) : Bool :=
  le r b && (!le b r || decide ([r, b].Sublist l))

/-! ## Pairs of a list without duplicates -/

theorem pair_sublist_iff_left (hNodup : (above ++ b :: below).Nodup) (hNe : r ≠ b) :
    [r, b].Sublist (above ++ b :: below) ↔ r ∈ above := by
  have hOnce := List.nodup_middle.mp hNodup
  rw [List.nodup_cons, List.mem_append, not_or] at hOnce
  constructor
  · intro hPair
    obtain ⟨first, second, hSplit, hFirst, hSecond⟩ := List.sublist_append_iff.mp hPair
    rcases first with - | ⟨x, rest⟩
    · obtain rfl : [r, b] = second := hSplit
      have hRest : [r, b].Sublist below := by
        cases hSecond with
        | cons _ h => exact h
        | cons_cons _ h => exact absurd rfl hNe
      exact absurd (hRest.subset (by simp)) hOnce.1.2
    · obtain ⟨rfl, -⟩ := List.cons.inj hSplit
      exact hFirst.subset List.mem_cons_self
  · intro hMem
    have hLeft : [r].Sublist above := List.singleton_sublist.mpr hMem
    have hRight : [b].Sublist (b :: below) := List.singleton_sublist.mpr List.mem_cons_self
    exact hLeft.append hRight

theorem pair_sublist_iff_right (hNodup : (above ++ b :: below).Nodup) :
    [b, r].Sublist (above ++ b :: below) ↔ r ∈ below := by
  have hOnce := List.nodup_middle.mp hNodup
  rw [List.nodup_cons, List.mem_append, not_or] at hOnce
  constructor
  · intro hPair
    obtain ⟨first, second, hSplit, hFirst, hSecond⟩ := List.sublist_append_iff.mp hPair
    rcases first with - | ⟨x, rest⟩
    · obtain rfl : [b, r] = second := hSplit
      cases hSecond with
      | cons _ h => exact h.subset (by simp)
      | cons_cons _ h => exact h.subset (by simp)
    · obtain ⟨rfl, -⟩ := List.cons.inj hSplit
      exact absurd (hFirst.subset List.mem_cons_self) hOnce.1.1
  · intro hMem
    have hRight : [b, r].Sublist (b :: below) := (List.singleton_sublist.mpr hMem).cons_cons b
    exact hRight.trans (List.sublist_append_right above _)

theorem pair_sublist_or (hA : a ∈ l) (hB : b ∈ l) (hNe : a ≠ b) :
    [a, b].Sublist l ∨ [b, a].Sublist l := by
  obtain ⟨above, below, rfl⟩ := List.append_of_mem hB
  rcases List.mem_append.mp hA with hAbove | hBelow
  · left
    have hLeft : [a].Sublist above := List.singleton_sublist.mpr hAbove
    exact hLeft.append (List.singleton_sublist.mpr List.mem_cons_self)
  · right
    rcases List.mem_cons.mp hBelow with rfl | hMem
    · exact absurd rfl hNe
    · exact ((List.singleton_sublist.mpr hMem).cons_cons b).trans
        (List.sublist_append_right above _)

/-! ## Sorting -/

theorem mergeSort_pair (le : α → α → Bool) (a b : α) :
    [a, b].mergeSort le = if le a b then [a, b] else [b, a] := by
  cases hLe : le a b <;> simp [List.mergeSort, List.MergeSort.Internal.splitInTwo, hLe]

section First

variable {le : α → α → Bool} {first : α} {rest : List α}

theorem mem_of_mergeSort (hSorted : l.mergeSort le = first :: rest) : first ∈ l := by
  rw [← List.mem_mergeSort, hSorted]
  exact List.mem_cons_self

variable (hTrans : ∀ a b c, le a b = true → le b c = true → le a c = true)
  (hTotal : ∀ a b, (le a b || le b a) = true)

include hTrans hTotal

/-- The first of a sorted list goes before each of them. -/
theorem le_of_mergeSort (hSorted : l.mergeSort le = first :: rest) (hMem : a ∈ l) :
    le first a = true := by
  have hPairwise := List.pairwise_mergeSort hTrans hTotal l
  have hThere : a ∈ l.mergeSort le := List.mem_mergeSort.mpr hMem
  rw [hSorted] at hPairwise hThere
  rcases List.mem_cons.mp hThere with rfl | hRest
  · simpa using hTotal a a
  · exact (List.pairwise_cons.mp hPairwise).1 a hRest

/-- The first of a list that is not behind any other is first after sorting. -/
theorem mergeSort_first (hFirst : ∀ a ∈ rest, le first a = true) :
    ∃ more, (first :: rest).mergeSort le = first :: more := by
  obtain ⟨above, below, hSorted, -, hAbove⟩ := List.mergeSort_cons hTrans hTotal first rest
  cases above with
  | nil => exact ⟨below, hSorted⟩
  | cons top more =>
      -- What is sorted to the top goes before the first, which goes before everything.
      have hNot := hAbove top List.mem_cons_self
      rcases List.mem_cons.mp (mem_of_mergeSort hSorted) with rfl | hRest
      · have hSelf := hTotal top top
        rw [Bool.or_self] at hSelf
        rw [hSelf] at hNot
        cases hNot
      · rw [hFirst top hRest] at hNot
        cases hNot

end First

section Stable

variable [DecidableEq α] {le : α → α → Bool}
  (hTrans : ∀ a b c, le a b = true → le b c = true → le a c = true)
  (hTotal : ∀ a b, (le a b || le b a) = true)

include hTrans hTotal

/-- Those above an element of the sorted list go before it, and no others do. -/
theorem goesBefore_iff (hNodup : l.Nodup) (hSorted : l.mergeSort le = above ++ b :: below)
    (hMem : r ∈ l) : goesBefore le l r b = true ↔ r ∈ above := by
  have hPerm := List.mergeSort_perm l le
  have hNodup' : (above ++ b :: below).Nodup := hSorted ▸ hPerm.nodup_iff.mpr hNodup
  have hPairwise := List.pairwise_mergeSort hTrans hTotal l
  rw [hSorted, List.pairwise_append] at hPairwise
  obtain ⟨-, hBelow, hAbove⟩ := hPairwise
  have hB : b ∈ l := hPerm.mem_iff.mp (hSorted ▸ List.mem_append_right above List.mem_cons_self)
  have hOnce := (List.nodup_cons.mp (List.nodup_middle.mp hNodup')).1
  -- The sort is stable: elements in order that stand in order stay so.
  have hKeeps : ∀ x y, le x y = true → [x, y].Sublist l →
      [x, y].Sublist (above ++ b :: below) := fun x y hLe hPair =>
    hSorted ▸ List.pair_sublist_mergeSort hTrans hTotal hLe hPair
  rw [goesBefore, Bool.and_eq_true, Bool.or_eq_true, Bool.not_eq_true', decide_eq_true_iff]
  constructor
  · rintro ⟨hLe, hFirst⟩
    by_contra hNot
    by_cases hSame : r = b
    · subst hSame
      rcases hFirst with hLess | hPair
      · exact absurd (hLe.symm.trans hLess) (by decide)
      · have hTwice := hPair.nodup hNodup
        simp at hTwice
    · have hIn : r ∈ above ++ b :: below := hSorted ▸ hPerm.mem_iff.mpr hMem
      have hUnder : r ∈ below := by simpa [hNot, hSame] using hIn
      have hGe : le b r = true := (List.pairwise_cons.mp hBelow).1 r hUnder
      rcases hFirst with hLess | hPair
      · exact absurd (hGe.symm.trans hLess) (by decide)
      · exact hNot ((pair_sublist_iff_left hNodup' hSame).mp (hKeeps r b hLe hPair))
  · intro hOver
    have hNe : r ≠ b := fun hSame =>
      hOnce (hSame ▸ List.mem_append_left below hOver)
    have hLe : le r b = true := hAbove r hOver b List.mem_cons_self
    refine ⟨hLe, ?_⟩
    -- On a tie the place in the list decides.
    cases hGe : le b r with
    | false => exact .inl rfl
    | true =>
        right
        rcases pair_sublist_or hMem hB hNe with hPair | hPair
        · exact hPair
        · have hUnder := (pair_sublist_iff_right hNodup').mp (hKeeps b r hGe hPair)
          have hApart := List.disjoint_of_nodup_append hNodup'
          exact absurd (List.mem_cons_of_mem b hUnder) (hApart hOver)

theorem countP_goesBefore (hNodup : l.Nodup)
    (hSorted : l.mergeSort le = above ++ b :: below) :
    l.countP (goesBefore le l · b) = above.length := by
  have hPerm := List.mergeSort_perm l le
  have hNodup' : (above ++ b :: below).Nodup := hSorted ▸ hPerm.nodup_iff.mpr hNodup
  have hIff : ∀ r ∈ above ++ b :: below, goesBefore le l r b = true ↔ r ∈ above := fun r hR =>
    goesBefore_iff hTrans hTotal hNodup hSorted (hPerm.mem_iff.mp (hSorted ▸ hR))
  rw [← hPerm.countP_eq, hSorted, List.countP_append]
  have hAll : above.countP (goesBefore le l · b) = above.length :=
    List.countP_eq_length.mpr fun r hR => (hIff r (List.mem_append_left _ hR)).mpr hR
  have hNone : (b :: below).countP (goesBefore le l · b) = 0 := by
    refine List.countP_eq_zero.mpr fun r hR hBefore => ?_
    have hOver := (hIff r (List.mem_append_right _ hR)).mp hBefore
    exact List.disjoint_of_nodup_append hNodup' hOver hR
  omega

/-- An element is among the first `k` when fewer than `k` go before it. -/
theorem mem_take_mergeSort (hNodup : l.Nodup) (hB : b ∈ l) (k : Nat) :
    b ∈ (l.mergeSort le).take k ↔ l.countP (goesBefore le l · b) < k := by
  obtain ⟨above, below, hSorted⟩ :=
    List.append_of_mem (List.mem_mergeSort.mpr hB : b ∈ l.mergeSort le)
  have hNodup' : (above ++ b :: below).Nodup :=
    hSorted ▸ (List.mergeSort_perm l le).nodup_iff.mpr hNodup
  have hOnce := (List.nodup_cons.mp (List.nodup_middle.mp hNodup')).1
  rw [countP_goesBefore hTrans hTotal hNodup hSorted, hSorted, List.take_append]
  constructor
  · intro hMem
    by_contra hLong
    have hShort : k - above.length = 0 := by omega
    rw [hShort, List.take_zero, List.append_nil] at hMem
    exact hOnce (List.mem_append_left below (List.mem_of_mem_take hMem))
  · intro hShort
    obtain ⟨more, hMore⟩ := Nat.exists_eq_add_of_lt hShort
    have hRest : k - above.length = more + 1 := by omega
    rw [hRest, List.take_succ_cons]
    exact List.mem_append_right _ List.mem_cons_self

/-- Among the first `k` of a sorted list, `b` has `a` before it when `a` goes before it; or
it is not among them. -/
theorem before_take_mergeSort (hNodup : l.Nodup) (hA : a ∈ l) (hB : b ∈ l) (k : Nat) :
    Before ((l.mergeSort le).take k) a b ↔
      goesBefore le l a b = true ∨ k ≤ l.countP (goesBefore le l · b) := by
  constructor
  · intro hBefore
    by_cases hShown : b ∈ (l.mergeSort le).take k
    · left
      obtain ⟨above, below, hSplit⟩ := List.append_of_mem hShown
      have hSorted : l.mergeSort le = above ++ b :: (below ++ (l.mergeSort le).drop k) := by
        rw [← List.cons_append, ← List.append_assoc, ← hSplit, List.take_append_drop]
      exact (goesBefore_iff hTrans hTotal hNodup hSorted hA).mpr (hBefore above below hSplit)
    · rw [mem_take_mergeSort hTrans hTotal hNodup hB] at hShown
      exact .inr (Nat.not_lt.mp hShown)
  · rintro hOr above below hSplit
    have hSorted : l.mergeSort le = above ++ b :: (below ++ (l.mergeSort le).drop k) := by
      rw [← List.cons_append, ← List.append_assoc, ← hSplit, List.take_append_drop]
    rcases hOr with hFirst | hMany
    · exact (goesBefore_iff hTrans hTotal hNodup hSorted hA).mp hFirst
    · have hShown : b ∈ (l.mergeSort le).take k :=
        hSplit ▸ List.mem_append_right above List.mem_cons_self
      rw [mem_take_mergeSort hTrans hTotal hNodup hB] at hShown
      omega

end Stable
end Sequence
