import Mathlib.Data.List.Sort

/-!
# Paging

`LIMIT` and `OFFSET` cut a page out of rows that an `ORDER BY` has arranged, and rows that tie
under it may be arranged otherwise for each page.  The pages are the whole, whatever the
arrangements, just where the rows before each page do not depend on them; and rows of which no two
look alike are so where no page begins among rows that tie.
-/

namespace OctoForge
namespace Sql

variable {α β : Type}

/-- The order of an `ORDER BY`: rows of which neither is before the other tie. -/
structure WeakOrder (lt : α → α → Bool) : Prop where
  asymm {x y : α} : lt x y = true → lt y x = false
  split {x z : α} (y : α) : lt x z = true → lt x y = true ∨ lt y z = true

/-- The rows, in an order in which they may be returned. -/
structure Arranged (lt : α → α → Bool) (rows ordered : List α) : Prop where
  perm : ordered.Perm rows
  sorted : ordered.Pairwise fun x y => lt y x = false

/-- There are rows on both sides of the place that tie. -/
def Cut (lt : α → α → Bool) (rows : List α) (place : Nat) : Prop :=
  ∃ x ∈ rows, rows.countP (lt · x) < place ∧ place < rows.countP fun y => !lt x y

/-- What is before the place looks the same in all arrangements. -/
def Steady (lt : α → α → Bool) (out : α → β) (rows : List α) (place : Nat) : Prop :=
  ∀ ordered other, Arranged lt rows ordered → Arranged lt rows other →
    ((ordered.take place).map out).Perm ((other.take place).map out)

/-- A page of the rows. -/
def pageOf (limit page : Nat) (ordered : List α) : List α := (ordered.drop (page * limit)).take limit

/-- The first pages, each cut out of an arrangement of its own. -/
def pages (limit : Nat) (out : α → β) (ordered : Nat → List α) (count : Nat) : List β :=
  (List.range count).flatMap fun page => (pageOf limit page (ordered page)).map out

/-! ## Orders -/

section Orders

variable {lt : α → α → Bool}

theorem WeakOrder.irrefl (hWeak : WeakOrder lt) (x : α) : lt x x = false := by
  by_contra hNot
  have hLess : lt x x = true := by simpa using hNot
  rw [hWeak.asymm hLess] at hLess
  cases hLess

theorem WeakOrder.comap (hWeak : WeakOrder lt) (key : β → α) :
    WeakOrder fun x y => lt (key x) (key y) where
  asymm hLess := hWeak.asymm hLess
  split y hLess := hWeak.split (key y) hLess

theorem WeakOrder.swap (hWeak : WeakOrder lt) : WeakOrder fun x y => lt y x where
  asymm hLess := hWeak.asymm hLess
  split y hLess := (hWeak.split y hLess).symm

theorem weakOrder_lt [LinearOrder α] (hLt : ∀ x y, lt x y = true ↔ x < y) : WeakOrder lt where
  asymm {x y} hLess := by
    by_contra hMore
    have hBack := (hLt y x).mp (by simpa using hMore)
    exact lt_asymm ((hLt x y).mp hLess) hBack
  split {x z} y hLess := by
    rw [hLt] at hLess
    rw [hLt, hLt]
    rcases lt_or_ge x y with hLeft | hRight
    · exact .inl hLeft
    · exact .inr (lt_of_le_of_lt hRight hLess)

theorem WeakOrder.total (hWeak : WeakOrder lt) (x y : α) : lt x y = false ∨ lt y x = false := by
  cases hLess : lt x y with
  | true => exact .inr (hWeak.asymm hLess)
  | false => exact .inl rfl

/-- Sorting arranges. -/
theorem arranged_insertionSort (hWeak : WeakOrder lt) (rows : List α) :
    Arranged lt rows (rows.insertionSort fun x y => !lt y x) := by
  have hTotal : Std.Total fun x y => (!lt y x) = true :=
    ⟨fun x y => by simpa using hWeak.total y x⟩
  have hTrans : IsTrans α fun x y => (!lt y x) = true := by
    refine ⟨fun x y z hXY hYZ => ?_⟩
    by_contra hLess
    rcases hWeak.split y (by simpa using hLess : lt z x = true) with hLeft | hRight
    · simp [hLeft] at hYZ
    · simp [hRight] at hXY
  refine ⟨List.perm_insertionSort _ rows, ?_⟩
  exact (List.pairwise_insertionSort _ rows).imp fun hLe => by simpa using hLe

end Orders

/-! ## What is before a place -/

section Places

variable {lt : α → α → Bool} {rows ordered : List α} {p : α → Bool} {out : α → β} {place : Nat}

/-- Rows that nothing else goes before come first in an arrangement. -/
theorem filter_append_filter (hSorted : ordered.Pairwise fun x y => lt y x = false)
    (hDown : ∀ x y, p y = true → lt y x = false → p x = true) :
    ordered.filter p ++ ordered.filter (fun x => !p x) = ordered := by
  induction ordered with
  | nil => rfl
  | cons first rest ih =>
      obtain ⟨hFirst, hRest⟩ := List.pairwise_cons.mp hSorted
      cases hHas : p first with
      | true =>
          rw [List.filter_cons_of_pos hHas, List.filter_cons_of_neg (by simp [hHas]),
            List.cons_append, ih hRest]
      | false =>
          have hNone : ∀ x ∈ rest, p x = false := by
            intro x hMem
            by_contra hNot
            have hPast := hDown first x (by simpa using hNot) (hFirst x hMem)
            rw [hHas] at hPast
            cases hPast
          rw [List.filter_cons_of_neg (by simp [hHas]), List.filter_cons_of_pos (by simp [hHas]),
            List.filter_eq_nil_iff.mpr fun x hMem => by simp [hNone x hMem],
            List.filter_eq_self.mpr fun x hMem => by simp [hNone x hMem], List.nil_append]

theorem take_countP (hSorted : ordered.Pairwise fun x y => lt y x = false)
    (hDown : ∀ x y, p y = true → lt y x = false → p x = true) :
    ordered.take (ordered.countP p) = ordered.filter p := by
  have hSplit := filter_append_filter hSorted hDown
  calc
    ordered.take (ordered.countP p)
      = (ordered.filter p ++ ordered.filter fun x => !p x).take (ordered.countP p) := by
        rw [hSplit]
    _ = ordered.filter p := List.take_left' List.countP_eq_length_filter.symm

theorem getElem_iff (hSorted : ordered.Pairwise fun x y => lt y x = false)
    (hDown : ∀ x y, p y = true → lt y x = false → p x = true) (hPlace : place < ordered.length) :
    p ordered[place] = true ↔ place < ordered.countP p := by
  have hSplit := filter_append_filter hSorted hDown
  have hGet : ordered[place]? = (ordered.filter p ++ ordered.filter fun x => !p x)[place]? := by
    rw [hSplit]
  rw [List.getElem?_eq_getElem hPlace, List.getElem?_append] at hGet
  rw [List.countP_eq_length_filter]
  split at hGet
  · rename_i hLess
    exact iff_of_true (List.mem_filter.mp (List.mem_of_getElem? hGet.symm)).2 hLess
  · rename_i hMore
    have hNot := (List.mem_filter.mp (List.mem_of_getElem? hGet.symm)).2
    exact iff_of_false (by simpa using hNot) hMore

theorem WeakOrder.down_lt (hWeak : WeakOrder lt) (x : α) :
    ∀ y z, lt z x = true → lt z y = false → lt y x = true := by
  intro y z hLess hNot
  rcases hWeak.split y hLess with hLeft | hRight
  · rw [hNot] at hLeft
    cases hLeft
  · exact hRight

theorem WeakOrder.down_notGt (hWeak : WeakOrder lt) (x : α) :
    ∀ y z, (!lt x z) = true → lt z y = false → (!lt x y) = true := by
  intro y z hLe hNot
  by_contra hGt
  rcases hWeak.split z (by simpa using hGt : lt x y = true) with hLeft | hRight
  · simp [hLeft] at hLe
  · rw [hNot] at hRight
    cases hRight

/-- Where no rows tie across the place, the rows before it are the same in all arrangements. -/
theorem steady_of_not_cut (hWeak : WeakOrder lt) (hNot : ¬Cut lt rows place) :
    Steady lt out rows place := by
  intro ordered other hOrdered hOther
  refine List.Perm.map out ?_
  by_cases hEnd : rows.length ≤ place
  · rw [List.take_of_length_le (hOrdered.perm.length_eq ▸ hEnd),
      List.take_of_length_le (hOther.perm.length_eq ▸ hEnd)]
    exact hOrdered.perm.trans hOther.perm.symm
  · have hPlace : place < ordered.length := by
      rw [hOrdered.perm.length_eq]
      omega
    have hAfter : place < rows.countP fun y => !lt ordered[place] y := by
      rw [← hOrdered.perm.countP_eq]
      refine (getElem_iff hOrdered.sorted (hWeak.down_notGt _) hPlace).mp ?_
      rw [hWeak.irrefl]
      rfl
    have hBefore : rows.countP (lt · ordered[place]) ≤ place := by
      rw [← hOrdered.perm.countP_eq]
      by_contra hMore
      have hSelf := (getElem_iff hOrdered.sorted (hWeak.down_lt ordered[place]) hPlace).mpr
        (by omega)
      rw [hWeak.irrefl] at hSelf
      cases hSelf
    -- No rows tie across the place, so the rows before it are those that sort strictly before
    -- the one that stands there.
    have hExact : rows.countP (lt · ordered[place]) = place := by
      by_contra hOff
      have hMem := hOrdered.perm.subset (List.getElem_mem hPlace)
      exact hNot ⟨ordered[place], hMem, by omega, hAfter⟩
    have hTake := take_countP hOrdered.sorted (hWeak.down_lt ordered[place])
    have hTake' := take_countP hOther.sorted (hWeak.down_lt ordered[place])
    rw [hOrdered.perm.countP_eq, hExact] at hTake
    rw [hOther.perm.countP_eq, hExact] at hTake'
    rw [hTake, hTake']
    exact (hOrdered.perm.trans hOther.perm.symm).filter _

/-- Neighbours that tie may come the other way round. -/
theorem Arranged.swapped {before after : List α} {u v : α}
    (hArranged : Arranged lt rows (before ++ u :: v :: after)) (hTie : lt u v = false) :
    Arranged lt rows (before ++ v :: u :: after) := by
  refine ⟨((List.Perm.swap u v after).append_left before).trans hArranged.perm, ?_⟩
  have hSorted := hArranged.sorted
  simp only [List.pairwise_append, List.pairwise_cons, List.mem_cons, forall_eq_or_imp] at hSorted ⊢
  obtain ⟨hBefore, ⟨⟨hUV, hU⟩, hV, hAfter⟩, hAcross⟩ := hSorted
  refine ⟨hBefore, ⟨⟨hTie, hV⟩, hU, hAfter⟩, fun x hMem => ?_⟩
  obtain ⟨hXU, hXV, hX⟩ := hAcross x hMem
  exact ⟨hXV, hXU, hX⟩

/-- Where rows that look different tie across the place, either may be before it. -/
theorem not_cut_of_steady (hWeak : WeakOrder lt) (hApart : (rows.map out).Nodup)
    (hOrdered : Arranged lt rows ordered) (hSteady : Steady lt out rows place) :
    ¬Cut lt rows place := by
  rintro ⟨x, -, hBefore, hAfter⟩
  obtain ⟨last, rfl⟩ : ∃ last, place = last + 1 := ⟨place - 1, by omega⟩
  have hPlace : last + 1 < ordered.length := by
    rw [hOrdered.perm.length_eq]
    exact lt_of_lt_of_le hAfter List.countP_le_length
  have hLast : lt ordered[last] x = false := by
    by_contra hLess
    have hPast := (getElem_iff hOrdered.sorted (hWeak.down_lt x) (by omega)).mp
      (by simpa using hLess : lt ordered[last] x = true)
    rw [hOrdered.perm.countP_eq] at hPast
    omega
  have hNext : lt x ordered[last + 1] = false := by
    have hLe := (getElem_iff hOrdered.sorted (hWeak.down_notGt x) hPlace).mpr (by
      rw [hOrdered.perm.countP_eq]
      exact hAfter)
    simpa using hLe
  -- The two rows at the place tie.
  have hTie : lt ordered[last] ordered[last + 1] = false := by
    by_contra hLess
    rcases hWeak.split x (by simpa using hLess : lt ordered[last] ordered[last + 1] = true) with
      hLeft | hRight
    · rw [hLast] at hLeft
      cases hLeft
    · rw [hNext] at hRight
      cases hRight
  have hSplit : ordered =
      ordered.take last ++ ordered[last] :: ordered[last + 1] :: ordered.drop (last + 2) := by
    rw [← List.drop_eq_getElem_cons hPlace, ← List.drop_eq_getElem_cons (by omega),
      List.take_append_drop]
  generalize ordered[last] = u at hTie hSplit
  generalize ordered[last + 1] = v at hTie hSplit
  have hLength : (ordered.take last).length = last := by
    rw [List.length_take]
    omega
  generalize ordered.take last = before at hSplit hLength
  generalize ordered.drop (last + 2) = after at hSplit
  subst hSplit
  have hTaken : ∀ first second : α,
      (before ++ first :: second :: after).take (last + 1) = before ++ [first] := by
    intro first second
    rw [List.take_append, List.take_of_length_le (by omega), hLength, Nat.add_sub_cancel_left]
    rfl
  -- Swapped, they are an order as good, and another page.
  have hPerm := hSteady _ _ hOrdered (hOrdered.swapped hTie)
  rw [hTaken, hTaken, List.map_append, List.map_append, List.perm_append_left_iff] at hPerm
  have hSame : out u = out v := by simpa using hPerm
  have hDiffer := ((hOrdered.perm.map out).nodup_iff).mpr hApart
  rw [List.map_append, List.map_cons, List.map_cons, hSame] at hDiffer
  exact (List.nodup_cons.mp (List.nodup_append.mp hDiffer).2.1).1 List.mem_cons_self

/-- An order in which no two rows tie is cut nowhere. -/
theorem not_cut_of_total (hTotal : rows.Pairwise fun x y => lt x y = true ∨ lt y x = true) :
    ¬Cut lt rows place := by
  rintro ⟨x, hMem, hBefore, hAfter⟩
  obtain ⟨before, after, rfl⟩ := List.append_of_mem hMem
  have hOther : ∀ y, y ∈ before ∨ y ∈ after → lt y x = true ∨ lt x y = true := by
    intro y hY
    obtain ⟨-, hRest, hAcross⟩ := List.pairwise_append.mp hTotal
    rcases hY with hY | hY
    · exact hAcross y hY x List.mem_cons_self
    · exact ((List.pairwise_cons.mp hRest).1 y hY).symm
  have hLe : ∀ part : List α, (∀ y ∈ part, y ∈ before ∨ y ∈ after) →
      part.countP (fun y => !lt x y) ≤ part.countP (lt · x) := by
    intro part hPart
    refine List.countP_mono_left fun y hY hNotGt => ?_
    rcases hOther y (hPart y hY) with hLess | hGt
    · exact hLess
    · simp [hGt] at hNotGt
  have hFirst := hLe before fun y hY => .inl hY
  have hSecond := hLe after fun y hY => .inr hY
  rw [List.countP_append, List.countP_cons] at hBefore hAfter
  split at hAfter <;> omega

end Places

/-! ## Pages -/

section Pages

variable {lt : α → α → Bool} {rows ordered : List α} {out : α → β} {limit : Nat}
  {arrange : Nat → List α}

theorem pages_succ (count : Nat) :
    pages limit out arrange (count + 1) =
      pages limit out arrange count ++ (pageOf limit count (arrange count)).map out := by
  rw [pages, List.range_succ, List.flatMap_append, List.flatMap_singleton]
  rfl

theorem take_pageOf (count : Nat) (ordered : List α) :
    ordered.take (count * limit) ++ pageOf limit count ordered =
      ordered.take ((count + 1) * limit) := by
  rw [Nat.succ_mul, List.take_add]
  rfl

/-- Where the rows before each page are the same in all arrangements, the pages go on with what
has been on the pages before. -/
theorem pages_perm (hSteady : ∀ page, Steady lt out rows (page * limit))
    (hArranged : ∀ page, Arranged lt rows (arrange page)) (hOrdered : Arranged lt rows ordered)
    (count : Nat) :
    (pages limit out arrange count).Perm ((ordered.take (count * limit)).map out) := by
  induction count generalizing ordered with
  | zero =>
      rw [Nat.zero_mul, List.take_zero]
      exact .refl _
  | succ count ih =>
      have hStep : (pages limit out arrange count ++
          (pageOf limit count (arrange count)).map out).Perm
            (((arrange count).take ((count + 1) * limit)).map out) := by
        rw [← take_pageOf, List.map_append]
        exact (ih (hArranged count)).append_right _
      rw [pages_succ]
      exact hStep.trans (hSteady (count + 1) _ _ (hArranged count) hOrdered)

/-- The pages before one come out of one arrangement, and those from it on out of another. -/
theorem pages_switch (first second : List α) (page more : Nat) :
    pages limit out (fun i => if i < page then first else second) (page + more) =
      (first.take (page * limit)).map out ++
        ((second.drop (page * limit)).take (more * limit)).map out := by
  have hFirst : ∀ count ≤ page,
      pages limit out (fun i => if i < page then first else second) count =
      (first.take (count * limit)).map out := by
    intro count hCount
    induction count with
    | zero =>
        rw [Nat.zero_mul, List.take_zero]
        rfl
    | succ count ih =>
        rw [pages_succ, ih (by omega), if_pos (by omega), ← List.map_append, take_pageOf]
  induction more with
  | zero =>
      rw [Nat.add_zero, hFirst page le_rfl, Nat.zero_mul, List.take_zero, List.map_nil,
        List.append_nil]
  | succ more ih =>
      have hPage : pageOf limit (page + more) second =
          ((second.drop (page * limit)).drop (more * limit)).take limit := by
        rw [pageOf, List.drop_drop, Nat.add_mul]
      rw [← Nat.add_assoc, pages_succ, ih, if_neg (by omega), hPage, List.append_assoc,
        ← List.map_append, Nat.succ_mul, List.take_add]

/-- The pages are the whole whatever the arrangements. -/
def PagesAreWhole (lt : α → α → Bool) (out : α → β) (rows : List α) (limit : Nat) : Prop :=
  ∀ arrange : Nat → List α, (∀ page, Arranged lt rows (arrange page)) →
    ∀ count, rows.length ≤ count * limit → (pages limit out arrange count).Perm (rows.map out)

theorem steady_of_pagesAreWhole (hLimit : 1 ≤ limit) (hWhole : PagesAreWhole lt out rows limit)
    (page : Nat) : Steady lt out rows (page * limit) := by
  intro ordered other hOrdered hOther
  have hEnough : rows.length ≤ (page + rows.length) * limit :=
    le_trans (Nat.le_add_left _ _) (Nat.le_mul_of_pos_right _ hLimit)
  have hSwitched := hWhole (fun i => if i < page then ordered else other) (fun i => by
    split
    · exact hOrdered
    · exact hOther) _ hEnough
  have hSame := hWhole (fun i => if i < page then other else other) (fun i => by
    split
    · exact hOther
    · exact hOther) _ hEnough
  rw [pages_switch] at hSwitched hSame
  exact (List.perm_append_right_iff _).mp (hSwitched.trans hSame.symm)

theorem pagesAreWhole_of_steady (hSteady : ∀ page, Steady lt out rows (page * limit)) :
    PagesAreWhole lt out rows limit := by
  intro arrange hArranged count hCount
  refine (pages_perm hSteady hArranged (hArranged 0) count).trans ?_
  rw [List.take_of_length_le ((hArranged 0).perm.length_eq ▸ hCount)]
  exact (hArranged 0).perm.map out

/-- Rows of which no two look alike are on the pages once each if and only if no page begins among
rows that tie. -/
theorem pagesAreWhole_iff (hWeak : WeakOrder lt) (hLimit : 1 ≤ limit)
    (hApart : (rows.map out).Nodup) (hOrdered : Arranged lt rows ordered) :
    PagesAreWhole lt out rows limit ↔ ∀ page, ¬Cut lt rows (page * limit) := by
  constructor
  · intro hWhole page
    exact not_cut_of_steady hWeak hApart hOrdered (steady_of_pagesAreWhole hLimit hWhole page)
  · intro hNot
    exact pagesAreWhole_of_steady fun page => steady_of_not_cut hWeak (hNot page)

end Pages

end Sql
end OctoForge
