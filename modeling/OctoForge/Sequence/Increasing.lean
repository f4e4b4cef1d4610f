import Mathlib.Data.Set.Card
import Mathlib.Order.Interval.Finset.Defs
import Mathlib.Order.Interval.Set.Infinite

/-!
# Increasing sequences that may end

The elements of a sequence are asked for one after the other.  Each is above the one before
it, the first one is above `low`, and from where the sequence ends it has no more elements.

Then the elements up to a bound are the first ones, and so many of them as the sequence has
elements in `(low, bound]`.
-/

namespace Sequence

variable {α : Type} [LinearOrder α] {low bound : α} {elements : Nat → Option α} {i j : Nat} {a b : α}

/-- Above `low`, each element is above the one before it, and nothing follows the end. -/
structure Increasing (low : α) (elements : Nat → Option α) : Prop where
  first : ∀ a, elements 0 = some a → low < a
  above : ∀ i a b, elements i = some a → elements (i + 1) = some b → a < b
  ended : ∀ i, elements i = none → elements (i + 1) = none

/-- The elements in `(low, bound]`. -/
def between (low bound : α) (elements : Nat → Option α) : Set α :=
  {a | (∃ i, elements i = some a) ∧ a ∈ Set.Ioc low bound}

namespace Increasing

/-- What stands before an element. -/
theorem exists_before (hElements : Increasing low elements) (hLess : i < j)
    (hJ : elements j = some b) : ∃ a, elements i = some a ∧ a < b := by
  induction j generalizing b with
  | zero => exact absurd hLess (Nat.not_lt_zero i)
  | succ j ih =>
      cases hLast : elements j with
      | none => exact absurd ((hElements.ended j hLast).symm.trans hJ) (by simp)
      | some c =>
          have hAbove := hElements.above j c b hLast hJ
          rcases Nat.lt_succ_iff_lt_or_eq.mp hLess with hBefore | rfl
          · obtain ⟨a, hI, hBelow⟩ := ih hBefore hLast
            exact ⟨a, hI, hBelow.trans hAbove⟩
          · exact ⟨c, hLast, hAbove⟩

theorem low_lt (hElements : Increasing low elements) (hI : elements i = some a) : low < a := by
  rcases Nat.eq_zero_or_pos i with rfl | hPos
  · exact hElements.first a hI
  · obtain ⟨first, hFirst, hBelow⟩ := hElements.exists_before hPos hI
    exact (hElements.first first hFirst).trans hBelow

theorem injective (hElements : Increasing low elements) (hI : elements i = some a)
    (hJ : elements j = some a) : i = j := by
  rcases Nat.lt_trichotomy i j with hLess | hSame | hMore
  · obtain ⟨before, hBefore, hBelow⟩ := hElements.exists_before hLess hJ
    exact absurd (Option.some.inj (hBefore.symm.trans hI)) hBelow.ne
  · exact hSame
  · obtain ⟨before, hBefore, hBelow⟩ := hElements.exists_before hMore hI
    exact absurd (Option.some.inj (hBefore.symm.trans hJ)) hBelow.ne

theorem upTo_of_lt (hElements : Increasing low elements) (hLess : i < j)
    (hJ : ∃ b, elements j = some b ∧ b ≤ bound) : ∃ a, elements i = some a ∧ a ≤ bound := by
  obtain ⟨b, hB, hUpTo⟩ := hJ
  obtain ⟨a, hA, hBelow⟩ := hElements.exists_before hLess hB
  exact ⟨a, hA, hBelow.le.trans hUpTo⟩

variable [LocallyFiniteOrder α]

/-- A sequence does not stay below a bound for ever. -/
theorem exists_not_upTo (hElements : Increasing low elements) (bound : α) :
    ∃ i, ¬∃ a, elements i = some a ∧ a ≤ bound := by
  by_contra hAll
  push Not at hAll
  choose element hElement hUpTo using hAll
  have hInjective : Function.Injective element := fun i j hSame =>
    hElements.injective (hElement i) (hSame ▸ hElement j)
  have hInside : ∀ i, element i ∈ Set.Ioc low bound := fun i =>
    ⟨hElements.low_lt (hElement i), hUpTo i⟩
  exact Set.infinite_of_injective_forall_mem hInjective hInside (Set.finite_Ioc low bound)

/-- The elements up to the bound are the first ones. -/
theorem exists_upTo_iff (hElements : Increasing low elements) (bound : α) :
    ∃ count, ∀ i, (∃ a, elements i = some a ∧ a ≤ bound) ↔ i < count := by
  classical
  have hSome := hElements.exists_not_upTo bound
  refine ⟨Nat.find hSome, fun i => ⟨fun hUpTo => ?_, fun hLess => ?_⟩⟩
  · by_contra hNot
    rcases Nat.lt_or_eq_of_le (Nat.not_lt.mp hNot) with hLess | hSame
    · exact Nat.find_spec hSome (hElements.upTo_of_lt hLess hUpTo)
    · exact Nat.find_spec hSome (hSame ▸ hUpTo)
  · exact not_not.mp (Nat.find_min hSome hLess)

/-- There are as many of them as there are elements between `low` and the bound. -/
theorem upTo_iff (hElements : Increasing low elements) :
    (∃ a, elements i = some a ∧ a ≤ bound) ↔ i < (between low bound elements).ncard := by
  obtain ⟨count, hCount⟩ := hElements.exists_upTo_iff bound
  have hEach : ∀ i, i < count → ∃ a, elements i = some a ∧ a ≤ bound := fun i => (hCount i).mpr
  choose element hElement hUpTo using hEach
  have hCard : (between low bound elements).ncard = count := by
    refine Set.ncard_eq_of_bijective element ?_ ?_ ?_
    · rintro a ⟨⟨i, hI⟩, -, hBound⟩
      have hLess : i < count := (hCount i).mp ⟨a, hI, hBound⟩
      exact ⟨i, hLess, Option.some.inj ((hElement i hLess).symm.trans hI)⟩
    · intro i hLess
      exact ⟨⟨i, hElement i hLess⟩, hElements.low_lt (hElement i hLess), hUpTo i hLess⟩
    · intro i j hI hJ hSame
      exact hElements.injective (hElement i hI) (hSame ▸ hElement j hJ)
  rw [hCard]
  exact hCount i

/-- Counting them from the last one and the one behind it. -/
theorem ncard_eq (hElements : Increasing low elements) {count : Nat}
    (hLast : ∀ i < count, ∃ a, elements i = some a ∧ a ≤ bound)
    (hNext : ¬∃ a, elements count = some a ∧ a ≤ bound) :
    (between low bound elements).ncard = count := by
  refine Nat.le_antisymm (Nat.not_lt.mp fun hMore => ?_) (Nat.not_lt.mp fun hFewer => ?_)
  · exact hNext (hElements.upTo_iff.mpr hMore)
  · exact absurd (hElements.upTo_iff.mp (hLast _ hFewer)) (Nat.lt_irrefl _)

end Increasing
end Sequence
