import Mathlib.Data.List.Basic
import Mathlib.Logic.Relation

/-!
# Who came first

A list that only grows at its end says of two items which of them came first, and goes on saying
so.  Where everybody refers to somebody earlier, no chain of references comes back.
-/

namespace Sequence

variable {α : Type} {arrived : List α} {a b : α}

/-- `a` has come, and if `b` has, it was later. -/
def Preceded (arrived : List α) (a b : α) : Prop :=
  ∃ earlier later, arrived = earlier ++ later ∧ a ∈ earlier ∧ b ∉ earlier

theorem preceded_of_not_mem (hHere : a ∈ arrived) (hNot : b ∉ arrived) : Preceded arrived a b :=
  ⟨arrived, [], (List.append_nil _).symm, hHere, hNot⟩

theorem Preceded.append (hBefore : Preceded arrived a b) (more : List α) :
    Preceded (arrived ++ more) a b := by
  obtain ⟨earlier, later, rfl, hHere, hNot⟩ := hBefore
  exact ⟨earlier, later ++ more, List.append_assoc .., hHere, hNot⟩

theorem Preceded.idxOf_lt [DecidableEq α] (hBefore : Preceded arrived a b) :
    arrived.idxOf a < arrived.idxOf b := by
  obtain ⟨earlier, later, rfl, hHere, hNot⟩ := hBefore
  rw [List.idxOf_append_of_mem hHere, List.idxOf_append_of_notMem hNot]
  exact Nat.lt_of_lt_of_le (List.idxOf_lt_length_of_mem hHere) (Nat.le_add_right ..)

/-- Where everybody refers to somebody earlier, nobody comes back to himself. -/
theorem not_transGen_self {R : α → α → Prop} (hEarlier : ∀ x y, R x y → Preceded arrived y x)
    (x : α) : ¬ Relation.TransGen R x x := by
  classical
  have hLess : ∀ x y, Relation.TransGen R x y → arrived.idxOf y < arrived.idxOf x := by
    intro x y hChain
    induction hChain with
    | single hStep => exact (hEarlier _ _ hStep).idxOf_lt
    | tail _ hStep ih => exact Nat.lt_trans (hEarlier _ _ hStep).idxOf_lt ih
  exact fun hChain => Nat.lt_irrefl _ (hLess x x hChain)

end Sequence
