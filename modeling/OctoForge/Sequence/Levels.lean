import Mathlib.Algebra.GroupWithZero.Nat
import Mathlib.Data.List.Basic

/-!
# The levels of a tree

The nodes below a root, one level after the other.  On a level the nodes are in the order of their
parents, and below one parent in the order of its children, so that the levels one after the other
are the breadth-first order.
-/

namespace OctoForge
namespace Levels

variable {α : Type} (children : α → List α) (root : α)

/-- The nodes at a depth. -/
def level : (depth : Nat) → List α
  | 0 => [root]
  | depth + 1 => (level depth).flatMap children

/-- There is a path of this length to the node. -/
inductive Reaches : (depth : Nat) → α → Prop
  | root : Reaches 0 root
  | child {depth : Nat} {node inner : α} (hNode : Reaches depth node)
      (hInner : inner ∈ children node) : Reaches (depth + 1) inner

/-- How many nodes there are above a depth. -/
def above (depth : Nat) : Nat := ((List.range depth).map fun d => (level children root d).length).sum

variable {children root} {depth : Nat} {node : α}

@[simp] theorem level_zero : level children root 0 = [root] := rfl

theorem level_succ : level children root (depth + 1) = (level children root depth).flatMap children :=
  rfl

theorem mem_level : node ∈ level children root depth ↔ Reaches children root depth node := by
  constructor
  · intro hMem
    induction depth generalizing node with
    | zero =>
        obtain rfl := List.mem_singleton.mp hMem
        exact .root
    | succ depth ih =>
        obtain ⟨parent, hParent, hNode⟩ := List.mem_flatMap.mp hMem
        exact .child (ih hParent) hNode
  · intro hReaches
    induction hReaches with
    | root => exact List.mem_singleton_self root
    | child _ hInner ih => exact List.mem_flatMap.mpr ⟨_, ih, hInner⟩

/-- Below an empty level there is nothing. -/
theorem level_eq_nil_of_le {lower : Nat} (hEmpty : level children root depth = [])
    (hLe : depth ≤ lower) : level children root lower = [] := by
  induction hLe with
  | refl => exact hEmpty
  | step _ ih => rw [level_succ, ih, List.flatMap_nil]

@[simp] theorem above_zero : above children root 0 = 0 := rfl

theorem above_succ : above children root (depth + 1) =
    above children root depth + (level children root depth).length := by
  rw [above, List.range_succ, List.map_append, List.sum_append, above]
  simp

theorem above_le {lower : Nat} (hLe : depth ≤ lower) :
    above children root depth ≤ above children root lower := by
  induction hLe with
  | refl => exact Nat.le_refl _
  | step _ ih =>
      rw [above_succ]
      omega

end Levels
end OctoForge
