import Mathlib.Data.List.Dedup

/-!
# Distinct values and groups

`SELECT DISTINCT` and `GROUP BY` take NULL for a value like any other, `count(DISTINCT …)` leaves
it out.
-/

namespace OctoForge
namespace Sql

variable {α κ : Type} [DecidableEq κ]

/-- `count(DISTINCT …)`. -/
def countDistinct (values : List (Option κ)) : Nat := (values.filterMap id).dedup.length

/-- `GROUP BY`: each key with the rows that have it. -/
def groups (key : α → κ) (rows : List α) : List (κ × List α) :=
  (rows.map key).dedup.map fun found => (found, rows.filter fun row => key row = found)

theorem length_groups (key : α → κ) (rows : List α) :
    (groups key rows).length = (rows.map key).dedup.length := List.length_map _

theorem keys_groups (key : α → κ) (rows : List α) :
    (groups key rows).map (·.1) = (rows.map key).dedup := by
  rw [groups, List.map_map]
  exact List.map_id _

theorem nodup_groups (key : α → κ) (rows : List α) :
    ((groups key rows).map (·.1)).Nodup := by
  rw [keys_groups]
  exact List.nodup_dedup _

omit [DecidableEq κ] in
theorem filterMap_id_cons_some (value : κ) (rest : List (Option κ)) :
    (some value :: rest).filterMap id = value :: rest.filterMap id := rfl

theorem dedup_filterMap (values : List (Option κ)) :
    (values.filterMap id).dedup = values.dedup.filterMap id := by
  induction values with
  | nil => rfl
  | cons value rest ih =>
      cases value with
      | none =>
          rw [List.filterMap_cons_none rfl, ih]
          by_cases hMem : none ∈ rest
          · rw [List.dedup_cons_of_mem hMem]
          · rw [List.dedup_cons_of_notMem hMem, List.filterMap_cons_none rfl]
      | some found =>
          have hFound : found ∈ rest.filterMap id ↔ some found ∈ rest := by simp
          rw [filterMap_id_cons_some]
          by_cases hMem : some found ∈ rest
          · rw [List.dedup_cons_of_mem (hFound.mpr hMem), List.dedup_cons_of_mem hMem, ih]
          · rw [List.dedup_cons_of_notMem (mt hFound.mp hMem), List.dedup_cons_of_notMem hMem,
              filterMap_id_cons_some, ih]

/-- What `count(DISTINCT …)` leaves out of the distinct values is NULL. -/
theorem countDistinct_add (values : List (Option κ)) [Decidable (none ∈ values)] :
    countDistinct values + (if none ∈ values then 1 else 0) = values.dedup.length := by
  have hSplit : ∀ found : List (Option κ),
      (found.filterMap id).length + found.count none = found.length := by
    intro found
    induction found with
    | nil => rfl
    | cons value rest ih =>
        cases value with
        | none =>
            rw [List.filterMap_cons_none rfl, List.count_cons_self, List.length_cons]
            omega
        | some value =>
            rw [filterMap_id_cons_some, List.count_cons_of_ne (by simp), List.length_cons,
              List.length_cons]
            omega
  have hCount : values.dedup.count none = if none ∈ values then 1 else 0 := by
    split
    · rename_i hMem
      exact List.count_eq_one_of_mem (List.nodup_dedup _) (List.mem_dedup.mpr hMem)
    · rename_i hNot
      exact List.count_eq_zero.mpr (mt List.mem_dedup.mp hNot)
  rw [countDistinct, dedup_filterMap, ← hCount]
  exact hSplit values.dedup

end Sql
end OctoForge
