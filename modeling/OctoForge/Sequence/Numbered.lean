import Mathlib.Data.List.Basic

/-!
# Consecutively numbered lists

A list that is only ever extended at its end and cut at its front keeps its
items under consecutive numbers when every item is numbered by how many came
before it.  `Numbered number start items` says so: the items carry the numbers
`start`, `start + 1`, and so on.  Positions in such a list and numbers of its
items are then two names for the same thing, whatever was cut meanwhile.
-/

namespace Sequence

variable {α : Type} {number : α → Nat} {start : Nat} {items : List α}

/-- The items carry consecutive numbers from `start` on. -/
def Numbered (number : α → Nat) (start : Nat) (items : List α) : Prop :=
  items.map number = List.range' start items.length

namespace Numbered

theorem of_map_eq {items' : List α} (hItems : Numbered number start items)
    (hMap : items'.map number = items.map number) : Numbered number start items' := by
  have hLength : items'.length = items.length := by
    simpa using congrArg List.length hMap
  unfold Numbered
  rw [hMap, hLength]
  exact hItems

theorem cons_iff {item : α} :
    Numbered number start (item :: items) ↔
      number item = start ∧ Numbered number (start + 1) items := by
  simp [Numbered, List.range'_succ]

theorem append {items' : List α} (hItems : Numbered number start items)
    (hItems' : Numbered number (start + items.length) items') :
    Numbered number start (items ++ items') := by
  unfold Numbered at *
  rw [List.map_append, hItems, hItems', List.length_append, ← List.range'_append_1]

theorem of_append {items' : List α} (hItems : Numbered number start (items ++ items')) :
    Numbered number start items ∧ Numbered number (start + items.length) items' := by
  unfold Numbered at *
  rw [List.map_append, List.length_append, ← List.range'_append_1] at hItems
  exact List.append_inj hItems (by simp)

theorem drop (hItems : Numbered number start items) (count : Nat) :
    Numbered number (start + min count items.length) (items.drop count) := by
  induction items generalizing start count with
  | nil => simp [Numbered]
  | cons item rest ih =>
      cases count with
      | zero => simpa using hItems
      | succ count =>
          have hRest := ih (cons_iff.mp hItems).2 count
          have hStart : start + min (count + 1) (rest.length + 1) =
              start + 1 + min count rest.length := by omega
          rw [List.drop_succ_cons, List.length_cons, hStart]
          exact hRest

theorem bounds (hItems : Numbered number start items) {item : α} (hMem : item ∈ items) :
    start ≤ number item ∧ number item < start + items.length := by
  have hNumber : number item ∈ List.range' start items.length := by
    rw [← hItems]
    exact List.mem_map_of_mem hMem
  exact List.mem_range'_1.mp hNumber

theorem exists_of_bounds (hItems : Numbered number start items) {k : Nat} (hLow : start ≤ k)
    (hHigh : k < start + items.length) : ∃ item ∈ items, number item = k := by
  have hNumber : k ∈ items.map number := by
    rw [hItems]
    exact List.mem_range'_1.mpr ⟨hLow, hHigh⟩
  exact List.mem_map.mp hNumber

/-- Past a position of the list are exactly the items with a number from there
on, in order. -/
theorem drop_eq_filter (hItems : Numbered number start items) (count : Nat) :
    items.drop count = items.filter fun item => decide (start + count ≤ number item) := by
  induction items generalizing start count with
  | nil => simp
  | cons item rest ih =>
      obtain ⟨hItem, hRest⟩ := cons_iff.mp hItems
      cases count with
      | zero =>
          rw [List.drop_zero, eq_comm, List.filter_eq_self]
          intro other hOther
          have := (hItems.bounds hOther).1
          simpa using this
      | succ count =>
          have hSkip : ¬ start + (count + 1) ≤ number item := by omega
          rw [List.drop_succ_cons, List.filter_cons, if_neg (by simpa using hSkip), ih hRest count]
          have hShift : start + 1 + count = start + (count + 1) := by omega
          rw [hShift]

theorem mem_drop_iff (hItems : Numbered number start items) {count : Nat} {item : α} :
    item ∈ items.drop count ↔ item ∈ items ∧ start + count ≤ number item := by
  rw [hItems.drop_eq_filter count]
  simp

theorem mem_take (hItems : Numbered number start items) {count : Nat} {item : α}
    (hMem : item ∈ items) (hBelow : number item < start + count) : item ∈ items.take count := by
  have hSplit : item ∈ items.take count ++ items.drop count := by
    rw [List.take_append_drop]
    exact hMem
  rcases List.mem_append.mp hSplit with hTake | hDrop
  · exact hTake
  · have := (hItems.mem_drop_iff.mp hDrop).2
    omega

/-- The last number is the largest. -/
theorem foldr_max (hItems : Numbered number start items) (hSome : items ≠ []) :
    (items.map number).foldr max 0 = start + items.length - 1 := by
  induction items generalizing start with
  | nil => exact absurd rfl hSome
  | cons item rest ih =>
      obtain ⟨rfl, hRest⟩ := cons_iff.mp hItems
      by_cases hLast : rest = []
      · subst hLast
        simp
      · have hMax := ih hRest hLast
        simp only [List.map_cons, List.foldr_cons, List.length_cons, hMax]
        omega

end Numbered

end Sequence
