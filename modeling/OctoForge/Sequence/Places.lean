import Mathlib.Data.List.Basic

/-!
# Items by their place

What is where in a list once an item has been set, or one has come at its end.
-/

namespace Sequence

variable {α : Type} {items : List α} {place k : Nat} {item other : α} {P : α → Prop}

/-- Every place but the one that was set has what it had. -/
theorem getElem?_set_cases (hOther : (items.set k item)[place]? = some other) :
    place = k ∧ other = item ∨ place ≠ k ∧ items[place]? = some other := by
  rw [List.getElem?_set] at hOther
  split at hOther
  · rename_i hIs
    split at hOther
    · exact .inl ⟨hIs.symm, (Option.some.inj hOther).symm⟩
    · exact absurd hOther (by simp)
  · rename_i hNot
    exact .inr ⟨fun hIs => hNot hIs.symm, hOther⟩

theorem getElem?_concat_cases (hOther : (items ++ [item])[place]? = some other) :
    items[place]? = some other ∨ place = items.length ∧ other = item := by
  rw [List.getElem?_append] at hOther
  split at hOther
  · exact .inl hOther
  · rename_i hBound
    obtain ⟨hPlace, hEq⟩ := List.getElem?_eq_some_iff.mp hOther
    rw [List.length_singleton] at hPlace
    exact .inr ⟨by omega, by simpa using hEq.symm⟩

theorem forall_mem_set (hAll : ∀ other ∈ items, P other) (hItem : P item) :
    ∀ other ∈ items.set k item, P other := by
  intro other hOther
  rcases List.mem_or_eq_of_mem_set hOther with hOld | rfl
  · exact hAll other hOld
  · exact hItem

/-- What is around an item, and stays there when the item is set. -/
theorem exists_around (hItem : items[place]? = some item) :
    ∃ before after, items = before ++ item :: after ∧ before.length = place ∧
      ∀ other, items.set place other = before ++ other :: after := by
  obtain ⟨hBound, hGet⟩ := List.getElem?_eq_some_iff.mp hItem
  refine ⟨items.take place, items.drop (place + 1), ?_, ?_, fun other => ?_⟩
  · rw [← hGet, List.getElem_cons_drop, List.take_append_drop]
  · rw [List.length_take, Nat.min_eq_left (Nat.le_of_lt hBound)]
  · rw [List.set_eq_take_append_cons_drop, if_pos hBound]

/-- A part of some frames: the ones that are complete, and the beginning of the next one. -/
theorem exists_complete {β : Type} (frame : α → List β) {part : List β}
    (hPart : part <+: items.flatMap frame) :
    ∃ done later rest, items = done ++ later ∧ part = done.flatMap frame ++ rest ∧
      (later = [] → rest = []) ∧ ∀ next ∈ later.head?, rest <+: frame next ∧ rest ≠ frame next := by
  induction items generalizing part with
  | nil =>
      obtain rfl := List.prefix_nil.mp hPart
      exact ⟨[], [], [], rfl, rfl, fun _ => rfl, fun _ hNext => by cases hNext⟩
  | cons first items ih =>
      by_cases hFirst : frame first <+: part
      · obtain ⟨more, rfl⟩ := hFirst
        rw [List.flatMap_cons, List.prefix_append_right_inj] at hPart
        obtain ⟨done, later, rest, rfl, rfl, hEnd, hNext⟩ := ih hPart
        exact ⟨first :: done, later, rest, rfl, (List.append_assoc ..).symm, hEnd, hNext⟩
      · refine ⟨[], first :: items, part, rfl, rfl, fun hNone => (by cases hNone),
          fun next hNext => ?_⟩
        obtain rfl := Option.some.inj hNext
        rw [List.flatMap_cons] at hPart
        have hShort : part <+: frame first := by
          rcases List.prefix_or_prefix_of_prefix hPart (List.prefix_append (frame first) _) with
            hIs | hLong
          · exact hIs
          · exact absurd hLong hFirst
        exact ⟨hShort, fun hSame => hFirst (hSame ▸ List.prefix_rfl)⟩

end Sequence
