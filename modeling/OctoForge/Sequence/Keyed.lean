import Mathlib.Data.List.Nodup

/-!
# Items by their key

Looking an item up by a key.  Where no two items share a key, what is found is the item of the key.
-/

namespace Sequence

variable {α κ : Type} [DecidableEq κ] {key : α → κ} {items : List α} {item : α} {value : κ}

theorem of_find?_key (hFound : items.find? (fun item => key item = value) = some item) :
    item ∈ items ∧ key item = value :=
  ⟨List.mem_of_find?_eq_some hFound, by simpa using List.find?_some hFound⟩

theorem find?_key_eq_some (hNodup : (items.map key).Nodup) :
    items.find? (fun item => key item = value) = some item ↔ item ∈ items ∧ key item = value := by
  refine ⟨of_find?_key, ?_⟩
  rintro ⟨hItem, rfl⟩
  cases hFound : items.find? fun other => key other = key item with
  | none => exact absurd (decide_eq_true rfl) (List.find?_eq_none.mp hFound item hItem)
  | some other =>
      obtain ⟨hOther, hSame⟩ := of_find?_key hFound
      rw [List.inj_on_of_nodup_map hNodup hOther hItem hSame]

end Sequence
