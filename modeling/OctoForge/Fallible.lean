import Mathlib.Data.List.Forall2

/-!
# Computations that may fail

What is known of the parts of a computation that has succeeded.
-/

namespace OctoForge
namespace Fallible

variable {ε α β : Type}

/-- A computation that succeeds does so in both of its halves. -/
theorem bind_eq_ok {first : Except ε α} {next : α → Except ε β} {result : β} :
    first >>= next = .ok result ↔ ∃ value, first = .ok value ∧ next value = .ok result := by
  cases first with
  | error reason =>
      constructor
      · intro hResult
        cases hResult
      · rintro ⟨value, hValue, -⟩
        cases hValue
  | ok value =>
      constructor
      · intro hResult
        exact ⟨value, rfl, hResult⟩
      · rintro ⟨found, hFound, hResult⟩
        obtain rfl := Except.ok.inj hFound
        exact hResult

theorem map_eq_ok {first : Except ε α} {f : α → β} {result : β} :
    first.map f = .ok result ↔ ∃ value, first = .ok value ∧ f value = result := by
  cases first with
  | error reason =>
      constructor
      · intro hResult
        cases hResult
      · rintro ⟨value, hValue, -⟩
        cases hValue
  | ok value =>
      constructor
      · intro hResult
        exact ⟨value, rfl, Except.ok.inj hResult⟩
      · rintro ⟨found, hFound, rfl⟩
        obtain rfl := Except.ok.inj hFound
        rfl

/-- A loop that goes through has gone through each turn. -/
theorem forM_eq_ok {check : α → Except ε Unit} {items : List α} :
    items.forM check = .ok () ↔ ∀ item ∈ items, check item = .ok () := by
  induction items with
  | nil => exact iff_of_true rfl (List.forall_mem_nil _)
  | cons first rest ih =>
      have hCons : (first :: rest).forM check = check first >>= fun _ => rest.forM check := rfl
      rw [hCons, bind_eq_ok, List.forall_mem_cons, ← ih]
      constructor
      · rintro ⟨⟨⟩, hFirst, hRest⟩
        exact ⟨hFirst, hRest⟩
      · rintro ⟨hFirst, hRest⟩
        exact ⟨(), hFirst, hRest⟩

/-- The results of a loop, turn by turn. -/
theorem forall₂_of_mapM {f : α → Except ε β} {items : List α} {results : List β}
    (hRun : items.mapM f = .ok results) :
    List.Forall₂ (fun item result => f item = .ok result) items results := by
  induction items generalizing results with
  | nil =>
      rw [List.mapM_nil] at hRun
      obtain rfl := Except.ok.inj hRun
      exact .nil
  | cons first rest ih =>
      rw [List.mapM_cons] at hRun
      obtain ⟨result, hFirst, hRun⟩ := bind_eq_ok.mp hRun
      obtain ⟨others, hRest, hRun⟩ := bind_eq_ok.mp hRun
      obtain rfl := Except.ok.inj hRun
      exact .cons hFirst (ih hRest)

theorem result_of_mapM {f : α → Except ε β} {items : List α} {results : List β}
    (hRun : items.mapM f = .ok results) :
    ∀ item ∈ items, ∃ result ∈ results, f item = .ok result := by
  have hPairs := forall₂_of_mapM hRun
  clear hRun
  induction hPairs with
  | nil => exact List.forall_mem_nil _
  | @cons first result rest others hFirst _ ih =>
      refine List.forall_mem_cons.mpr ⟨⟨result, List.mem_cons_self, hFirst⟩, ?_⟩
      intro item hItem
      obtain ⟨found, hFound, hOk⟩ := ih item hItem
      exact ⟨found, List.mem_cons_of_mem _ hFound, hOk⟩

theorem item_of_mapM {f : α → Except ε β} {items : List α} {results : List β}
    (hRun : items.mapM f = .ok results) :
    ∀ result ∈ results, ∃ item ∈ items, f item = .ok result := by
  have hPairs := forall₂_of_mapM hRun
  clear hRun
  induction hPairs with
  | nil => exact List.forall_mem_nil _
  | @cons first result rest others hFirst _ ih =>
      refine List.forall_mem_cons.mpr ⟨⟨first, List.mem_cons_self, hFirst⟩, ?_⟩
      intro found hFound
      obtain ⟨item, hItem, hOk⟩ := ih found hFound
      exact ⟨item, List.mem_cons_of_mem _ hItem, hOk⟩

/-- What each turn of a loop keeps of its item, the loop keeps. -/
theorem map_of_mapM {γ : Type} {f : α → Except ε β} {kept : β → γ} {given : α → γ}
    {items : List α} {results : List β}
    (hKeeps : ∀ item result, f item = .ok result → kept result = given item)
    (hRun : items.mapM f = .ok results) : results.map kept = items.map given := by
  have hPairs := forall₂_of_mapM hRun
  clear hRun
  induction hPairs with
  | nil => rfl
  | cons hFirst _ ih => rw [List.map_cons, List.map_cons, hKeeps _ _ hFirst, ih]

/-- A loop whose turns all succeed does. -/
theorem exists_mapM {f : α → Except ε β} {items : List α}
    (hTurns : ∀ item ∈ items, ∃ result, f item = .ok result) :
    ∃ results, items.mapM f = .ok results := by
  induction items with
  | nil => exact ⟨[], rfl⟩
  | cons first rest ih =>
      obtain ⟨result, hFirst⟩ := hTurns first List.mem_cons_self
      obtain ⟨results, hRest⟩ := ih fun item hItem => hTurns item (List.mem_cons_of_mem _ hItem)
      exact ⟨result :: results, by rw [List.mapM_cons, hFirst, hRest]; rfl⟩

theorem mapM_congr {f g : α → Except ε β} {items : List α}
    (hSame : ∀ item ∈ items, f item = g item) : items.mapM f = items.mapM g := by
  induction items with
  | nil => rfl
  | cons first rest ih =>
      rw [List.mapM_cons, List.mapM_cons, hSame first List.mem_cons_self,
        ih fun item hItem => hSame item (List.mem_cons_of_mem _ hItem)]

end Fallible
end OctoForge
