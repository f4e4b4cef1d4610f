import Mathlib.Data.List.Induction

/-!
# Histories

A history is a list that only grows at its end.  `Along P history` says that
every item met the condition `P` when it was appended, where `P` may look at
everything that was in the history before the item.
-/

namespace Sequence

variable {α : Type} {P Q : List α → α → Prop} {history more : List α} {item : α}

/-- Every item met `P` when it was appended. -/
def Along (P : List α → α → Prop) (history : List α) : Prop :=
  ∀ before item after, history = before ++ item :: after → P before item

namespace Along

theorem nil : Along P [] := by
  intro before item after hSplit
  simp at hSplit

/-- What holds along a history holds along its beginnings. -/
theorem of_append (hAlong : Along P (history ++ more)) : Along P history := by
  intro before item after hSplit
  refine hAlong before item (after ++ more) ?_
  rw [hSplit, List.append_assoc, List.cons_append]

theorem last (hAlong : Along P (history ++ [item])) : P history item :=
  hAlong history item [] rfl

theorem snoc (hAlong : Along P history) (hItem : P history item) : Along P (history ++ [item]) := by
  intro before other after hSplit
  rcases List.eq_nil_or_concat after with rfl | ⟨init, final, rfl⟩
  · obtain ⟨rfl, hEq⟩ := List.append_inj' hSplit rfl
    obtain rfl := List.singleton_inj.mp hEq
    exact hItem
  · refine hAlong before other init ?_
    have hEnds : history ++ [item] = (before ++ other :: init) ++ [final] := by
      simpa using hSplit
    exact (List.append_inj' hEnds rfl).1

/-- Items that meet the condition wherever they stand. -/
theorem append (hAlong : Along P history) (hMore : ∀ item ∈ more, ∀ before, P before item) :
    Along P (history ++ more) := by
  induction more using List.reverseRecOn with
  | nil => simpa using hAlong
  | append_singleton init final ih =>
      have hInit : Along P (history ++ init) :=
        ih fun item hMem => hMore item (List.mem_append_left _ hMem)
      rw [← List.append_assoc]
      exact hInit.snoc (hMore final (List.mem_append_right _ List.mem_cons_self) _)

theorem of_mem (hAlong : Along P history) (hMem : item ∈ history) :
    ∃ before after, history = before ++ item :: after ∧ P before item := by
  obtain ⟨before, after, hSplit⟩ := List.append_of_mem hMem
  exact ⟨before, after, hSplit, hAlong before item after hSplit⟩

end Along

instance [∀ before item, Decidable (P before item)] : Decidable (Along P history) :=
  decidable_of_iff (∀ k < history.length, ∀ item ∈ history[k]?, P (history.take k) item)
    ⟨fun hAll before item after hSplit => by
      subst hSplit
      simpa using hAll before.length (by simp) item (by simp),
    fun hAlong k _ item hItem => by
      obtain ⟨hBound, rfl⟩ := List.getElem?_eq_some_iff.mp hItem
      refine hAlong (history.take k) _ (history.drop (k + 1)) ?_
      rw [List.getElem_cons_drop, List.take_append_drop]⟩

end Sequence
