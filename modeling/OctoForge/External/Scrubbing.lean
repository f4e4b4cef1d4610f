import OctoForge.External.Request

/-!
# Scrubbing

The forms of the secrets are masked one after the other.  What masks them stands between brackets,
and so a form without brackets is never found across a mask: no mask brings a form back, or makes
one.
-/

namespace OctoForge
namespace External

/-- A form in which a secret may have travelled: its value or the value that is stored, as it is or
percent-encoded. -/
def IsForm (resolved : Resolved) (form : Text) : Prop :=
  ∃ secret ∈ resolved, ∃ value ∈ [secret.2.value, secret.2.plain], value ≠ [] ∧
    (form = value ∨ form = Url.quote value)

/-- What is between the brackets of the mask. -/
def maskWord : Text := "secret".toList

/-- A form that a mask cannot be mistaken for. -/
structure Maskable (form : Text) : Prop where
  noOpen : '[' ∉ form
  noClose : ']' ∉ form
  notWord : ¬form <:+: maskWord

/-- Every form is masked, and nothing else is touched. -/
structure Masks (resolved : Resolved) (mask : Text → Text) : Prop where
  complete : ∀ body form, IsForm resolved form → ¬form <:+: mask body
  untouched : ∀ body, (∀ form, IsForm resolved form → ¬form <:+: body) → mask body = body

/-- The forms masked in an order. -/
def masked (order : List Text) (body : Text) : Text :=
  order.foldl (fun body form => Text.replace body form secretScrubbed) body

/-- An order in which `sorted` may leave the forms; those of one length come as the set has them. -/
structure LongestFirst (order forms : List Text) : Prop where
  perm : order.Perm forms
  sorted : order.Pairwise fun form other => other.length ≤ form.length

variable {resolved : Resolved} {form other body : Text} {order : List Text}

theorem mem_forms : form ∈ forms resolved ↔ IsForm resolved form := by
  simp only [forms, List.mem_dedup, List.mem_flatMap, List.mem_filter, List.mem_cons,
    List.not_mem_nil, or_false, decide_eq_true_eq, IsForm]
  constructor
  · rintro ⟨value, ⟨⟨secret, hSecret, hValue⟩, hSome⟩, hForm⟩
    exact ⟨secret, hSecret, value, hValue, hSome, hForm⟩
  · rintro ⟨secret, hSecret, value, hValue, hSome, hForm⟩
    exact ⟨value, ⟨⟨secret, hSecret, hValue⟩, hSome⟩, hForm⟩

theorem Maskable.ne_nil (hForm : Maskable form) : form ≠ [] := by
  rintro rfl
  exact hForm.notWord (List.nil_infix)

/-- Masking one form leaves no form that was not there before, and not the form itself. -/
theorem exists_part_of_mask (hOther : Maskable other) (hForm : Maskable form)
    (hFound : form <:+: Text.replace body other secretScrubbed) :
    ∃ part, form <:+: part ∧ part <:+: body ∧ ¬other <:+: part :=
  Text.exists_part_of_replace hOther.ne_nil hForm.noOpen hForm.noClose hForm.notWord hFound

/-- A form that is masked, or that was not there, is not there. -/
theorem not_infix_masked (hOrder : ∀ other ∈ order, Maskable other) (hForm : Maskable form)
    (hGone : form ∈ order ∨ ¬form <:+: body) : ¬form <:+: masked order body := by
  induction order generalizing body with
  | nil => exact hGone.resolve_left List.not_mem_nil
  | cons first rest ih =>
      obtain ⟨hFirst, hRest⟩ := List.forall_mem_cons.mp hOrder
      apply ih hRest
      rcases hGone with hMem | hAbsent
      · rcases List.mem_cons.mp hMem with rfl | hLater
        · refine .inr fun hFound => ?_
          obtain ⟨part, hPart, -, hNone⟩ := exists_part_of_mask hFirst hForm hFound
          exact hNone hPart
        · exact .inl hLater
      · refine .inr fun hFound => ?_
        obtain ⟨part, hPart, hBody, -⟩ := exists_part_of_mask hFirst hForm hFound
        exact hAbsent (hPart.trans hBody)

theorem masked_of_absent (hAbsent : ∀ form ∈ order, ¬form <:+: body) : masked order body = body := by
  induction order with
  | nil => rfl
  | cons first rest ih =>
      obtain ⟨hFirst, hRest⟩ := List.forall_mem_cons.mp hAbsent
      have hSame : Text.replace body first secretScrubbed = body := Text.replace_of_not_infix hFirst
      change masked rest (Text.replace body first secretScrubbed) = body
      rw [hSame, ih hRest]

theorem masks_of_longestFirst (hForms : ∀ form, IsForm resolved form → Maskable form)
    (hOrder : LongestFirst order (forms resolved)) : Masks resolved (masked order) := by
  have hMem : ∀ {form}, form ∈ order ↔ IsForm resolved form := fun {form} =>
    hOrder.perm.mem_iff.trans mem_forms
  refine ⟨fun body form hForm => ?_, fun body hAbsent => ?_⟩
  · exact not_infix_masked (fun other hOther => hForms other (hMem.mp hOther)) (hForms form hForm)
      (.inl (hMem.mpr hForm))
  · exact masked_of_absent fun form hForm => hAbsent form (hMem.mp hForm)

/-- The order of the model is one of them. -/
theorem exists_order (resolved : Resolved) : ∃ order, LongestFirst order (forms resolved) ∧
    (scrub · resolved) = masked order := by
  have hTotal : Std.Total fun form other : Text => other.length ≤ form.length :=
    ⟨fun form other => Nat.le_total other.length form.length⟩
  have hTrans : IsTrans Text fun form other => other.length ≤ form.length :=
    ⟨fun _ _ _ hFirst hSecond => hSecond.trans hFirst⟩
  exact ⟨_, ⟨List.perm_insertionSort _ _, List.pairwise_insertionSort _ _⟩, rfl⟩

/-- **Scrubbing is complete.**  Of secrets whose forms a mask cannot be mistaken for, no form is left
in a text, whatever the forms have in common, and a text with none of them stays as it is. -/
theorem scrub_masks (resolved : Resolved)
    (hForms : ∀ form, IsForm resolved form → Maskable form) :
    Masks resolved (scrub · resolved) ∧
      ∀ order, LongestFirst order (forms resolved) → Masks resolved (masked order) := by
  obtain ⟨order, hOrder, hSame⟩ := exists_order resolved
  refine ⟨?_, fun order hOrder => masks_of_longestFirst hForms hOrder⟩
  rw [hSame]
  exact masks_of_longestFirst hForms hOrder

/-- Two secrets of which one begins with the other. -/
def overlapping : Resolved :=
  [("k".toList, ⟨"ab".toList, "aba".toList, [.header]⟩)]

theorem scrub_masks_overlapping :
    (Masks overlapping (scrub · overlapping) ∧
        ∀ order, LongestFirst order (forms overlapping) → Masks overlapping (masked order)) ∧
      scrub "xababay".toList overlapping = "x[secret]bay".toList := by
  refine ⟨scrub_masks overlapping fun form hForm => ?_, by decide +kernel⟩
  have hAll : ∀ form ∈ forms overlapping, '[' ∉ form ∧ ']' ∉ form ∧ ¬form <:+: maskWord := by
    decide +kernel
  obtain ⟨hOpen, hClose, hWord⟩ := hAll form (mem_forms.mpr hForm)
  exact ⟨hOpen, hClose, hWord⟩

end External
end OctoForge
