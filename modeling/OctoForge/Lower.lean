import Mathlib.Algebra.GroupWithZero.Nat
import OctoForge.Text

/-!
# Lower case

`str.lower` maps the characters one by one, and some of them to more than one character.  A
capital sigma is the exception: at the end of a word it has a small letter of its own.
-/

namespace OctoForge

/-- What `str.lower` reads of the database of characters. -/
structure CaseTable where
  lowerChar : Char → Text
  cased : Char → Bool
  ignorable : Char → Bool
  lowerChar_ne_nil : ∀ c, lowerChar c ≠ []

namespace CaseTable

variable (table : CaseTable)

/-- The next character that counts has a case. -/
def startsCased (t : Text) : Bool := (t.dropWhile table.ignorable).head?.any table.cased

/-- One character between others; what is before it is written backwards. -/
def lowerBetween (before : Text) (c : Char) (after : Text) : Text :=
  -- `Final_Sigma`: a cased character comes before it and none after it.
  if c = 'Σ' then
    if table.startsCased before && !table.startsCased after then ['ς'] else ['σ']
  else table.lowerChar c

/-- A text between others. -/
def lowerIn (after : Text) : (before : Text) → Text → Text
  | _, [] => []
  | before, c :: rest =>
      table.lowerBetween before c (rest ++ after) ++ lowerIn after (c :: before) rest

/-- `lower`. -/
def lower (t : Text) : Text := table.lowerIn [] [] t

/-- How many characters a character becomes. -/
def width (c : Char) : Nat := if c = 'Σ' then 1 else (table.lowerChar c).length

variable {table} {before after a b t : Text} {c : Char}

theorem length_lowerBetween :
    (table.lowerBetween before c after).length = table.width c := by
  unfold lowerBetween width
  split
  · split <;> rfl
  · rfl

theorem width_pos (c : Char) : 0 < table.width c := by
  unfold width
  split
  · exact Nat.one_pos
  · exact List.length_pos_of_ne_nil (table.lowerChar_ne_nil c)

/-- A text becomes as long between others as it does alone. -/
theorem length_lowerIn : (table.lowerIn after before t).length = (t.map table.width).sum := by
  induction t generalizing before with
  | nil => rfl
  | cons c rest ih =>
      rw [lowerIn, List.length_append, length_lowerBetween, ih, List.map_cons, List.sum_cons]

theorem length_lower : (table.lower t).length = (t.map table.width).sum := length_lowerIn

theorem lowerIn_append : table.lowerIn after before (a ++ b) =
    table.lowerIn (b ++ after) before a ++ table.lowerIn after (a.reverse ++ before) b := by
  induction a generalizing before with
  | nil => rfl
  | cons c rest ih => simp [lowerIn, ih]

/-- The lower case of a text from some point on. -/
theorem drop_lower (table : CaseTable) (a b : Text) :
    (table.lower (a ++ b)).drop (table.lower a).length = table.lowerIn [] a.reverse b := by
  -- What comes after a text may change its lower case, but not how long it is.
  have hLength : (table.lowerIn (b ++ []) [] a).length = (table.lower a).length := by
    rw [length_lower, length_lowerIn]
  have hWhole : table.lower (a ++ b) =
      table.lowerIn (b ++ []) [] a ++ table.lowerIn [] (a.reverse ++ []) b := lowerIn_append
  rw [hWhole, ← hLength, List.drop_left, List.append_nil]

/-- Without a capital sigma nothing depends on what is around. -/
theorem lowerIn_eq (hSigma : 'Σ' ∉ t) : table.lowerIn after before t = table.lower t := by
  have hEach : ∀ after before, table.lowerIn after before t = t.flatMap table.lowerChar := by
    intro after before
    induction t generalizing before with
    | nil => rfl
    | cons c rest ih =>
        rw [List.mem_cons, not_or] at hSigma
        rw [lowerIn, ih hSigma.2, lowerBetween, if_neg (Ne.symm hSigma.1), List.flatMap_cons]
  rw [lower, hEach, hEach]

/-- A text does not get shorter, and the more of it there is the longer it becomes. -/
theorem length_lower_take {i j : Nat} (hLess : i < j) (hBound : j ≤ t.length) :
    (table.lower (t.take i)).length < (table.lower (t.take j)).length := by
  obtain ⟨c, rest, hDrop⟩ : ∃ c rest, t.drop i = c :: rest :=
    List.exists_cons_of_ne_nil (List.ne_nil_of_length_pos (by rw [List.length_drop]; omega))
  obtain ⟨n, rfl⟩ := Nat.exists_eq_add_of_lt hLess
  have hSplit : t.take (i + n + 1) = t.take i ++ c :: rest.take n := by
    rw [Nat.add_assoc, List.take_add, hDrop, List.take_succ_cons]
  have hWidth : 0 < table.width c := width_pos c
  rw [length_lower, length_lower, hSplit, List.map_append, List.sum_append, List.map_cons,
    List.sum_cons]
  omega

theorem le_length_lower_take {i : Nat} (hBound : i ≤ t.length) :
    i ≤ (table.lower (t.take i)).length := by
  induction i with
  | zero => exact Nat.zero_le _
  | succ i ih =>
      exact Nat.lt_of_le_of_lt (ih (Nat.le_of_succ_le hBound))
        (length_lower_take (Nat.lt_succ_self i) hBound)

theorem lower_ne_nil (hSome : t ≠ []) : table.lower t ≠ [] := by
  have hLength : t.length ≤ (table.lower (t.take t.length)).length :=
    le_length_lower_take (Nat.le_refl _)
  rw [List.take_length] at hLength
  exact List.ne_nil_of_length_pos (Nat.lt_of_lt_of_le (List.length_pos_of_ne_nil hSome) hLength)

end CaseTable
end OctoForge
