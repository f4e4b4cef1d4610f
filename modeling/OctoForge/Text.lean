import Mathlib.Data.List.DropRight
import Mathlib.Data.List.Infix

/-!
# Texts

Python strings as lists of characters, with the operations of `str` that depend on nothing
but the characters.
-/

namespace OctoForge

abbrev Text := List Char

instance : LawfulBEq Text := inferInstance

namespace Text

/-- The characters that `str.strip` takes for white space. -/
def isSpace (c : Char) : Bool :=
  let n := c.toNat
  (9 ≤ n && n ≤ 13) || (28 ≤ n && n ≤ 32) || n == 0x85 || n == 0xA0 || n == 0x1680 ||
    (0x2000 ≤ n && n ≤ 0x200A) || n == 0x2028 || n == 0x2029 || n == 0x202F || n == 0x205F ||
    n == 0x3000

/-- `lstrip`. -/
def lstrip (t : Text) : Text := t.dropWhile isSpace

/-- `rstrip`. -/
def rstrip (t : Text) : Text := t.rdropWhile isSpace

/-- `strip`. -/
def strip (t : Text) : Text := rstrip (lstrip t)

/-- `part in t`. -/
def has (t part : Text) : Bool := decide (part <:+: t)

/-- `find`: where the text first has the part. -/
def find? (part : Text) : Text → Option Nat
  | [] => if part.isEmpty then some 0 else none
  | c :: rest => if part.isPrefixOf (c :: rest) then some 0 else (find? part rest).map (· + 1)

/-- The text, with so many characters to skip, and each occurrence of `old` replaced. -/
def replaceFrom (old new : Text) : (skip : Nat) → Text → Text
  | _, [] => []
  | skip + 1, _ :: rest => replaceFrom old new skip rest
  | 0, c :: rest =>
      if old.isPrefixOf (c :: rest) then new ++ replaceFrom old new (old.length - 1) rest
      else c :: replaceFrom old new 0 rest

/-- `replace`, of a part that is not empty. -/
def replace (t old new : Text) : Text := if old.isEmpty then t else replaceFrom old new 0 t

/-- `str` of an integer. -/
def ofInt (n : Int) : Text := (toString n).toList

/-- The number that is written in decimal digits. -/
def readNat? (t : Text) : Option Nat :=
  if t ≠ [] ∧ t.all Char.isDigit then some (Nat.ofDigitChars 10 t 0) else none

/-- The integer that is written so, perhaps behind a minus. -/
def readInt? : Text → Option Int
  | '-' :: digits => (readNat? digits).map fun value => -(value : Int)
  | digits => (readNat? digits).map fun value => (value : Int)

/-- `str.join`. -/
def join (sep : Text) (parts : List Text) : Text := sep.intercalate parts

/-- `removeprefix`. -/
def removeStart (start t : Text) : Text := if start.isPrefixOf t then t.drop start.length else t

/-! ## Around a character that the part has none of -/

variable {w a b old new : Text} {c : Char}

/-- What is decided character by character, without going through all characters there are. -/
theorem forall_mem_of_all {p : Char → Prop} [DecidablePred p] {t : Text}
    (hAll : (t.all fun c => decide (p c)) = true) : ∀ c ∈ t, p c :=
  fun c hMem => of_decide_eq_true (List.all_eq_true.mp hAll c hMem)

theorem prefix_append_cons_iff (hMem : c ∉ w) : w <+: a ++ c :: b ↔ w <+: a := by
  constructor
  · intro hPrefix
    have hCut : a ++ [c] <+: a ++ c :: b := ⟨b, by simp⟩
    rcases List.prefix_or_prefix_of_prefix hPrefix hCut with hInside | hAcross
    · rcases List.prefix_concat_iff.mp hInside with rfl | hBefore
      · exact absurd (by simp) hMem
      · exact hBefore
    · exact absurd (hAcross.subset (by simp)) hMem
  · exact fun hBefore => hBefore.trans (List.prefix_append a _)

/-- A part without the character is on one side of it. -/
theorem infix_append_cons (hMem : c ∉ w) (hInfix : w <:+: a ++ c :: b) : w <:+: a ∨ w <:+: b := by
  induction a with
  | nil =>
      rcases List.infix_cons_iff.mp hInfix with hPrefix | hAfter
      · exact .inl ((@prefix_append_cons_iff w [] b c hMem).mp hPrefix).isInfix
      · exact .inr hAfter
  | cons d rest ih =>
      rcases List.infix_cons_iff.mp hInfix with hPrefix | hAfter
      · exact .inl ((@prefix_append_cons_iff w (d :: rest) b c hMem).mp hPrefix).isInfix
      · exact (ih hAfter).imp_left fun hRest => hRest.trans (List.infix_cons (List.infix_refl rest))

theorem head_dropWhile {p : Char → Bool} {t rest : Text} (hDrop : t.dropWhile p = c :: rest) :
    p c = false := by
  have hHead := List.head?_dropWhile_not p t
  rw [hDrop] at hHead
  simpa using hHead

/-- What is dropped at the start has no part of it. -/
theorem infix_dropWhile {p : Char → Bool} {t : Text} (hSome : w ≠ []) (hKept : ∀ c ∈ w, p c = false)
    (hInfix : w <:+: t) : w <:+: t.dropWhile p := by
  induction t with
  | nil => exact hInfix
  | cons d rest ih =>
      cases hDropped : p d with
      | false => rwa [List.dropWhile_cons_of_neg (by simp [hDropped])]
      | true =>
          rw [List.dropWhile_cons_of_pos hDropped]
          rcases List.infix_cons_iff.mp hInfix with hPrefix | hAfter
          · obtain ⟨first, more, rfl⟩ := List.exists_cons_of_ne_nil hSome
            obtain ⟨rfl, -⟩ := List.cons_prefix_cons.mp hPrefix
            have hFirst := hKept first List.mem_cons_self
            rw [hDropped] at hFirst
            cases hFirst
          · exact ih hAfter

theorem length_strip_le (t : Text) : (strip t).length ≤ t.length := by
  have hRight : (rstrip (lstrip t)).length ≤ (lstrip t).length :=
    (List.rdropWhile_prefix _ _).length_le
  exact hRight.trans (List.dropWhile_suffix _).length_le

/-- What `find` finds is there, and nowhere before. -/
theorem prefix_of_find? {part : Text} {i : Nat} {t : Text} (hFind : find? part t = some i) :
    part <+: t.drop i ∧ ∀ j, j < i → ¬part <+: t.drop j := by
  induction t generalizing i with
  | nil =>
      rw [find?] at hFind
      split at hFind
      · rename_i hEmpty
        obtain rfl := Option.some.inj hFind
        rw [List.isEmpty_iff.mp hEmpty]
        exact ⟨List.nil_prefix, fun j hLess => absurd hLess (Nat.not_lt_zero j)⟩
      · cases hFind
  | cons d rest ih =>
      rw [find?] at hFind
      split at hFind
      · rename_i hHere
        obtain rfl := Option.some.inj hFind
        exact ⟨List.isPrefixOf_iff_prefix.mp hHere,
          fun j hLess => absurd hLess (Nat.not_lt_zero j)⟩
      · rename_i hNot
        obtain ⟨later, hLater, rfl⟩ := Option.map_eq_some_iff.mp hFind
        refine ⟨(ih hLater).1, fun j hLess => ?_⟩
        cases j with
        | zero => exact fun hHere => hNot (List.isPrefixOf_iff_prefix.mpr hHere)
        | succ j => exact (ih hLater).2 j (Nat.lt_of_succ_lt_succ hLess)

theorem eq_of_find? {part : Text} {i : Nat} {t : Text} (hFind : find? part t = some i) :
    ∃ rest, t = t.take i ++ (part ++ rest) := by
  obtain ⟨rest, hRest⟩ := (prefix_of_find? hFind).1
  refine ⟨rest, ?_⟩
  rw [hRest, List.take_append_drop]

/-- What `find` does not find is nowhere. -/
theorem not_prefix_of_find? {part : Text} {t : Text} (hPart : part ≠ [])
    (hFind : find? part t = none) (i : Nat) : ¬part <+: t.drop i := by
  induction t generalizing i with
  | nil =>
      rw [List.drop_nil]
      exact fun hHere => hPart (List.prefix_nil.mp hHere)
  | cons d rest ih =>
      rw [find?] at hFind
      split at hFind
      · cases hFind
      · rename_i hNot
        cases i with
        | zero => exact fun hHere => hNot (List.isPrefixOf_iff_prefix.mpr hHere)
        | succ i => exact ih (Option.map_eq_none_iff.mp hFind) i

theorem replaceFrom_of_not_infix (hOld : ¬old <:+: a) : replaceFrom old new 0 a = a := by
  induction a with
  | nil => rfl
  | cons d rest ih =>
      have hHere : old.isPrefixOf (d :: rest) = false := by
        rw [Bool.eq_false_iff]
        exact fun hPrefix => hOld (List.isPrefixOf_iff_prefix.mp hPrefix).isInfix
      have hRest : ¬old <:+: rest := fun hAfter =>
        hOld (hAfter.trans (List.infix_cons (List.infix_refl rest)))
      rw [replaceFrom, hHere, if_neg (by simp), ih hRest]

/-- Nothing is replaced across the character. -/
theorem replaceFrom_append_cons (hSome : old ≠ []) (hMem : c ∉ old) :
    ∀ {skip : Nat}, skip ≤ a.length → replaceFrom old new skip (a ++ c :: b) =
      replaceFrom old new skip a ++ c :: replaceFrom old new 0 b := by
  induction a with
  | nil =>
      intro skip hSkip
      obtain rfl : skip = 0 := Nat.le_zero.mp hSkip
      have hHere : old.isPrefixOf (c :: b) = false := by
        rw [Bool.eq_false_iff]
        intro hPrefix
        have hNil := (@prefix_append_cons_iff old [] b c hMem).mp
          (List.isPrefixOf_iff_prefix.mp hPrefix)
        exact hSome (List.prefix_nil.mp hNil)
      simp [replaceFrom, hHere]
  | cons d rest ih =>
      intro skip hSkip
      cases skip with
      | succ skip =>
          rw [List.cons_append, replaceFrom, replaceFrom, ih (by simpa using hSkip)]
      | zero =>
          have hSame : old.isPrefixOf (d :: (rest ++ c :: b)) = old.isPrefixOf (d :: rest) := by
            rw [Bool.eq_iff_iff, List.isPrefixOf_iff_prefix, List.isPrefixOf_iff_prefix,
              ← List.cons_append, prefix_append_cons_iff hMem]
          rw [List.cons_append, replaceFrom, replaceFrom, hSame]
          split
          · rename_i hPrefix
            have hLength := (List.isPrefixOf_iff_prefix.mp hPrefix).length_le
            rw [ih (by simp at hLength; omega), List.append_assoc]
          · rw [ih (Nat.zero_le _), List.cons_append]

theorem replace_of_not_infix (hOld : ¬old <:+: a) : replace a old new = a := by
  unfold replace
  split
  · rfl
  · exact replaceFrom_of_not_infix hOld

theorem replace_append_cons (hMem : c ∉ old) :
    replace (a ++ c :: b) old new = replace a old new ++ c :: replace b old new := by
  unfold replace
  cases old with
  | nil => rfl
  | cons first more => exact replaceFrom_append_cons (by simp) hMem (Nat.zero_le _)

theorem mem_replaceFrom {d : Char} : ∀ {skip : Nat}, d ∈ replaceFrom old new skip a →
    d ∈ a ∨ d ∈ new := by
  induction a with
  | nil => intro skip hMem; simp [replaceFrom] at hMem
  | cons e rest ih =>
      intro skip hMem
      cases skip with
      | succ skip =>
          rw [replaceFrom] at hMem
          exact (ih hMem).imp_left (List.mem_cons_of_mem _)
      | zero =>
          rw [replaceFrom] at hMem
          split at hMem
          · rcases List.mem_append.mp hMem with hNew | hRest
            · exact .inr hNew
            · exact (ih hRest).imp_left (List.mem_cons_of_mem _)
          · rcases List.mem_cons.mp hMem with rfl | hRest
            · exact .inl List.mem_cons_self
            · exact (ih hRest).imp_left (List.mem_cons_of_mem _)

theorem mem_replace {d : Char} (hMem : d ∈ replace a old new) : d ∈ a ∨ d ∈ new := by
  unfold replace at hMem
  split at hMem
  · exact .inl hMem
  · exact mem_replaceFrom hMem

/-- Where the old part is, the new one comes to be. -/
theorem infix_replace (hSome : old ≠ []) (hOld : old <:+: a) : new <:+: replace a old new := by
  have hFrom : new <:+: replaceFrom old new 0 a := by
    induction a with
    | nil => exact absurd (List.infix_nil.mp hOld) hSome
    | cons d rest ih =>
        rw [replaceFrom]
        split
        · exact (List.prefix_append _ _).isInfix
        · rename_i hHere
          rcases List.infix_cons_iff.mp hOld with hPrefix | hRest
          · exact absurd (List.isPrefixOf_iff_prefix.mpr hPrefix) hHere
          · exact (ih hRest).trans (List.infix_cons (List.infix_refl _))
  rw [replace, if_neg (by simpa using hSome)]
  exact hFrom

theorem replaceFrom_skip : ∀ (a b : Text), replaceFrom old new a.length (a ++ b) =
    replaceFrom old new 0 b
  | [], _ => rfl
  | _ :: rest, b => replaceFrom_skip rest b

/-- The text up to the first occurrence is kept, and the search goes on behind it. -/
theorem replaceFrom_cases (hSome : old ≠ []) (a : Text) :
    (¬old <:+: a ∧ replaceFrom old new 0 a = a) ∨
      ∃ before after, a = before ++ old ++ after ∧ ¬old <:+: before ∧
        replaceFrom old new 0 a = before ++ new ++ replaceFrom old new 0 after := by
  by_cases hOld : old <:+: a
  · right
    induction a with
    | nil => exact absurd (List.infix_nil.mp hOld) hSome
    | cons c rest ih =>
        by_cases hHere : old.isPrefixOf (c :: rest) = true
        · obtain ⟨after, hAfter⟩ := List.isPrefixOf_iff_prefix.mp hHere
          refine ⟨[], after, hAfter.symm, fun hNil => hSome (List.infix_nil.mp hNil), ?_⟩
          rw [replaceFrom, if_pos hHere, List.nil_append]
          cases old with
          | nil => exact absurd rfl hSome
          | cons first more =>
              obtain ⟨-, hRest⟩ := List.cons.inj hAfter
              rw [← hRest]
              exact congrArg (new ++ ·) (replaceFrom_skip more after)
        · rcases List.infix_cons_iff.mp hOld with hPrefix | hRest
          · exact absurd (List.isPrefixOf_iff_prefix.mpr hPrefix) hHere
          · obtain ⟨before, after, rfl, hBefore, hReplaced⟩ := ih hRest
            refine ⟨c :: before, after, rfl, fun hInfix => ?_, ?_⟩
            · rcases List.infix_cons_iff.mp hInfix with hPrefix | hInside
              · refine hHere (List.isPrefixOf_iff_prefix.mpr (hPrefix.trans ?_))
                exact ⟨old ++ after, by simp⟩
              · exact hBefore hInside
            · rw [replaceFrom, if_neg hHere, hReplaced]
              rfl
  · exact .inl ⟨hOld, replaceFrom_of_not_infix hOld⟩

/-- What is in a text whose parts have been replaced by a bracketed word, and neither crosses a
bracket nor is in the word, has been in the text, and away from the parts. -/
theorem exists_part_of_replace {inner : Text} {d : Char} (hSome : old ≠ []) (hOpen : c ∉ w)
    (hClose : d ∉ w) (hInner : ¬w <:+: inner)
    (hFound : w <:+: replace a old (c :: (inner ++ [d]))) :
    ∃ part, w <:+: part ∧ part <:+: a ∧ ¬old <:+: part := by
  rw [replace, if_neg (by simpa using hSome)] at hFound
  induction hLength : a.length using Nat.strong_induction_on generalizing a with
  | _ n ih =>
      rcases @replaceFrom_cases old (c :: (inner ++ [d])) hSome a with
        ⟨hOld, hSame⟩ | ⟨before, after, rfl, hBefore, hReplaced⟩
      · exact ⟨a, hSame ▸ hFound, List.infix_refl a, hOld⟩
      · rw [hReplaced, List.append_assoc, List.cons_append] at hFound
        rcases infix_append_cons hOpen hFound with hHere | hRest
        · exact ⟨before, hHere, (List.prefix_append _ _).isInfix.trans
            (List.prefix_append _ _).isInfix, hBefore⟩
        · rw [List.append_assoc, List.singleton_append] at hRest
          rcases infix_append_cons hClose hRest with hWord | hLater
          · exact absurd hWord hInner
          · have hShorter : after.length < n := by
              have hPositive := List.length_pos_of_ne_nil hSome
              rw [← hLength, List.length_append, List.length_append]
              omega
            obtain ⟨part, hPart, hAfter, hOld⟩ := ih _ hShorter hLater rfl
            exact ⟨part, hPart, hAfter.trans (List.suffix_append _ _).isInfix, hOld⟩

/-! ## What leaves a character where it is -/

/-- A change of a text on each side of a character by itself. -/
structure Through (c : Char) (f : Text → Text) : Prop where
  append : ∀ a b, f (a ++ c :: b) = f a ++ c :: f b
  free : ∀ a, c ∉ a → c ∉ f a

theorem through_replace (hOld : c ∉ old) (hNew : c ∉ new) :
    Through c fun t => replace t old new where
  append _ _ := replace_append_cons hOld
  free _ hFree hMem := (mem_replace hMem).elim hFree hNew

theorem through_filter {p : Char → Bool} (hKept : p c = true) : Through c (List.filter p) where
  append a b := by rw [List.filter_append, List.filter_cons_of_pos hKept]
  free _ hFree hMem := hFree (List.mem_of_mem_filter hMem)

variable {f : Text → Text}

/-- Up to the character, it is a change of what is up to there. -/
theorem Through.takeWhile (hThrough : Through c f) (t : Text) :
    (f t).takeWhile (· != c) = f (t.takeWhile (· != c)) := by
  have hFree : c ∉ t.takeWhile (· != c) := fun hMem => by
    have hOther := List.mem_takeWhile_imp hMem
    simp at hOther
  have hAll : ∀ d ∈ f (t.takeWhile (· != c)), (d != c) = true := fun d hMem => by
    rw [bne_iff_ne]
    rintro rfl
    exact hThrough.free _ hFree hMem
  have hSplit := List.takeWhile_append_dropWhile (p := (· != c)) (l := t)
  cases hDrop : t.dropWhile (· != c) with
  | nil =>
      rw [hDrop, List.append_nil] at hSplit
      rw [hSplit] at hAll ⊢
      exact List.takeWhile_eq_self_iff.mpr hAll
  | cons d rest =>
      have hSame : d = c := by simpa using head_dropWhile hDrop
      subst hSame
      rw [hDrop] at hSplit
      conv_lhs => rw [← hSplit, hThrough.append]
      rw [List.takeWhile_append_of_pos hAll]
      simp

theorem not_mem_of_mem_splitOn {part t : Text} (hPart : part ∈ t.splitOn c) : c ∉ part := by
  induction t generalizing part with
  | nil =>
      obtain rfl : part = [] := by simpa using hPart
      exact List.not_mem_nil
  | cons d rest ih =>
      rw [List.splitOn_cons_eq_if_modifyHead] at hPart
      split at hPart
      · rcases List.mem_cons.mp hPart with rfl | hLater
        · exact List.not_mem_nil
        · exact ih hLater
      · rename_i hOther
        obtain ⟨first, more, hSplit⟩ := List.exists_cons_of_ne_nil (List.splitOn_ne_nil c rest)
        rw [hSplit] at hPart ih
        rcases List.mem_cons.mp hPart with rfl | hLater
        · have hSame : c ≠ d := fun hEq => hOther (by simp [hEq])
          simpa [hSame] using ih List.mem_cons_self
        · exact ih (List.mem_cons_of_mem _ hLater)

/-- Between the characters, it is a change of each part. -/
theorem Through.splitOn (hThrough : Through c f) (t : Text) :
    (f t).splitOn c = (t.splitOn c).map f := by
  have hJoin : ∀ parts : List Text, parts ≠ [] →
      f ([c].intercalate parts) = [c].intercalate (parts.map f) := by
    intro parts
    induction parts with
    | nil => exact fun hSome => absurd rfl hSome
    | cons first rest ih =>
        intro _
        cases rest with
        | nil => simp
        | cons second more =>
            have hRest : second :: more ≠ [] := List.cons_ne_nil _ _
            have hMap : (second :: more).map f ≠ [] := List.cons_ne_nil _ _
            have hMapped : [c].intercalate ((first :: second :: more).map f) =
                f first ++ [c] ++ [c].intercalate ((second :: more).map f) :=
              List.intercalate_cons_of_ne_nil hMap
            rw [hMapped, List.intercalate_cons_of_ne_nil hRest, List.append_assoc,
              List.singleton_append, hThrough.append, ih hRest, List.append_assoc,
              List.singleton_append]
  have hParts := hJoin (t.splitOn c) (List.splitOn_ne_nil _ _)
  rw [List.intercalate_splitOn] at hParts
  rw [hParts]
  refine List.splitOn_intercalate c ?_ (by simp)
  intro part hPart
  obtain ⟨before, hBefore, rfl⟩ := List.mem_map.mp hPart
  exact hThrough.free before (not_mem_of_mem_splitOn hBefore)

/-! ## Integers and their texts -/

theorem readNat?_toDigits (n : Nat) : readNat? (Nat.toDigits 10 n) = some n := by
  have hDigits : (Nat.toDigits 10 n).all Char.isDigit = true :=
    List.all_eq_true.mpr fun c hMem => Nat.isDigit_of_mem_toDigits (by decide) (by decide) hMem
  rw [readNat?, if_pos ⟨Nat.toDigits_ne_nil, hDigits⟩,
    Nat.ofDigitChars_toDigits (by decide) (by decide)]

theorem readInt?_toDigits (n : Nat) : readInt? (Nat.toDigits 10 n) = some (n : Int) := by
  have hMinus : '-' ∉ Nat.toDigits 10 n := fun hMem =>
    absurd (Nat.isDigit_of_mem_toDigits (by decide) (by decide) hMem) (by decide)
  rw [readInt?, readNat?_toDigits]
  · rfl
  · intro digits hIs
    exact hMinus (by rw [hIs]; exact List.mem_cons_self)

theorem readInt?_ofInt (value : Int) : readInt? (ofInt value) = some value := by
  rw [ofInt, Int.toString_eq_repr]
  cases value with
  | ofNat n =>
      show readInt? n.repr.toList = _
      rw [Nat.toList_repr, readInt?_toDigits]
      rfl
  | negSucc n =>
      show readInt? ("-" ++ n.succ.repr).toList = _
      have hMinus : "-".toList = ['-'] := by decide
      rw [String.toList_append, Nat.toList_repr, hMinus, List.singleton_append, readInt?,
        readNat?_toDigits]
      simp [Int.negSucc_eq]

theorem ofInt_injective : Function.Injective ofInt := by
  intro m n hSame
  have hRead := congrArg readInt? hSame
  rw [readInt?_ofInt, readInt?_ofInt] at hRead
  exact Option.some.inj hRead

end Text
end OctoForge
