import Mathlib.Data.List.Forall2
import OctoForge.Text

/-!
# Dot segments

The removal of the segments `.` and `..` from a path, by the rules of RFC 3986: the segments are
read one after the other, and what is left of them is kept on a stack.  A path whose segments
never take back more than is there stays below the place where they begin.
-/

namespace OctoForge
namespace Dots

/-- A segment that others follow. -/
def push (stack : List Text) (segment : Text) : List Text :=
  if segment = ['.'] then stack
  else if segment = ['.', '.'] then stack.tail
  else segment :: stack

/-- The last segment; behind one of dots the path ends with a slash. -/
def close (stack : List Text) (segment : Text) : List Text :=
  if segment = ['.'] then [] :: stack
  else if segment = ['.', '.'] then [] :: stack.tail
  else segment :: stack

/-- The segments that are left, the last one first. -/
def walk (stack : List Text) : List Text → List Text
  | [] => stack
  | [last] => close stack last
  | segment :: next :: rest => walk (push stack segment) (next :: rest)

/-- The path without its dot segments; one that does not begin with a slash is left as it is. -/
def remove : Text → Text
  | '/' :: rest => '/' :: Text.join ['/'] (walk [] (rest.splitOn '/')).reverse
  | path => path

/-- Each `..` has a segment before it that it takes back. -/
def stays : Nat → List Text → Bool
  | _, [] => true
  | depth, segment :: rest =>
      if segment = ['.'] then stays depth rest
      else if segment = ['.', '.'] then decide (0 < depth) && stays (depth - 1) rest
      else stays (depth + 1) rest

/-- A segment that is no dot segment. -/
def Plain (segment : Text) : Prop := segment ≠ ['.'] ∧ segment ≠ ['.', '.']

instance (segment : Text) : Decidable (Plain segment) :=
  inferInstanceAs (Decidable (segment ≠ ['.'] ∧ segment ≠ ['.', '.']))

variable {stack base new names segments : List Text} {start rest : Text}

theorem push_of_plain {segment : Text} (hPlain : Plain segment) :
    push stack segment = segment :: stack := by
  rw [push, if_neg hPlain.1, if_neg hPlain.2]

/-- Segments that are no dot segments are all kept. -/
theorem walk_append (hNames : ∀ name ∈ names, Plain name) (hSome : segments ≠ []) :
    walk stack (names ++ segments) = walk (names.reverse ++ stack) segments := by
  induction names generalizing stack with
  | nil => rfl
  | cons name more ih =>
      have hRest : more ++ segments ≠ [] := by simp [hSome]
      obtain ⟨next, others, hNext⟩ := List.exists_cons_of_ne_nil hRest
      rw [List.cons_append, hNext, walk, ← hNext, push_of_plain (hNames name List.mem_cons_self),
        ih fun other hOther => hNames other (List.mem_cons_of_mem _ hOther)]
      simp

/-- A walk that stays leaves what was on the stack before. -/
theorem walk_stays (hSome : segments ≠ []) (hStays : stays new.length segments = true) :
    ∃ out, out ≠ [] ∧ walk (new ++ base) segments = out ++ base := by
  induction segments generalizing new with
  | nil => exact absurd rfl hSome
  | cons segment more ih =>
      rw [stays] at hStays
      cases more with
      | nil =>
          rw [walk, close]
          split
          · exact ⟨[] :: new, by simp, rfl⟩
          · rename_i hDot
            rw [if_neg hDot] at hStays
            split
            · rename_i hDots
              rw [if_pos hDots] at hStays
              -- Staying says that there is something new to take off the stack.
              cases new with
              | nil => simp at hStays
              | cons top below => exact ⟨[] :: below, by simp, rfl⟩
            · exact ⟨segment :: new, by simp, rfl⟩
      | cons next others =>
          rw [walk, push]
          split
          · rename_i hDot
            rw [if_pos hDot] at hStays
            exact ih (by simp) hStays
          · rename_i hDot
            rw [if_neg hDot] at hStays
            split
            · rename_i hDots
              rw [if_pos hDots, Bool.and_eq_true] at hStays
              cases new with
              | nil => simp at hStays
              | cons top below => exact ih (by simp) hStays.2
            · rename_i hDots
              rw [if_neg hDots] at hStays
              exact @ih (segment :: new) (by simp) hStays

theorem join_append {parts : List Text} (hNames : names ≠ []) (hParts : parts ≠ []) :
    Text.join ['/'] (names ++ parts) =
      Text.join ['/'] names ++ '/' :: Text.join ['/'] parts := by
  unfold Text.join
  induction names with
  | nil => exact absurd rfl hNames
  | cons name more ih =>
      cases more with
      | nil => simp [List.intercalate_cons_of_ne_nil hParts]
      | cons next others =>
          have hMore : next :: others ≠ [] := List.cons_ne_nil _ _
          have hAll : next :: others ++ parts ≠ [] := List.cons_ne_nil _ _
          rw [List.cons_append, List.intercalate_cons_of_ne_nil hAll, ih hMore,
            List.intercalate_cons_of_ne_nil hMore]
          simp only [List.append_assoc]

/-- What stands before a part that stays is still before what is left of it. -/
theorem prefix_remove (hStart : ∀ segment ∈ start.splitOn '/', Plain segment)
    (hStays : stays 0 (rest.splitOn '/') = true) :
    '/' :: (start ++ ['/']) <+: remove ('/' :: (start ++ '/' :: rest)) := by
  obtain ⟨out, hOut, hWalk⟩ := @walk_stays (start.splitOn '/').reverse [] (rest.splitOn '/')
    (List.splitOn_ne_nil _ _) hStays
  rw [List.nil_append] at hWalk
  rw [remove, List.splitOn_append_cons_self, walk_append hStart (List.splitOn_ne_nil _ _),
    List.append_nil, hWalk, List.reverse_append, List.reverse_reverse,
    join_append (List.splitOn_ne_nil _ _) (by simpa using hOut)]
  refine ⟨Text.join ['/'] out.reverse, ?_⟩
  unfold Text.join
  rw [List.intercalate_splitOn]
  simp

example : remove "/a/b/c/./../../g".toList = "/a/g".toList := by decide

/-! ## Segments that are alike -/

/-- A segment with something else than dots in it. -/
def Solid (segment : Text) : Prop := ∃ c ∈ segment, c ≠ '.'

theorem Solid.plain {segment : Text} (hSolid : Solid segment) : Plain segment := by
  obtain ⟨c, hMem, hOther⟩ := hSolid
  constructor
  · rintro rfl
    simp [hOther] at hMem
  · rintro rfl
    simp [hOther] at hMem

/-- The same segment, or two that are not of dots. -/
def Alike (segment other : Text) : Prop := segment = other ∨ (Solid segment ∧ Solid other)

theorem Alike.refl (segment : Text) : Alike segment segment := .inl rfl

theorem Alike.trans {a b c : Text} (hFirst : Alike a b) (hSecond : Alike b c) : Alike a c := by
  rcases hFirst with rfl | ⟨hA, hB⟩
  · exact hSecond
  · rcases hSecond with rfl | ⟨-, hC⟩
    · exact .inr ⟨hA, hB⟩
    · exact .inr ⟨hA, hC⟩

theorem alike_trans {others more : List Text} (hFirst : List.Forall₂ Alike segments others)
    (hSecond : List.Forall₂ Alike others more) : List.Forall₂ Alike segments more := by
  induction hFirst generalizing more with
  | nil => exact hSecond
  | cons hHead _ ih =>
      cases hSecond with
      | cons hNext hRest => exact .cons (hHead.trans hNext) (ih hRest)

theorem stays_alike {others : List Text} (hAlike : List.Forall₂ Alike segments others) :
    ∀ {depth : Nat}, stays depth segments = stays depth others := by
  induction hAlike with
  | nil => intro depth; rfl
  | cons hHead _ ih =>
      intro depth
      rcases hHead with rfl | ⟨hSolid, hOther⟩
      · simp only [stays, ih]
      · rw [stays, stays, if_neg hSolid.plain.1, if_neg hSolid.plain.2, if_neg hOther.plain.1,
          if_neg hOther.plain.2, ih]

end Dots
end OctoForge
