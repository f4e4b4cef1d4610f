import OctoForge.Sequence.Dict
import Mathlib.Data.List.Dedup
import Mathlib.Data.List.DropRight

/-!
# Bounded dictionaries

A dictionary that keeps its entries in order, moves one to the end when it is used and drops
from the front what is too much, holds the last distinct keys that were used.
-/

namespace OctoForge
namespace Dict

variable {κ α : Type} [DecidableEq κ] {key other : κ} {value : α} {entries : List (κ × α)}
  {entry : κ × α} {limit : Nat}

/-- `d.pop(key, None)`. -/
def del (key : κ) (entries : List (κ × α)) : List (κ × α) :=
  entries.filter fun entry => entry.1 ≠ key

/-- `d.move_to_end(key)`, of a key that is there. -/
def moveToEnd (key : κ) (entries : List (κ × α)) : List (κ × α) :=
  match get entries key with
  | some value => del key entries ++ [(key, value)]
  | none => entries

/-- `while len(d) > limit: d.popitem(last=False)`. -/
def trim (limit : Nat) : List (κ × α) → List (κ × α)
  | [] => []
  | entry :: rest => if limit < (entry :: rest).length then trim limit rest else entry :: rest

/-! ## Reading -/

theorem get_nil : get ([] : List (κ × α)) key = none := rfl

theorem get_cons :
    get (entry :: entries) key = if entry.1 = key then some entry.2 else get entries key := by
  by_cases hSame : entry.1 = key
  · simp [get, hSame]
  · simp [get, hSame]

theorem get_append {more : List (κ × α)} :
    get (entries ++ more) key = (get entries key).or (get more key) := by
  induction entries with
  | nil => rw [List.nil_append, get_nil, Option.none_or]
  | cons entry rest ih =>
      rw [List.cons_append, get_cons, get_cons, ih]
      by_cases hSame : entry.1 = key
      · rw [if_pos hSame, if_pos hSame, Option.some_or]
      · rw [if_neg hSame, if_neg hSame]

theorem mem_of_get (hGet : get entries key = some value) : (key, value) ∈ entries := by
  induction entries with
  | nil => simp [get_nil] at hGet
  | cons entry rest ih =>
      rw [get_cons] at hGet
      by_cases hSame : entry.1 = key
      · rw [if_pos hSame] at hGet
        have hEntry : entry = (key, value) := Prod.ext hSame (Option.some.inj hGet)
        exact hEntry ▸ List.mem_cons_self
      · rw [if_neg hSame] at hGet
        exact List.mem_cons_of_mem entry (ih hGet)

theorem get_put : get (put key value entries) other =
    if key = other then some value else get entries other := by
  induction entries with
  | nil => rw [put, get_cons, get_nil]
  | cons entry rest ih =>
      rw [put]
      by_cases hSame : entry.1 = key
      · rw [if_pos hSame, get_cons, get_cons, hSame]
        by_cases hOther : key = other
        · rw [if_pos hOther, if_pos hOther]
        · rw [if_neg hOther, if_neg hOther, if_neg hOther]
      · rw [if_neg hSame, get_cons, get_cons, ih]
        by_cases hOther : entry.1 = other
        · have hKey : key ≠ other := fun hKey => hSame (hOther.trans hKey.symm)
          rw [if_pos hOther, if_pos hOther, if_neg hKey]
        · rw [if_neg hOther, if_neg hOther]

theorem mem_of_mem_put (hMem : entry ∈ put key value entries) :
    entry = (key, value) ∨ entry ∈ entries := by
  induction entries with
  | nil =>
      rw [put, List.mem_singleton] at hMem
      exact .inl hMem
  | cons first rest ih =>
      rw [put] at hMem
      split at hMem
      · exact (List.mem_cons.mp hMem).imp_right (List.mem_cons_of_mem first)
      · rcases List.mem_cons.mp hMem with hFirst | hRest
        · exact .inr (hFirst ▸ List.mem_cons_self)
        · exact (ih hRest).imp_right (List.mem_cons_of_mem first)

/-! ## Dropping -/

theorem mem_del : entry ∈ del key entries ↔ entry ∈ entries ∧ entry.1 ≠ key := by
  rw [del, List.mem_filter, decide_eq_true_iff]

theorem keys_del : (del key entries).map (·.1) = (entries.map (·.1)).filter (· ≠ key) := by
  rw [del, List.filter_map]
  rfl

theorem get_del :
    get (del key entries) other = if key = other then none else get entries other := by
  induction entries with
  | nil => rw [del, List.filter_nil, get_nil, ite_self]
  | cons entry rest ih =>
      rw [del] at ih ⊢
      by_cases hGone : entry.1 = key
      · rw [List.filter_cons_of_neg (by simpa using hGone), ih, get_cons, hGone]
        by_cases hOther : key = other
        · rw [if_pos hOther, if_pos hOther]
        · rw [if_neg hOther, if_neg hOther, if_neg hOther]
      · rw [List.filter_cons_of_pos (by simpa using hGone), get_cons, get_cons, ih]
        by_cases hOther : entry.1 = other
        · have hKey : key ≠ other := fun hKey => hGone (hOther.trans hKey.symm)
          rw [if_pos hOther, if_pos hOther, if_neg hKey]
        · rw [if_neg hOther, if_neg hOther]

/-- A dictionary reads the same with a key moved to the end. -/
theorem get_moveToEnd : get (moveToEnd key entries) other = get entries other := by
  rw [moveToEnd]
  split
  · rename_i value hGet
    rw [get_append, get_del, get_cons, get_nil]
    dsimp only
    by_cases hOther : key = other
    · rw [if_pos hOther, if_pos hOther, Option.none_or, ← hOther, hGet]
    · rw [if_neg hOther, if_neg hOther, Option.or_none]
  · rfl

theorem length_put_le : (put key value entries).length ≤ entries.length + 1 := by
  induction entries with
  | nil => exact Nat.le_refl _
  | cons entry rest ih =>
      rw [put]
      split
      · exact Nat.le_succ _
      · exact Nat.succ_le_succ ih

theorem length_moveToEnd_le : (moveToEnd key entries).length ≤ entries.length := by
  rw [moveToEnd]
  split
  · rename_i value hGet
    have hLess : (del key entries).length < entries.length :=
      List.length_filter_lt_length_iff_exists.mpr ⟨_, mem_of_get hGet, by simp⟩
    rw [List.length_append, List.length_singleton]
    exact hLess
  · exact Nat.le_refl _

theorem keys_moveToEnd (hKey : key ∈ entries.map (·.1)) :
    (moveToEnd key entries).map (·.1) = (entries.map (·.1)).filter (· ≠ key) ++ [key] := by
  obtain ⟨entry, hEntry, rfl⟩ := List.mem_map.mp hKey
  cases hGet : get entries entry.1 with
  | none =>
      rw [get, Option.map_eq_none_iff, List.find?_eq_none] at hGet
      exact absurd (decide_eq_true rfl) (hGet entry hEntry)
  | some value =>
      rw [moveToEnd, hGet, ← keys_del, List.map_append]
      rfl

theorem mem_moveToEnd (hMem : entry ∈ moveToEnd key entries) : entry ∈ entries := by
  rw [moveToEnd] at hMem
  split at hMem
  · rename_i value hGet
    rcases List.mem_append.mp hMem with hOld | hLast
    · exact (mem_del.mp hOld).1
    · rw [List.mem_singleton.mp hLast]
      exact mem_of_get hGet
  · exact hMem

omit [DecidableEq κ] in
theorem trim_eq_rtake : trim limit entries = entries.rtake limit := by
  induction entries with
  | nil => rw [trim, List.rtake_nil]
  | cons entry rest ih =>
      rw [trim]
      by_cases hMuch : limit < (entry :: rest).length
      · rw [if_pos hMuch, ih, List.rtake, List.rtake]
        rw [List.length_cons] at hMuch ⊢
        rw [show rest.length + 1 - limit = rest.length - limit + 1 by omega, List.drop_succ_cons]
      · have hNone := Nat.sub_eq_zero_of_le (Nat.le_of_not_lt hMuch)
        rw [if_neg hMuch, List.rtake, hNone, List.drop_zero]

omit [DecidableEq κ] in
theorem trim_of_length_le (hFew : entries.length ≤ limit) : trim limit entries = entries := by
  rw [trim_eq_rtake, List.rtake, Nat.sub_eq_zero_of_le hFew, List.drop_zero]

omit [DecidableEq κ] in
theorem length_trim : (trim limit entries).length ≤ limit := by
  rw [trim_eq_rtake, List.rtake, List.length_drop]
  omega

omit [DecidableEq κ] in
theorem mem_of_mem_trim (hMem : entry ∈ trim limit entries) : entry ∈ entries := by
  rw [trim_eq_rtake] at hMem
  exact List.mem_of_mem_drop hMem

/-! ## What was used last -/

/-- The last distinct keys of the uses, at most so many, in the order of their last use. -/
def lastDistinct (limit : Nat) (uses : List κ) : List κ := uses.dedup.rtake limit

theorem nodup_lastDistinct (uses : List κ) : (lastDistinct limit uses).Nodup :=
  (List.nodup_dedup uses).sublist (List.drop_sublist _ _)

theorem dedup_concat (uses : List κ) (key : κ) :
    (uses ++ [key]).dedup = uses.dedup.filter (· ≠ key) ++ [key] := by
  induction uses with
  | nil => simp
  | cons first rest ih =>
      rw [List.cons_append]
      by_cases hRest : first ∈ rest
      · rw [List.dedup_cons_of_mem (List.mem_append_left _ hRest), ih, List.dedup_cons_of_mem hRest]
      · rw [List.dedup_cons_of_notMem hRest]
        by_cases hKey : first = key
        · have hLater : first ∈ rest ++ [key] := by simp [hKey]
          rw [List.dedup_cons_of_mem hLater, ih, List.filter_cons_of_neg (by simpa using hKey)]
        · have hNew : first ∉ rest ++ [key] := by simp [hRest, hKey]
          rw [List.dedup_cons_of_notMem hNew, ih, List.filter_cons_of_pos (by simpa using hKey),
            List.cons_append]

/-- Of a list without repetitions at most one item is filtered out by its value. -/
theorem length_le_length_filter_ne {items : List κ} (hNodup : items.Nodup) :
    items.length ≤ (items.filter (· ≠ key)).length + 1 := by
  have hFilter := List.length_eq_length_filter_add (l := items) (· ≠ key)
  have hRest : (items.filter fun item => !decide (item ≠ key)) = items.filter (· == key) := by
    refine List.filter_congr fun item _ => ?_
    simp [beq_eq_decide]
  have hOne : (items.filter (· == key)).length ≤ 1 := by
    rw [← List.count_eq_length_filter]
    exact List.nodup_iff_count_le_one.mp hNodup key
  rw [hRest] at hFilter
  omega

/-- Using a key moves it to the end, and the first one falls out if there are too many. -/
theorem lastDistinct_concat (uses : List κ) (key : κ) :
    lastDistinct limit (uses ++ [key]) =
      ((lastDistinct limit uses).filter (· ≠ key) ++ [key]).rtake limit := by
  rw [lastDistinct, lastDistinct, dedup_concat]
  have hNodup := List.nodup_dedup uses
  generalize uses.dedup = distinct at hNodup
  -- What is dropped now would be dropped later: one key fewer makes room for one.
  by_cases hFew : distinct.length ≤ limit
  · rw [List.rtake, List.rtake, List.rtake, Nat.sub_eq_zero_of_le hFew, List.drop_zero]
  · have hSplit := List.take_append_drop (distinct.length - limit) distinct
    have hShort :
        limit ≤ ((distinct.drop (distinct.length - limit)).filter (· ≠ key)).length + 1 := by
      have hLength : _ ≤ (List.filter (· ≠ key) _).length + 1 := length_le_length_filter_ne
        (hNodup.sublist (List.drop_sublist (distinct.length - limit) distinct))
      rw [List.length_drop] at hLength
      omega
    rw [List.rtake, List.rtake, List.rtake]
    generalize hBack : distinct.drop (distinct.length - limit) = back at hShort hSplit
    generalize distinct.take (distinct.length - limit) = front at hSplit
    rw [← hSplit, List.filter_append, List.append_assoc]
    rw [List.length_append, List.drop_append]
    have hFront : (front.filter (· ≠ key)).length ≤ (front.filter (· ≠ key)).length +
        (back.filter (· ≠ key) ++ [key]).length - limit := by
      rw [List.length_append, List.length_singleton]
      omega
    rw [List.drop_of_length_le hFront, List.nil_append]
    congr 1
    rw [List.length_append, List.length_singleton]
    omega

/-- The length of what was used last. -/
theorem length_lastDistinct (uses : List κ) : (lastDistinct limit uses).length ≤ limit := by
  rw [lastDistinct, List.rtake, List.length_drop]
  omega

/-- A write, moved to the end and trimmed, is a use. -/
theorem keys_trim_moveToEnd_put {uses : List κ}
    (hKeys : entries.map (·.1) = lastDistinct limit uses) :
    (trim limit (moveToEnd key (put key value entries))).map (·.1) =
      lastDistinct limit (uses ++ [key]) := by
  have hMem : key ∈ (put key value entries).map (·.1) := by
    rw [keys_put]
    split
    · assumption
    · exact List.mem_append_right _ (List.mem_singleton_self key)
  have hFilter : ((put key value entries).map (·.1)).filter (· ≠ key) =
      (entries.map (·.1)).filter (· ≠ key) := by
    rw [keys_put]
    split
    · rfl
    · simp [List.filter_append]
  have hLength : (moveToEnd key (put key value entries)).length =
      ((moveToEnd key (put key value entries)).map (·.1)).length := (List.length_map ..).symm
  rw [trim_eq_rtake, List.rtake, List.map_drop, hLength, keys_moveToEnd hMem, hFilter, hKeys,
    lastDistinct_concat, List.rtake]

/-- A key that is there, moved to the end, is a use. -/
theorem keys_moveToEnd_use {uses : List κ} (hKeys : entries.map (·.1) = lastDistinct limit uses)
    (hKey : key ∈ entries.map (·.1)) :
    (moveToEnd key entries).map (·.1) = lastDistinct limit (uses ++ [key]) := by
  rw [keys_moveToEnd hKey, lastDistinct_concat, hKeys]
  rw [hKeys] at hKey
  -- The key left one place free, so nothing falls out.
  have hRoom : ((lastDistinct limit uses).filter (· ≠ key)).length + 1 ≤ limit := by
    have hLess : ((lastDistinct limit uses).filter (· ≠ key)).length <
        (lastDistinct limit uses).length :=
      List.length_filter_lt_length_iff_exists.mpr ⟨key, hKey, by simp⟩
    exact Nat.lt_of_lt_of_le hLess (length_lastDistinct uses)
  rw [List.rtake, List.length_append, List.length_singleton, Nat.sub_eq_zero_of_le hRoom,
    List.drop_zero]

end Dict
end OctoForge
