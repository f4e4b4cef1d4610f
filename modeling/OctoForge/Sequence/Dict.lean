import Mathlib.Data.List.Induction
import Mathlib.Data.List.Nodup

/-!
# Dictionaries in the order of their insertion

A dictionary that is filled from a list of pairs has each key once, with the value of the last
pair of that key.
-/

namespace OctoForge
namespace Dict

variable {κ α : Type}

/-- The pair is the last of its key. -/
def LastOf (pair : κ × α) (pairs : List (κ × α)) : Prop :=
  ∃ before after, pairs = before ++ pair :: after ∧ ∀ other ∈ after, other.1 ≠ pair.1

theorem LastOf.mem {pair : κ × α} {pairs : List (κ × α)} (hLast : LastOf pair pairs) :
    pair ∈ pairs := by
  obtain ⟨before, after, rfl, -⟩ := hLast
  exact List.mem_append_right _ List.mem_cons_self

theorem lastOf_concat {pairs : List (κ × α)} {entry pair : κ × α} :
    LastOf entry (pairs ++ [pair]) ↔ entry = pair ∨ LastOf entry pairs ∧ entry.1 ≠ pair.1 := by
  constructor
  · rintro ⟨before, after, hPairs, hLast⟩
    rcases List.eq_nil_or_concat after with rfl | ⟨after, last, rfl⟩
    · exact .inl (List.append_inj_right' hPairs rfl |> List.singleton_inj.mp).symm
    · rw [List.concat_eq_append] at hPairs hLast
      rw [← List.cons_append, ← List.append_assoc] at hPairs
      obtain ⟨hInit, hSame⟩ := List.append_inj' hPairs rfl
      obtain rfl := List.singleton_inj.mp hSame
      refine .inr ⟨⟨before, after, hInit, fun other hOther => ?_⟩, ?_⟩
      · exact hLast other (List.mem_append_left _ hOther)
      · exact (hLast pair (List.mem_append_right _ (List.mem_singleton_self pair))).symm
  · rintro (rfl | ⟨⟨before, after, rfl, hLast⟩, hKey⟩)
    · exact ⟨pairs, [], rfl, fun _ hOther => absurd hOther List.not_mem_nil⟩
    · refine ⟨before, after ++ [pair], by simp, fun other hOther => ?_⟩
      rcases List.mem_append.mp hOther with hOld | hNew
      · exact hLast other hOld
      · obtain rfl := List.mem_singleton.mp hNew
        exact hKey.symm

variable [DecidableEq κ]

/-- `d[key] = value`. -/
def put (key : κ) (value : α) : List (κ × α) → List (κ × α)
  | [] => [(key, value)]
  | entry :: rest =>
      if entry.1 = key then (key, value) :: rest else entry :: put key value rest

/-- `{key: value for key, value in pairs}`. -/
def ofPairs (pairs : List (κ × α)) : List (κ × α) :=
  pairs.foldl (fun entries pair => put pair.1 pair.2 entries) []

/-- `d.get(key)`. -/
def get (entries : List (κ × α)) (key : κ) : Option α :=
  (entries.find? fun entry => entry.1 = key).map (·.2)

variable {key : κ} {value : α} {entries pairs : List (κ × α)} {entry pair : κ × α}

theorem mem_put (hNodup : (entries.map (·.1)).Nodup) :
    entry ∈ put key value entries ↔ entry = (key, value) ∨ entry ∈ entries ∧ entry.1 ≠ key := by
  induction entries with
  | nil => simp [put]
  | cons first rest ih =>
      obtain ⟨hFirst, hRest⟩ := List.nodup_cons.mp hNodup
      rw [put]
      split
      · rename_i hSame
        have hOther : ∀ other ∈ rest, other.1 ≠ key := by
          intro other hOther hKey
          exact hFirst (List.mem_map.mpr ⟨other, hOther, hKey.trans hSame.symm⟩)
        simp only [List.mem_cons]
        constructor
        · rintro (hNew | hMem)
          · exact .inl hNew
          · exact .inr ⟨.inr hMem, hOther entry hMem⟩
        · rintro (hNew | ⟨rfl | hMem, hKey⟩)
          · exact .inl hNew
          · exact absurd hSame hKey
          · exact .inr hMem
      · rename_i hKey
        simp only [List.mem_cons, ih hRest]
        constructor
        · rintro (rfl | hNew | ⟨hMem, hOther⟩)
          · exact .inr ⟨.inl rfl, hKey⟩
          · exact .inl hNew
          · exact .inr ⟨.inr hMem, hOther⟩
        · rintro (hNew | ⟨rfl | hMem, hOther⟩)
          · exact .inr (.inl hNew)
          · exact .inl rfl
          · exact .inr (.inr ⟨hMem, hOther⟩)

theorem nodup_put (hNodup : (entries.map (·.1)).Nodup) :
    ((put key value entries).map (·.1)).Nodup := by
  induction entries with
  | nil => simp [put]
  | cons first rest ih =>
      obtain ⟨hFirst, hRest⟩ := List.nodup_cons.mp hNodup
      rw [put]
      split
      · rename_i hSame
        rw [List.map_cons, List.nodup_cons]
        rw [← hSame]
        exact ⟨hFirst, hRest⟩
      · rename_i hKey
        rw [List.map_cons, List.nodup_cons]
        refine ⟨fun hMem => ?_, ih hRest⟩
        obtain ⟨other, hOther, hSame⟩ := List.mem_map.mp hMem
        rcases (mem_put hRest).mp hOther with rfl | ⟨hOld, -⟩
        · exact hKey hSame.symm
        · exact hFirst (List.mem_map.mpr ⟨other, hOld, hSame⟩)

/-- A new key goes behind the others. -/
theorem keys_put :
    (put key value entries).map (·.1) =
      if key ∈ entries.map (·.1) then entries.map (·.1) else entries.map (·.1) ++ [key] := by
  induction entries with
  | nil => simp [put]
  | cons first rest ih =>
      by_cases hSame : first.1 = key
      · simp [put, hSame]
      · have hMem : key ∈ (first :: rest).map (·.1) ↔ key ∈ rest.map (·.1) := by
          rw [List.map_cons, List.mem_cons]
          exact or_iff_right (Ne.symm hSame)
        rw [put, if_neg hSame, List.map_cons, ih]
        by_cases hRest : key ∈ rest.map (·.1)
        · rw [if_pos hRest, if_pos (hMem.mpr hRest), List.map_cons]
        · rw [if_neg hRest, if_neg fun hOld => hRest (hMem.mp hOld), List.map_cons, List.cons_append]

theorem ofPairs_concat (pairs : List (κ × α)) (pair : κ × α) :
    ofPairs (pairs ++ [pair]) = put pair.1 pair.2 (ofPairs pairs) := by
  rw [ofPairs, List.foldl_append]
  rfl

theorem put_of_notMem (hNew : key ∉ entries.map (·.1)) :
    put key value entries = entries ++ [(key, value)] := by
  induction entries with
  | nil => rfl
  | cons first rest ih =>
      obtain ⟨hFirst, hRest⟩ := not_or.mp (mt List.mem_cons.mpr hNew)
      rw [put, if_neg (Ne.symm hFirst), ih hRest, List.cons_append]

/-- Pairs with a key each are the dictionary as they are. -/
theorem ofPairs_of_nodup (hNodup : (pairs.map (·.1)).Nodup) : ofPairs pairs = pairs := by
  induction pairs using List.reverseRecOn with
  | nil => rfl
  | append_singleton pairs pair ih =>
      rw [List.map_append, List.map_singleton] at hNodup
      obtain ⟨hPairs, -, hNew⟩ := List.nodup_append.mp hNodup
      rw [ofPairs_concat, ih hPairs, put_of_notMem]
      exact fun hMem => hNew _ hMem _ List.mem_cons_self rfl

theorem nodup_ofPairs (pairs : List (κ × α)) : ((ofPairs pairs).map (·.1)).Nodup := by
  induction pairs using List.reverseRecOn with
  | nil => exact List.nodup_nil
  | append_singleton pairs pair ih =>
      rw [ofPairs_concat]
      exact nodup_put ih

/-- What a dictionary holds is the last pair of each key. -/
theorem mem_ofPairs : entry ∈ ofPairs pairs ↔ LastOf entry pairs := by
  induction pairs using List.reverseRecOn with
  | nil =>
      constructor
      · intro hMem
        cases hMem
      · rintro ⟨before, after, hNil, -⟩
        simp at hNil
  | append_singleton pairs pair ih =>
      rw [ofPairs_concat, mem_put (nodup_ofPairs pairs), ih, lastOf_concat]

/-- Every key that occurs has a last pair. -/
theorem exists_lastOf (hMem : pair ∈ pairs) : ∃ value, LastOf (pair.1, value) pairs := by
  induction pairs using List.reverseRecOn with
  | nil => cases hMem
  | append_singleton pairs last ih =>
      simp only [lastOf_concat]
      by_cases hSame : pair.1 = last.1
      · exact ⟨last.2, .inl (by rw [hSame])⟩
      · have hOld : pair ∈ pairs := by
          rcases List.mem_append.mp hMem with hOld | hNew
          · exact hOld
          · exact absurd (congrArg (·.1) (List.mem_singleton.mp hNew)) hSame
        obtain ⟨value, hLast⟩ := ih hOld
        exact ⟨value, .inr ⟨hLast, hSame⟩⟩

/-! ## One dictionary over another -/

/-- `d.update(pairs)`. -/
def update (entries pairs : List (κ × α)) : List (κ × α) :=
  pairs.foldl (fun entries pair => put pair.1 pair.2 entries) entries

theorem nodup_update (hNodup : (entries.map (·.1)).Nodup) (pairs : List (κ × α)) :
    ((update entries pairs).map (·.1)).Nodup := by
  induction pairs generalizing entries with
  | nil => exact hNodup
  | cons pair rest ih => exact ih (nodup_put hNodup)

/-- A pair of the upper dictionary, or one of the lower that the upper has no key of. -/
theorem mem_update (hNodup : (entries.map (·.1)).Nodup) (hPairs : (pairs.map (·.1)).Nodup) :
    entry ∈ update entries pairs ↔
      entry ∈ pairs ∨ entry ∈ entries ∧ ∀ pair ∈ pairs, pair.1 ≠ entry.1 := by
  induction pairs generalizing entries with
  | nil => simp [update]
  | cons pair rest ih =>
      obtain ⟨hPair, hRest⟩ := List.nodup_cons.mp hPairs
      have hStep : update entries (pair :: rest) = update (put pair.1 pair.2 entries) rest := rfl
      rw [hStep, ih (nodup_put hNodup) hRest, mem_put hNodup, List.mem_cons, List.forall_mem_cons]
      constructor
      · rintro (hUpper | ⟨rfl | ⟨hLower, hOther⟩, hNone⟩)
        · exact .inl (.inr hUpper)
        · exact .inl (.inl rfl)
        · exact .inr ⟨hLower, Ne.symm hOther, hNone⟩
      · rintro ((rfl | hUpper) | ⟨hLower, hOther, hNone⟩)
        · refine .inr ⟨.inl rfl, fun other hOther hSame => hPair ?_⟩
          exact List.mem_map.mpr ⟨other, hOther, hSame⟩
        · exact .inl hUpper
        · exact .inr ⟨.inr ⟨hLower, Ne.symm hOther⟩, hNone⟩

theorem mem_keys_update (hNodup : (entries.map (·.1)).Nodup) (hPairs : (pairs.map (·.1)).Nodup) :
    key ∈ (update entries pairs).map (·.1) ↔
      key ∈ pairs.map (·.1) ∨ key ∈ entries.map (·.1) := by
  simp only [List.mem_map]
  constructor
  · rintro ⟨entry, hEntry, rfl⟩
    rcases (mem_update hNodup hPairs).mp hEntry with hUpper | ⟨hLower, -⟩
    · exact .inl ⟨entry, hUpper, rfl⟩
    · exact .inr ⟨entry, hLower, rfl⟩
  · rintro (⟨entry, hUpper, rfl⟩ | ⟨entry, hLower, rfl⟩)
    · exact ⟨entry, (mem_update hNodup hPairs).mpr (.inl hUpper), rfl⟩
    · by_cases hShadowed : ∃ pair ∈ pairs, pair.1 = entry.1
      · obtain ⟨pair, hPair, hSame⟩ := hShadowed
        exact ⟨pair, (mem_update hNodup hPairs).mpr (.inl hPair), hSame⟩
      · refine ⟨entry, (mem_update hNodup hPairs).mpr (.inr ⟨hLower, fun pair hPair hSame => ?_⟩), rfl⟩
        exact hShadowed ⟨pair, hPair, hSame⟩

/-! ## Reading -/

theorem get_eq_some (hNodup : (entries.map (·.1)).Nodup) :
    get entries key = some value ↔ (key, value) ∈ entries := by
  induction entries with
  | nil => simp [get]
  | cons first rest ih =>
      obtain ⟨hFirst, hRest⟩ := List.nodup_cons.mp hNodup
      by_cases hSame : first.1 = key
      · have hHead : get (first :: rest) key = some first.2 := by simp [get, hSame]
        rw [hHead, Option.some.injEq, List.mem_cons, Prod.ext_iff]
        constructor
        · intro hValue
          exact .inl ⟨hSame.symm, hValue.symm⟩
        · rintro (⟨-, hValue⟩ | hMem)
          · exact hValue.symm
          · exact absurd (List.mem_map.mpr ⟨_, hMem, hSame.symm⟩) hFirst
      · have hTail : get (first :: rest) key = get rest key := by simp [get, hSame]
        rw [hTail, ih hRest, List.mem_cons, Prod.ext_iff]
        simp [Ne.symm hSame]

theorem get_eq_none (hNew : key ∉ entries.map (·.1)) : get entries key = none := by
  rw [get, Option.map_eq_none_iff, List.find?_eq_none]
  intro entry hEntry hSame
  exact hNew (List.mem_map.mpr ⟨entry, hEntry, of_decide_eq_true hSame⟩)

end Dict
end OctoForge
