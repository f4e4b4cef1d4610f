import Mathlib.Algebra.Order.Ring.Cast
import Mathlib.Tactic.Positivity
import OctoForge.Search.Ranking

/-!
# Fusing a ranking with the hits of a lexical search

A record that no lexical hit shares its key with has one vote, that of its place in the
first list.  Two such records come in the order of that list, so `fuse` agrees with the
similarity exactly as far as the first list does.
-/

namespace OctoForge
namespace Search

open Sequence

variable {ρ K : Type} [Field K] [LinearOrder K]

namespace Reading

variable {reading : Reading ρ} {entries : List (Hit ρ K)} {candidate : ρ} {ranking lexical : List ρ}
  {position k : Nat} {query : String} {a b : ρ}

/-! ## Votes -/

theorem keys_addVote (reading : Reading ρ) (entries : List (Hit ρ K)) (candidate : ρ)
    (position : Nat) :
    (reading.addVote entries candidate position).map (fun entry => reading.key entry.record) =
      if reading.key candidate ∈ entries.map (fun entry => reading.key entry.record) then
        entries.map fun entry => reading.key entry.record
      else entries.map (fun entry => reading.key entry.record) ++ [reading.key candidate] := by
  have hAny : (entries.any fun entry => reading.key entry.record = reading.key candidate) = true ↔
      reading.key candidate ∈ entries.map (fun entry => reading.key entry.record) := by
    simp [List.any_eq_true]
  rw [addVote]
  by_cases hThere : reading.key candidate ∈ entries.map (fun entry => reading.key entry.record)
  · rw [if_pos (hAny.mpr hThere), if_pos hThere, List.map_map]
    refine List.map_congr_left fun entry _ => ?_
    simp only [Function.comp_apply]
    split <;> rfl
  · rw [if_neg (mt hAny.mp hThere), if_neg hThere]
    simp

theorem keysNodup_nil : reading.KeysNodup ([] : List (Hit ρ K)) := List.nodup_nil

theorem keysNodup_addVote (hKeys : reading.KeysNodup entries) :
    reading.KeysNodup (reading.addVote entries candidate position) := by
  rw [KeysNodup, keys_addVote]
  split
  · exact hKeys
  · rename_i hNew
    rw [← List.concat_eq_append]
    exact List.Nodup.concat hNew hKeys

theorem keysNodup_addVotes (hKeys : reading.KeysNodup entries) (ranking : List ρ)
    (position : Nat) : reading.KeysNodup (reading.addVotes entries ranking position) := by
  induction ranking generalizing entries position with
  | nil => exact hKeys
  | cons candidate rest ih => exact ih (keysNodup_addVote hKeys) (position + 1)

/-- A ranking leaves the entries alone that it does not mention. -/
theorem mem_addVotes {entry : Hit ρ K}
    (hAbsent : ∀ other ∈ ranking, reading.key other ≠ reading.key entry.record) :
    entry ∈ reading.addVotes entries ranking position ↔ entry ∈ entries := by
  induction ranking generalizing entries position with
  | nil => rfl
  | cons candidate rest ih =>
      have hNot := hAbsent candidate List.mem_cons_self
      rw [addVotes, ih fun other hOther => hAbsent other (List.mem_cons_of_mem _ hOther), addVote]
      split
      · constructor
        · intro hMem
          obtain ⟨old, hOld, rfl⟩ := List.mem_map.mp hMem
          split
          · rename_i hSame
            rw [if_pos hSame] at hNot
            exact absurd hSame.symm hNot
          · exact hOld
        · intro hMem
          exact List.mem_map.mpr ⟨entry, hMem, if_neg hNot.symm⟩
      · rw [List.mem_append, List.mem_singleton, or_iff_left]
        rintro rfl
        exact hNot rfl

/-- A ranking of new records adds them with the votes of their places. -/
theorem addVotes_fresh (hKeys : (ranking.map reading.key).Nodup)
    (hFresh : ∀ other ∈ ranking, ∀ entry ∈ entries, reading.key entry.record ≠ reading.key other) :
    reading.addVotes entries ranking position =
      entries ++ (ranking.zipIdx position).map fun (record, place) => ⟨record, vote place⟩ := by
  induction ranking generalizing entries position with
  | nil => simp [addVotes]
  | cons candidate rest ih =>
      rw [List.map_cons, List.nodup_cons] at hKeys
      have hAdd : reading.addVote entries candidate position =
          entries ++ [⟨candidate, vote position⟩] := by
        rw [addVote, if_neg]
        simpa using hFresh candidate List.mem_cons_self
      rw [addVotes, hAdd, ih hKeys.2, List.zipIdx_cons, List.map_cons, List.append_assoc]
      · rfl
      · intro other hOther entry hEntry
        rcases List.mem_append.mp hEntry with hOld | hNew
        · exact hFresh other (List.mem_cons_of_mem _ hOther) entry hOld
        · obtain rfl := List.mem_singleton.mp hNew
          exact fun hSame => hKeys.1 (hSame ▸ List.mem_map_of_mem hOther)

/-- The entries of a first ranking and a second. -/
theorem mem_reciprocalRankScores (hKeys : (ranking.map reading.key).Nodup) {record : ρ} {score : K}
    (hAbsent : ∀ other ∈ lexical, reading.key other ≠ reading.key record) :
    (⟨record, score⟩ : Hit ρ K) ∈ reading.reciprocalRankScores [ranking, lexical] ↔
      ∃ place, (record, place) ∈ ranking.zipIdx 1 ∧ score = vote place := by
  have hFirst : (reading.addVotes [] ranking 1 : List (Hit ρ K)) =
      (ranking.zipIdx 1).map fun (record, place) => ⟨record, vote place⟩ :=
    addVotes_fresh hKeys (by simp)
  simp only [reciprocalRankScores, List.foldl_cons, List.foldl_nil]
  rw [mem_addVotes hAbsent, hFirst, List.mem_map]
  constructor
  · rintro ⟨⟨record', place⟩, hMem, hSame⟩
    obtain ⟨rfl, rfl⟩ := Hit.mk.inj hSame
    exact ⟨place, hMem, rfl⟩
  · rintro ⟨place, hMem, rfl⟩
    exact ⟨(record, place), hMem, rfl⟩

theorem keysNodup_fused (reading : Reading ρ) (ranking lexical : List ρ) (query : String) :
    reading.KeysNodup (reading.fused [ranking, lexical] query : List (Hit ρ K)) := by
  have hEntries : reading.KeysNodup (reading.reciprocalRankScores [ranking, lexical] :
      List (Hit ρ K)) :=
    keysNodup_addVotes (keysNodup_addVotes keysNodup_nil ranking 1) lexical 1
  rw [KeysNodup, fused, List.map_map]
  exact hEntries

/-- The lexical hits do not mention the record. -/
def Absent (reading : Reading ρ) (lexical : List ρ) (record : ρ) : Prop :=
  ∀ other ∈ lexical, reading.key other ≠ reading.key record

theorem mem_fused (hKeys : (ranking.map reading.key).Nodup) {record : ρ} {score : K}
    (hAbsent : reading.Absent lexical record) :
    (⟨record, score⟩ : Hit ρ K) ∈ reading.fused [ranking, lexical] query ↔
      ∃ place, (record, place) ∈ ranking.zipIdx 1 ∧
        score = vote place + reading.boost query record := by
  rw [fused, List.mem_map]
  constructor
  · rintro ⟨⟨record', score'⟩, hEntry, hSame⟩
    obtain ⟨rfl, rfl⟩ := Hit.mk.inj hSame
    obtain ⟨place, hPlace, rfl⟩ := (mem_reciprocalRankScores hKeys hAbsent).mp hEntry
    exact ⟨place, hPlace, rfl⟩
  · rintro ⟨place, hPlace, rfl⟩
    exact ⟨⟨record, vote place⟩, (mem_reciprocalRankScores hKeys hAbsent).mpr ⟨place, hPlace, rfl⟩,
      rfl⟩

section Votes

variable [IsStrictOrderedRing K]

theorem vote_lt {place place' : Nat} (hLess : place < place') : (vote place' : K) < vote place := by
  have hPositive : (0 : K) < ((rrfSmoothing + place : Nat) : K) := by
    rw [Nat.cast_pos, rrfSmoothing]
    omega
  refine one_div_lt_one_div_of_lt hPositive ?_
  rw [Nat.cast_lt]
  omega

theorem vote_pos (place : Nat) : (0 : K) < vote place := by
  rw [vote, one_div_pos, Nat.cast_pos, rrfSmoothing]
  omega

theorem vote_le_one (place : Nat) : (vote place : K) ≤ 1 := by
  rw [vote, one_div]
  refine inv_le_one_of_one_le₀ ?_
  rw [Nat.one_le_cast, rrfSmoothing]
  omega

end Votes

end Reading
end Search
end OctoForge
