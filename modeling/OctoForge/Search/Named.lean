import OctoForge.Search.Hybrid
import OctoForge.Search.Reranking

/-!
# Records that the query names

The boost of a named record is 2, and similarities lie in `[-1, 1]`: a named record that is
opposite to the query has the score of another one that is the same as the query, and then the
title decides.  Two votes are less than 2, so `fuse` puts named records first.
-/

namespace OctoForge
namespace Search

variable {ρ K : Type} [Field K] [LinearOrder K]

namespace Reading

/-- All records that the query names are opposite to it, and one that it does not name is the same
as the query and has a title before theirs. -/
structure Outshone (reading : Reading ρ) (candidates : List ρ) (query : String)
    (similarity : ρ → K) : Prop where
  opposite : ∀ record ∈ candidates, reading.titled query record = true → similarity record = -1
  rival : ∃ rival ∈ candidates, reading.titled query rival = false ∧ similarity rival = 1 ∧
    ∀ record ∈ candidates, reading.titled query record = true →
      reading.title rival < reading.title record

variable {reading : Reading ρ} {candidates ranking lexical : List ρ} {query : String}
  {similarity : ρ → K} {k : Nat} {hits : List (Hit ρ K)}

theorem best_sorted (reading : Reading ρ) (hits : List (Hit ρ K)) (k : Nat) :
    (reading.best hits k).Pairwise fun hit other => reading.hitLe hit other = true :=
  (List.pairwise_mergeSort hitLe_trans hitLe_total hits).sublist
    (List.take_sublist k _)

/-- Of the best hits, the first goes before all hits there are. -/
theorem best_cases (hSome : reading.best hits k ≠ []) :
    ∃ first rest, reading.best hits k = first :: rest ∧ first ∈ hits ∧
      ∀ hit ∈ hits, reading.hitLe first hit = true := by
  obtain ⟨first, rest, hBest⟩ := List.exists_cons_of_ne_nil hSome
  rw [best] at hBest
  cases hSorted : hits.mergeSort reading.hitLe with
  | nil =>
      rw [hSorted, List.take_nil] at hBest
      cases hBest
  | cons top more =>
      cases k with
      | zero => cases hBest
      | succ k =>
          have hTop := hBest
          rw [hSorted, List.take_succ_cons] at hTop
          obtain ⟨rfl, -⟩ := List.cons.inj hTop
          refine ⟨top, rest, hBest, ?_, fun hit hHit => hitLe_of_mergeSort hSorted hHit⟩
          exact Sequence.mem_of_mergeSort hSorted

omit [LinearOrder K] in
theorem mem_scored {hit : Hit ρ K} : hit ∈ reading.scored candidates query similarity ↔
    ∃ record ∈ candidates, hit = ⟨record, similarity record + reading.boost query record⟩ := by
  simp [scored, eq_comm]

omit [LinearOrder K] in
theorem boost_of_titled {record : ρ} (hNamed : reading.titled query record = true) :
    (reading.boost query record : K) = 2 := by
  simp [boost, hNamed]

omit [LinearOrder K] in
theorem boost_of_not_titled {record : ρ} (hOther : reading.titled query record = false) :
    (reading.boost query record : K) = 0 := by
  simp [boost, hOther]

section Ordered

variable [IsStrictOrderedRing K]

/-- A ranking with a named record has one first, unless the named records are outshone. -/
theorem namedFirst_rank
    (hBounded : ∀ record ∈ candidates, -1 ≤ similarity record ∧ similarity record ≤ 1)
    (hNamed : Named reading query (reading.rank candidates query similarity k)) :
    NamedFirst reading query (reading.rank candidates query similarity k) ↔
      ¬Outshone reading candidates query similarity := by
  rw [rank_eq] at hNamed ⊢
  obtain ⟨named, hShown, hTitled⟩ := hNamed
  obtain ⟨first, rest, hBest, hFirst, hLe⟩ := best_cases (List.ne_nil_of_mem hShown)
  have hScored : named ∈ reading.scored candidates query similarity :=
    List.mem_mergeSort.mp (List.mem_of_mem_take hShown)
  obtain ⟨top, hTop, rfl⟩ := mem_scored.mp hFirst
  constructor
  · rintro ⟨first, more, hHead, hFirstNamed⟩ ⟨hOpposite, rival, hRival, hOther, hSame, hTitles⟩
    rw [hBest] at hHead
    obtain ⟨rfl, -⟩ := List.cons.inj hHead
    -- The rival has the score of a named record, and the earlier title.
    have hBehind := hLe ⟨rival, similarity rival + reading.boost query rival⟩
      (mem_scored.mpr ⟨rival, hRival, rfl⟩)
    rw [hitLe_iff] at hBehind
    dsimp only at hBehind hFirstNamed
    rw [boost_of_titled hFirstNamed, boost_of_not_titled hOther, hOpposite top hTop hFirstNamed,
      hSame] at hBehind
    rcases hBehind with hScore | ⟨-, hTitle⟩
    · linarith
    · exact absurd (hTitles top hTop hFirstNamed) (not_lt.mpr hTitle)
  · intro hNot
    refine ⟨_, rest, hBest, ?_⟩
    by_contra hOther
    rw [Bool.not_eq_true] at hOther
    -- Nothing named goes before what is first, so the boost is used up by the similarities.
    have hEach : ∀ record ∈ candidates, reading.titled query record = true →
        similarity record = -1 ∧ similarity top = 1 ∧ reading.title top < reading.title record := by
      intro record hRecord hRecordNamed
      have hBehind := hLe _ (mem_scored.mpr ⟨record, hRecord, rfl⟩)
      rw [hitLe_iff] at hBehind
      dsimp only at hBehind hOther
      rw [boost_of_titled hRecordNamed, boost_of_not_titled hOther] at hBehind
      have hLow := (hBounded record hRecord).1
      have hHigh := (hBounded top hTop).2
      rcases hBehind with hScore | ⟨hScore, hTitle⟩
      · linarith
      · refine ⟨by linarith, by linarith, lt_of_le_of_ne hTitle fun hSame => ?_⟩
        rw [titled, hSame] at hOther
        rw [titled] at hRecordNamed
        rw [hOther] at hRecordNamed
        cases hRecordNamed
    obtain ⟨record, hRecord, rfl⟩ := mem_scored.mp hScored
    exact hNot ⟨fun record hRecord hRecordNamed => (hEach record hRecord hRecordNamed).1,
      top, hTop, hOther, (hEach record hRecord hTitled).2.1,
      fun record hRecord hRecordNamed => (hEach record hRecord hRecordNamed).2.2⟩

/-! ## Votes -/

/-- One ranking gives a record one vote. -/
theorem score_addVotes {entries : List (Hit ρ K)} (position : Nat) {bound : K} (hBound : 0 ≤ bound)
    (hKeys : (ranking.map reading.key).Nodup)
    (hScores : ∀ entry ∈ entries, 0 < entry.score ∧ entry.score ≤ bound + 1 ∧
      (reading.key entry.record ∈ ranking.map reading.key → entry.score ≤ bound)) :
    ∀ entry ∈ reading.addVotes entries ranking position,
      0 < entry.score ∧ entry.score ≤ bound + 1 := by
  induction ranking generalizing entries position with
  | nil => exact fun entry hEntry => ⟨(hScores entry hEntry).1, (hScores entry hEntry).2.1⟩
  | cons candidate rest ih =>
      rw [List.map_cons, List.nodup_cons] at hKeys
      have hPositive : (0 : K) < vote position := vote_pos position
      have hSmall : (vote position : K) ≤ 1 := vote_le_one position
      refine ih _ hKeys.2 fun entry hEntry => ?_
      rw [addVote] at hEntry
      split at hEntry
      · obtain ⟨old, hOld, rfl⟩ := List.mem_map.mp hEntry
        obtain ⟨hOldPositive, hOldBound, hOldMore⟩ := hScores old hOld
        split
        · -- The candidate has a record already; it is in the ranking once, so it gets no other vote.
          rename_i hSame
          have hFew := hOldMore (by rw [List.map_cons, hSame]; exact List.mem_cons_self)
          refine ⟨by dsimp only; linarith, by dsimp only; linarith, fun hThere => ?_⟩
          dsimp only at hThere
          exact absurd (hSame ▸ hThere) hKeys.1
        · refine ⟨hOldPositive, hOldBound, fun hThere => hOldMore ?_⟩
          rw [List.map_cons]
          exact List.mem_cons_of_mem _ hThere
      · rcases List.mem_append.mp hEntry with hOld | hNew
        · obtain ⟨hOldPositive, hOldBound, hOldMore⟩ := hScores entry hOld
          refine ⟨hOldPositive, hOldBound, fun hThere => hOldMore ?_⟩
          rw [List.map_cons]
          exact List.mem_cons_of_mem _ hThere
        · obtain rfl := List.mem_singleton.mp hNew
          exact ⟨hPositive, by dsimp only; linarith, fun hThere => absurd hThere hKeys.1⟩

/-- Two rankings give a record two votes at most. -/
theorem score_reciprocalRankScores (hRanking : (ranking.map reading.key).Nodup)
    (hLexical : (lexical.map reading.key).Nodup) {entry : Hit ρ K}
    (hEntry : entry ∈ reading.reciprocalRankScores [ranking, lexical]) :
    0 < entry.score ∧ entry.score ≤ 2 := by
  have hFirst : ∀ entry ∈ (reading.addVotes [] ranking 1 : List (Hit ρ K)),
      0 < entry.score ∧ entry.score ≤ 0 + 1 :=
    score_addVotes 1 (le_refl 0) hRanking fun _ hNone => absurd hNone List.not_mem_nil
  have hBoth := score_addVotes 1 (zero_le_one' K) hLexical (fun entry hMem => by
    obtain ⟨hPositive, hBound⟩ := hFirst entry hMem
    exact ⟨hPositive, by linarith, fun _ => by linarith⟩) entry hEntry
  exact ⟨hBoth.1, by linarith [hBoth.2]⟩

/-- Fused rankings with a named record have one first. -/
theorem namedFirst_fuse (hRanking : (ranking.map reading.key).Nodup)
    (hLexical : (lexical.map reading.key).Nodup)
    (hNamed : Named reading query (reading.fuse [ranking, lexical] query k : List (Hit ρ K))) :
    NamedFirst reading query (reading.fuse [ranking, lexical] query k : List (Hit ρ K)) := by
  rw [fuse_eq] at hNamed ⊢
  obtain ⟨named, hShown, hTitled⟩ := hNamed
  obtain ⟨first, rest, hBest, hFirst, hLe⟩ := best_cases (List.ne_nil_of_mem hShown)
  refine ⟨first, rest, hBest, ?_⟩
  by_contra hOther
  rw [Bool.not_eq_true] at hOther
  have hFused : named ∈ reading.fused [ranking, lexical] query :=
    List.mem_mergeSort.mp (List.mem_of_mem_take hShown)
  have hBehind := hLe named hFused
  obtain ⟨entry, hEntry, rfl⟩ := List.mem_map.mp hFirst
  obtain ⟨other, hMore, rfl⟩ := List.mem_map.mp hFused
  have hHigh := (score_reciprocalRankScores hRanking hLexical hEntry).2
  have hLow := (score_reciprocalRankScores hRanking hLexical hMore).1
  rw [hitLe_iff] at hBehind
  dsimp only at hBehind hOther hTitled
  rw [boost_of_titled hTitled, boost_of_not_titled hOther] at hBehind
  -- Two votes are no more than the boost, and a named record has a vote of its own.
  rcases hBehind with hScore | ⟨hScore, -⟩
  · linarith
  · linarith

end Ordered

end Reading
end Search
end OctoForge
