import Mathlib.Tactic.Linarith
import OctoForge.Search.Fusion

/-!
# Two retrievers

A search has candidates, from a vector search of the store or else the rows as the store
lists them, and the hits of a lexical search, if the store has one.  Without lexical search
the candidates are ranked, and with it the two lists are fused.

`rank` does not care for the order of its candidates, and `fuse` takes it for a ranking.
-/

namespace OctoForge
namespace Search

open Sequence

variable {ρ K : Type} [Field K] [LinearOrder K]

/-- What the stores have handed over for one search. -/
structure Retrieved (ρ : Type) where
  /-- The records that are visible to the search, as the store lists them. -/
  rows : List ρ
  /-- `none`: the store has no vector search. -/
  vectorHits : Option (List ρ)
  /-- `none`: the store has no lexical search. -/
  lexicalHits : Option (List ρ)

namespace Retrieved

def candidates (retrieved : Retrieved ρ) : List ρ := retrieved.vectorHits.getD retrieved.rows

/-- `_shortlist` of the instructions, and the end of `search` of the datasets. -/
def shortlist (reading : Reading ρ) (retrieved : Retrieved ρ) (query : String) (similarity : ρ → K)
    (k : Nat) : List (Hit ρ K) :=
  match retrieved.lexicalHits with
  | none => reading.rank retrieved.candidates query similarity k
  | some lexical => reading.fuse [retrieved.candidates, lexical] query k

end Retrieved

/-- A vector search returns records by decreasing similarity, and leaves none out that is
more similar than one it returns. -/
structure Nearest (rows : List ρ) (similarity : ρ → K) (hits : List ρ) : Prop where
  visible : hits ⊆ rows
  once : hits.Nodup
  decreasing : hits.Pairwise fun a b => similarity b ≤ similarity a
  closest : ∀ a ∈ rows, a ∉ hits → ∀ b ∈ hits, similarity a ≤ similarity b

/-- What a store promises of one search: its rows have different keys, and its vector search
returns the nearest of them. -/
structure Retrieved.Sound (reading : Reading ρ) (retrieved : Retrieved ρ) (similarity : ρ → K) :
    Prop where
  primaryKey : (retrieved.rows.map reading.key).Nodup
  nearest : ∀ hits, retrieved.vectorHits = some hits → Nearest retrieved.rows similarity hits

/-- The order of the shortlist is that of the similarity wherever words say nothing. -/
structure AgreesWithSimilarity (reading : Reading ρ) (retrieved : Retrieved ρ) (query : String)
    (similarity : ρ → K) (shown : List ρ) : Prop where
  /-- Of two records that the lexical hits do not mention and the query does not name, the
  more similar one comes first. -/
  unmatched : ∀ a ∈ retrieved.rows, ∀ b ∈ retrieved.rows,
    reading.Absent (retrieved.lexicalHits.getD []) a →
    reading.Absent (retrieved.lexicalHits.getD []) b →
    reading.titled query a = false → reading.titled query b = false →
    similarity b < similarity a → Before shown a b
  /-- Without lexical hits the order is that of the scores of `rank`. -/
  bruteForce : retrieved.lexicalHits.getD [] = [] → ∀ a ∈ shown, ∀ b ∈ shown,
    similarity b + reading.boost query b < similarity a + reading.boost query a →
    Before shown a b

/-- The rows of a store without vector search come by decreasing similarity, as far as they
get into the shortlist. -/
def RowsInOrder [DecidableEq ρ] (reading : Reading ρ) (rows lexical : List ρ) (query : String)
    (similarity : ρ → K) (k : Nat) : Prop :=
  (∀ a ∈ rows, ∀ b ∈ rows, reading.Absent lexical a → reading.Absent lexical b →
    reading.titled query a = false → reading.titled query b = false →
    similarity b < similarity a → [b, a].Sublist rows →
    reading.crowdedOut (K := K) (reading.fused [rows, lexical] query) k b) ∧
  (lexical = [] → ∀ a ∈ rows, ∀ b ∈ rows,
    reading.titled query a = true → reading.titled query b = true →
    similarity b < similarity a → [b, a].Sublist rows →
    reading.crowdedOut (K := K) (reading.fused [rows, lexical] query) k a)

namespace Reading

variable {reading : Reading ρ} {ranking lexical : List ρ} {k : Nat} {query : String} {a b : ρ}
  {similarity : ρ → K}

/-! ## Ranked candidates -/

theorem rank_eq (reading : Reading ρ) (candidates : List ρ) (query : String) (similarity : ρ → K)
    (k : Nat) : reading.rank candidates query similarity k =
      reading.best (reading.scored candidates query similarity) k := by
  rw [rank]
  split
  · rename_i hNothing
    rcases hNothing with rfl | hNone
    · simp [best]
    · obtain rfl := List.isEmpty_iff.mp hNone
      simp [best, scored]
  · rfl

theorem fuse_eq (reading : Reading ρ) (rankings : List (List ρ)) (query : String) (k : Nat) :
    (reading.fuse rankings query k : List (Hit ρ K)) = reading.best (reading.fused rankings query) k := by
  rw [fuse]
  split
  · rename_i hZero
    simp [best, hZero]
  · rfl

theorem mem_of_best {hits : List (Hit ρ K)} {record : ρ}
    (hMem : record ∈ (reading.best hits k).map (·.record)) : ∃ hit ∈ hits, hit.record = record := by
  obtain ⟨hit, hHit, rfl⟩ := List.mem_map.mp hMem
  exact ⟨hit, List.mem_mergeSort.mp (List.mem_of_mem_take hHit), rfl⟩

theorem before_rank [DecidableEq ρ] (hKeys : (ranking.map reading.key).Nodup)
    (hA : b ∈ ranking → a ∈ ranking)
    (hScore : similarity b + reading.boost query b < similarity a + reading.boost query a) :
    Before ((reading.rank ranking query similarity k).map (·.record)) a b := by
  have hNodup : reading.KeysNodup (reading.scored ranking query similarity) := by
    rw [KeysNodup, scored, List.map_map]
    exact hKeys
  rw [rank_eq]
  by_cases hB : b ∈ ranking
  · have hMem : ∀ record ∈ ranking,
        (⟨record, similarity record + reading.boost query record⟩ : Hit ρ K) ∈
          reading.scored ranking query similarity := fun record hRecord =>
      List.mem_map_of_mem (f := fun record =>
        (⟨record, similarity record + reading.boost query record⟩ : Hit ρ K)) hRecord
    exact (before_best hNodup (hMem a (hA hB)) (hMem b hB)).mpr
      (.inl (goesBefore_of_score hScore))
  · refine before_of_notMem fun hShown => hB ?_
    obtain ⟨hit, hHit, rfl⟩ := mem_of_best hShown
    obtain ⟨record, hRecord, rfl⟩ := List.mem_map.mp hHit
    exact hRecord

/-! ## Fused candidates -/

theorem mem_of_fuse (hKeys : (ranking.map reading.key).Nodup) (hAbsent : reading.Absent lexical b)
    (hShown : b ∈ (reading.fuse [ranking, lexical] query k : List (Hit ρ K)).map (·.record)) :
    b ∈ ranking := by
  rw [fuse_eq] at hShown
  obtain ⟨⟨record, score⟩, hHit, rfl⟩ := mem_of_best hShown
  obtain ⟨place, hPlace, -⟩ := (mem_fused hKeys hAbsent).mp hHit
  exact List.fst_mem_of_mem_zipIdx hPlace

variable [IsStrictOrderedRing K]

/-- The hits of two records of a list that the lexical hits do not mention. -/
theorem exists_fused (query : String) (hKeys : (ranking.map reading.key).Nodup)
    (hPair : [a, b].Sublist ranking) (hA : reading.Absent lexical a)
    (hB : reading.Absent lexical b) :
    ∃ scoreA scoreB : K, scoreB < scoreA ∧ 0 < scoreB ∧ scoreA ≤ 1 ∧
      ⟨a, scoreA + reading.boost query a⟩ ∈ reading.fused [ranking, lexical] query ∧
      ⟨b, scoreB + reading.boost query b⟩ ∈ reading.fused [ranking, lexical] query := by
  have hNodup := List.Nodup.of_map _ hKeys
  obtain ⟨above, below, rfl⟩ := List.append_of_mem (hPair.subset (by simp) : b ∈ ranking)
  have hNe : a ≠ b := by
    have hTwo := hPair.nodup hNodup
    simpa using hTwo
  have hAbove := (pair_sublist_iff_left hNodup hNe).mp hPair
  obtain ⟨i, hLt, rfl⟩ := List.mem_iff_getElem.mp hAbove
  have hPlaceA : (above[i], i + 1) ∈ (above ++ b :: below).zipIdx 1 := by
    rw [Nat.add_comm, List.mk_add_mem_zipIdx_iff_getElem?, List.getElem?_append_left hLt]
    exact List.getElem?_eq_getElem hLt
  have hPlaceB : (b, above.length + 1) ∈ (above ++ b :: below).zipIdx 1 := by
    rw [Nat.add_comm, List.mk_add_mem_zipIdx_iff_getElem?,
      List.getElem?_append_right (Nat.le_refl _)]
    simp
  exact ⟨vote (i + 1), vote (above.length + 1), vote_lt (by omega), vote_pos _, vote_le_one _,
    (mem_fused hKeys hA).mpr ⟨i + 1, hPlaceA, rfl⟩,
    (mem_fused hKeys hB).mpr ⟨above.length + 1, hPlaceB, rfl⟩⟩

theorem boost_eq (hSame : reading.titled query a = reading.titled query b) :
    (reading.boost query a : K) = reading.boost query b := by
  rw [boost, boost, hSame]

variable [DecidableEq ρ]

/-- The record that is first in the candidates is first in the shortlist. -/
theorem before_fuse (hKeys : (ranking.map reading.key).Nodup) (hPair : [a, b].Sublist ranking)
    (hA : reading.Absent lexical a) (hB : reading.Absent lexical b)
    (hSame : reading.titled query a = reading.titled query b) :
    Before ((reading.fuse [ranking, lexical] query k : List (Hit ρ K)).map (·.record)) a b := by
  obtain ⟨scoreA, scoreB, hScore, -, -, hHitA, hHitB⟩ :=
    exists_fused (K := K) query hKeys hPair hA hB
  have hBefore := before_best (k := k) (keysNodup_fused reading ranking lexical query) hHitA hHitB
  rw [fuse_eq]
  refine hBefore.mpr (.inl (goesBefore_of_score ?_))
  rw [boost_eq hSame]
  exact add_lt_add_left hScore _

/-- The other one is behind it, unless it is not shown. -/
theorem before_fuse_iff (hKeys : (ranking.map reading.key).Nodup) (hPair : [b, a].Sublist ranking)
    (hA : reading.Absent lexical a) (hB : reading.Absent lexical b)
    (hSame : reading.titled query a = reading.titled query b) :
    Before ((reading.fuse [ranking, lexical] query k : List (Hit ρ K)).map (·.record)) a b ↔
      reading.crowdedOut (K := K) (reading.fused [ranking, lexical] query) k b := by
  obtain ⟨scoreB, scoreA, hScore, -, -, hHitB, hHitA⟩ :=
    exists_fused (K := K) query hKeys hPair hB hA
  have hBefore := before_best (k := k) (keysNodup_fused reading ranking lexical query) hHitA hHitB
  have hNot : goesBefore reading.hitLe (reading.fused [ranking, lexical] query)
      ⟨a, scoreA + reading.boost query a⟩ ⟨b, scoreB + reading.boost query b⟩ = false := by
    refine not_goesBefore_of_score ?_
    rw [boost_eq hSame]
    exact add_lt_add_left hScore _
  rw [fuse_eq, hBefore, hNot]
  simp

theorem shown_iff (hKeys : (ranking.map reading.key).Nodup) (hA : a ∈ ranking)
    (hAbsent : reading.Absent lexical a) :
    a ∈ (reading.fuse [ranking, lexical] query k : List (Hit ρ K)).map (·.record) ↔
      ¬reading.crowdedOut (K := K) (reading.fused [ranking, lexical] query) k a := by
  obtain ⟨i, hLt, rfl⟩ := List.mem_iff_getElem.mp hA
  have hPlace : (ranking[i], 1 + i) ∈ ranking.zipIdx 1 := by
    rw [List.mk_add_mem_zipIdx_iff_getElem?]
    exact List.getElem?_eq_getElem hLt
  have hHit : (⟨ranking[i], vote (1 + i) + reading.boost query ranking[i]⟩ : Hit ρ K) ∈
      reading.fused [ranking, lexical] query := (mem_fused hKeys hAbsent).mpr ⟨1 + i, hPlace, rfl⟩
  rw [fuse_eq]
  exact mem_best (keysNodup_fused reading ranking lexical query) hHit

/-- Whoever the query names is before everybody else, where there are no lexical hits. -/
theorem before_fuse_titled (hKeys : (ranking.map reading.key).Nodup) (hA : a ∈ ranking)
    (hB : b ∈ ranking) (hNamed : reading.titled query a = true)
    (hOther : reading.titled query b = false) :
    Before ((reading.fuse [ranking, []] query k : List (Hit ρ K)).map (·.record)) a b := by
  have hNe : a ≠ b := fun hSame => by simp [hSame, hOther] at hNamed
  have hAbsent : ∀ record, reading.Absent [] record := fun _ _ hMem => by cases hMem
  have hBoostA : (reading.boost query a : K) = 2 := by simp [boost, hNamed]
  have hBoostB : (reading.boost query b : K) = 0 := by simp [boost, hOther]
  rw [fuse_eq]
  rcases pair_sublist_or hA hB hNe with hPair | hPair
  · obtain ⟨scoreA, scoreB, hScore, -, -, hHitA, hHitB⟩ :=
      exists_fused (K := K) query hKeys hPair (hAbsent a) (hAbsent b)
    refine (before_best (k := k) (keysNodup_fused reading ranking [] query) hHitA hHitB).mpr
      (.inl (goesBefore_of_score ?_))
    rw [hBoostA, hBoostB]
    linarith
  · obtain ⟨scoreB, scoreA, -, hPositive, hSmall, hHitB, hHitA⟩ :=
      exists_fused (K := K) query hKeys hPair (hAbsent b) (hAbsent a)
    refine (before_best (k := k) (keysNodup_fused reading ranking [] query) hHitA hHitB).mpr
      (.inl (goesBefore_of_score ?_))
    rw [hBoostA, hBoostB]
    linarith

end Reading

/-! ## Agreement -/

variable {reading : Reading ρ} {retrieved : Retrieved ρ} {query : String} {similarity : ρ → K}
  {k : Nat} {a b : ρ}

theorem Nearest.pair {rows hits : List ρ} (hNearest : Nearest rows similarity hits)
    (hA : a ∈ rows) (hB : b ∈ hits) (hMore : similarity b < similarity a) :
    [a, b].Sublist hits := by
  have hNe : a ≠ b := fun hSame => by simp [hSame] at hMore
  have hThere : a ∈ hits := by
    by_contra hOut
    exact absurd (hNearest.closest a hA hOut b hB) (not_le.mpr hMore)
  rcases pair_sublist_or hThere hB hNe with hPair | hPair
  · exact hPair
  · have hLess := List.pairwise_pair.mp (hNearest.decreasing.sublist hPair)
    exact absurd hLess (not_le.mpr hMore)

/-- The first records of the rows, sorted by similarity. -/
def nearest (rows : List ρ) (similarity : ρ → K) (limit : Nat) : List ρ :=
  (rows.mergeSort fun a b => similarity b ≤ similarity a).take limit

theorem pairwise_nearest (rows : List ρ) (similarity : ρ → K) :
    (rows.mergeSort fun a b => similarity b ≤ similarity a).Pairwise
      fun a b => similarity b ≤ similarity a := by
  have hSorted := List.pairwise_mergeSort
    (fun a b c (hAB : decide (similarity b ≤ similarity a) = true)
      (hBC : decide (similarity c ≤ similarity b) = true) =>
        decide_eq_true (le_trans (of_decide_eq_true hBC) (of_decide_eq_true hAB)))
    (fun a b => by simpa using le_total (similarity b) (similarity a)) rows
  exact hSorted.imp of_decide_eq_true

theorem nearest_nearest {rows : List ρ} (hNodup : rows.Nodup) (similarity : ρ → K) (limit : Nat) :
    Nearest rows similarity (nearest rows similarity limit) := by
  have hSorted := pairwise_nearest rows similarity
  have hPerm := List.mergeSort_perm rows fun a b => decide (similarity b ≤ similarity a)
  refine ⟨fun a hA => hPerm.mem_iff.mp (List.mem_of_mem_take hA),
    (List.take_sublist limit _).nodup (hPerm.nodup_iff.mpr hNodup), ?_, ?_⟩
  · exact hSorted.sublist (List.take_sublist limit _)
  · intro a hA hOut b hB
    rw [← List.take_append_drop limit (rows.mergeSort _), List.pairwise_append] at hSorted
    have hRest := hPerm.mem_iff.mpr hA
    rw [← List.take_append_drop limit (rows.mergeSort _), List.mem_append] at hRest
    rcases hRest with hIn | hBehind
    · exact absurd hIn hOut
    · exact hSorted.2.2 b hB a hBehind

theorem Retrieved.Sound.keys (hSound : retrieved.Sound reading similarity) :
    (retrieved.candidates.map reading.key).Nodup := by
  rw [Retrieved.candidates]
  cases hVector : retrieved.vectorHits with
  | none => exact hSound.primaryKey
  | some hits =>
      have hNearest := hSound.nearest hits hVector
      refine hNearest.once.map_on fun x hX y hY hSame => ?_
      exact List.inj_on_of_nodup_map hSound.primaryKey (hNearest.visible hX) (hNearest.visible hY)
        hSame

section Agreement

variable [IsStrictOrderedRing K] [DecidableEq ρ]

/-- Ranked candidates come in the order of their scores. -/
theorem agrees_of_rank (hSound : retrieved.Sound reading similarity)
    (hLexical : retrieved.lexicalHits = none) :
    AgreesWithSimilarity reading retrieved query similarity
      ((retrieved.shortlist reading query similarity k).map (·.record)) := by
  have hShortlist : retrieved.shortlist reading query similarity k =
      reading.rank retrieved.candidates query similarity k := by
    simp [Retrieved.shortlist, hLexical]
  rw [hShortlist]
  constructor
  · intro a hA b hB _ _ hTitleA hTitleB hMore
    refine Reading.before_rank hSound.keys (fun hShown => ?_) ?_
    · cases hVector : retrieved.vectorHits with
      | none => simpa [Retrieved.candidates, hVector] using hA
      | some hits =>
          rw [Retrieved.candidates, hVector, Option.getD_some] at hShown ⊢
          exact ((hSound.nearest hits hVector).pair hA hShown hMore).subset (by simp)
    · rw [Reading.boost_eq (hTitleA.trans hTitleB.symm)]
      exact add_lt_add_left hMore _
  · intro _ a hA b _ hMore
    refine Reading.before_rank hSound.keys (fun _ => ?_) hMore
    rw [Reading.rank_eq] at hA
    obtain ⟨hit, hHit, rfl⟩ := Reading.mem_of_best hA
    obtain ⟨record, hRecord, rfl⟩ := List.mem_map.mp hHit
    exact hRecord

/-- Two records that come in the order of their scores in the candidates, wherever that
matters, come in that order in the fused list. -/
theorem agrees_of_fuse {lexical : List ρ} (hSound : retrieved.Sound reading similarity)
    (hBounded : ∀ record, -1 ≤ similarity record ∧ similarity record ≤ 1)
    (hLexical : retrieved.lexicalHits = some lexical)
    (hUnmatched : ∀ a ∈ retrieved.rows, ∀ b ∈ retrieved.candidates, reading.Absent lexical a →
      reading.Absent lexical b → reading.titled query a = false →
      reading.titled query b = false → similarity b < similarity a →
      [a, b].Sublist retrieved.candidates ∨ [b, a].Sublist retrieved.candidates ∧
        reading.crowdedOut (K := K) (reading.fused [retrieved.candidates, lexical] query) k b)
    (hTitled : lexical = [] → ∀ a ∈ retrieved.candidates, ∀ b ∈ retrieved.candidates,
      reading.titled query a = true → reading.titled query b = true →
      similarity b < similarity a →
      [a, b].Sublist retrieved.candidates ∨
        reading.crowdedOut (K := K) (reading.fused [retrieved.candidates, lexical] query) k a)
    (hRows : retrieved.candidates ⊆ retrieved.rows) :
    AgreesWithSimilarity reading retrieved query similarity
      ((retrieved.shortlist reading query similarity k).map (·.record)) := by
  have hShortlist : retrieved.shortlist reading query similarity k =
      reading.fuse [retrieved.candidates, lexical] query k := by
    simp [Retrieved.shortlist, hLexical]
  have hUnmatched' : ∀ a ∈ retrieved.rows, ∀ b ∈ retrieved.rows, reading.Absent lexical a →
      reading.Absent lexical b → reading.titled query a = false →
      reading.titled query b = false → similarity b < similarity a →
      Before ((reading.fuse [retrieved.candidates, lexical] query k : List (Hit ρ K)).map
        (·.record)) a b := by
    intro a hA b _ hAbsentA hAbsentB hTitleA hTitleB hMore
    have hSame := hTitleA.trans hTitleB.symm
    -- Only a candidate is shown that neither the texts nor the titles have found.
    by_cases hIn : b ∈ retrieved.candidates
    · rcases hUnmatched a hA b hIn hAbsentA hAbsentB hTitleA hTitleB hMore with
        hPair | ⟨hPair, hOut⟩
      · exact Reading.before_fuse hSound.keys hPair hAbsentA hAbsentB hSame
      · exact (Reading.before_fuse_iff hSound.keys hPair hAbsentA hAbsentB hSame).mpr hOut
    · exact before_of_notMem fun hShown => hIn (Reading.mem_of_fuse hSound.keys hAbsentB hShown)
  rw [hShortlist]
  constructor
  · rw [hLexical, Option.getD_some]
    exact hUnmatched'
  · rw [hLexical, Option.getD_some]
    rintro rfl a hA b hB hMore
    have hAbsent : ∀ record, reading.Absent [] record := fun _ _ hMem => by cases hMem
    have hInA := Reading.mem_of_fuse hSound.keys (hAbsent a) hA
    have hInB := Reading.mem_of_fuse hSound.keys (hAbsent b) hB
    cases hTitleA : reading.titled query a <;> cases hTitleB : reading.titled query b
    · rw [Reading.boost_eq (hTitleA.trans hTitleB.symm)] at hMore
      exact hUnmatched' a (hRows hInA) b (hRows hInB) (hAbsent a) (hAbsent b) hTitleA hTitleB
        (lt_of_add_lt_add_right hMore)
    · -- A title outweighs the widest difference between two similarities.
      have hLeast := (hBounded b).1
      have hMost := (hBounded a).2
      simp only [Reading.boost, hTitleA, hTitleB, if_true, Bool.false_eq_true, if_false] at hMore
      linarith
    · exact Reading.before_fuse_titled hSound.keys hInA hInB hTitleA hTitleB
    · have hSame := hTitleA.trans hTitleB.symm
      rw [Reading.boost_eq hSame] at hMore
      rcases hTitled rfl a hInA b hInB hTitleA hTitleB (lt_of_add_lt_add_right hMore) with
        hPair | hOut
      · exact Reading.before_fuse hSound.keys hPair (hAbsent a) (hAbsent b) hSame
      · exact absurd hOut ((Reading.shown_iff hSound.keys hInA (hAbsent a)).mp hA)

/-- The shortlist agrees with the similarity exactly where the fused list is a ranking, or
the rows that are taken for one happen to be in order. -/
theorem agrees_iff (hSound : retrieved.Sound reading similarity)
    (hBounded : ∀ record, -1 ≤ similarity record ∧ similarity record ≤ 1) :
    AgreesWithSimilarity reading retrieved query similarity
        ((retrieved.shortlist reading query similarity k).map (·.record)) ↔
      retrieved.lexicalHits = none ∨ retrieved.vectorHits ≠ none ∨
        RowsInOrder reading retrieved.rows (retrieved.lexicalHits.getD []) query similarity k := by
  cases hLexical : retrieved.lexicalHits with
  | none => exact iff_of_true (agrees_of_rank hSound hLexical) (.inl rfl)
  | some lexical =>
      cases hVector : retrieved.vectorHits with
      | some hits =>
          have hCandidates : retrieved.candidates = hits := by
            simp [Retrieved.candidates, hVector]
          have hNearest := hSound.nearest hits hVector
          refine iff_of_true (agrees_of_fuse hSound hBounded hLexical ?_ ?_ ?_)
            (.inr (.inl (by simp)))
          · rw [hCandidates]
            intro a hA b hB _ _ _ _ hMore
            exact .inl (hNearest.pair hA hB hMore)
          · rw [hCandidates]
            intro _ a hA b hB _ _ hMore
            exact .inl (hNearest.pair (hNearest.visible hA) hB hMore)
          · rw [hCandidates]
            exact hNearest.visible
      | none =>
          have hCandidates : retrieved.candidates = retrieved.rows := by
            simp [Retrieved.candidates, hVector]
          have hKeys := hSound.primaryKey
          have hApart : ∀ a ∈ retrieved.rows, ∀ b ∈ retrieved.rows, similarity b < similarity a →
              [a, b].Sublist retrieved.rows ∨ [b, a].Sublist retrieved.rows := by
            intro a hA b hB hMore
            exact pair_sublist_or hA hB fun hSame => by simp [hSame] at hMore
          simp only [reduceCtorEq, ne_eq, not_true_eq_false, Option.getD_some, false_or]
          constructor
          · intro hAgrees
            have hShortlist : retrieved.shortlist reading query similarity k =
                reading.fuse [retrieved.rows, lexical] query k := by
              simp [Retrieved.shortlist, hLexical, hCandidates]
            obtain ⟨hUnmatched, hBruteForce⟩ := hAgrees
            rw [hLexical, Option.getD_some, hShortlist] at hUnmatched hBruteForce
            refine ⟨fun a hA b hB hAbsentA hAbsentB hTitleA hTitleB hMore hPair => ?_, ?_⟩
            · exact (Reading.before_fuse_iff hKeys hPair hAbsentA hAbsentB
                (hTitleA.trans hTitleB.symm)).mp
                (hUnmatched a hA b hB hAbsentA hAbsentB hTitleA hTitleB hMore)
            · rintro rfl a hA b hB hTitleA hTitleB hMore hPair
              have hAbsent : ∀ record, reading.Absent [] record := fun _ _ hMem => by cases hMem
              have hSame := hTitleA.trans hTitleB.symm
              by_contra hIn
              -- The less similar one is before the other, so it is shown as well.
              have hShownA := (Reading.shown_iff hKeys hA (hAbsent a)).mpr hIn
              obtain ⟨above, below, hSplit⟩ := List.append_of_mem hShownA
              have hFirst : b ∈ above := Reading.before_fuse hKeys hPair (hAbsent b) (hAbsent a)
                hSame.symm above below hSplit
              have hShownB := hSplit ▸ List.mem_append_left (a :: below) hFirst
              have hOut := (Reading.before_fuse_iff hKeys hPair (hAbsent a) (hAbsent b) hSame).mp
                (hBruteForce rfl a hShownA b hShownB (by
                  rw [Reading.boost_eq hSame]
                  exact add_lt_add_left hMore _))
              exact (Reading.shown_iff hKeys hB (hAbsent b)).mp hShownB hOut
          · rintro ⟨hUnmatched, hTitled⟩
            refine agrees_of_fuse hSound hBounded hLexical ?_ ?_ (hCandidates ▸ List.Subset.refl _)
            · rw [hCandidates]
              intro a hA b hB hAbsentA hAbsentB hTitleA hTitleB hMore
              rcases hApart a hA b hB hMore with hPair | hPair
              · exact .inl hPair
              · exact .inr ⟨hPair, hUnmatched a hA b hB hAbsentA hAbsentB hTitleA hTitleB hMore
                  hPair⟩
            · rw [hCandidates]
              intro hNone a hA b hB hTitleA hTitleB hMore
              rcases hApart a hA b hB hMore with hPair | hPair
              · exact .inl hPair
              · exact .inr (hTitled hNone a hA b hB hTitleA hTitleB hMore hPair)

end Agreement
end Search
end OctoForge
