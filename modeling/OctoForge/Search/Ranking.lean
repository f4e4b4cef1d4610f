import Mathlib.Algebra.Order.Field.Basic
import Mathlib.Data.String.Basic
import OctoForge.Sequence.Sorted

/-!
# Ranking records

Instructions and datasets are ranked by the same two functions, each with its own copy of
them.  `rank` is handed records and scores them by their similarity to the query; `fuse` is
handed lists that are rankings already and reads nothing but the places in them.

A record has a key and a title.  Scores are exact, in any ordered field.
-/

namespace OctoForge
namespace Search

open Sequence

structure Hit (ρ K : Type) where
  record : ρ
  score : K
  deriving DecidableEq, Repr

/-- How a kind of record is looked at, and `str.casefold`. -/
structure Reading (ρ : Type) where
  key : ρ → String
  title : ρ → String
  casefold : String → String

variable {ρ K : Type} [Field K] [LinearOrder K]

namespace Reading

variable (reading : Reading ρ)

/-- The title is the query, whatever the case. -/
def titled (query : String) (record : ρ) : Bool :=
  reading.casefold (reading.title record) = reading.casefold query

/-- `EXACT_TITLE_BOOST`. -/
def boost (query : String) (record : ρ) : K := if reading.titled query record then 2 else 0

/-- The sort key: the best first, and among equals the title. -/
def hitLe (hit other : Hit ρ K) : Bool :=
  decide (other.score < hit.score) ||
    (decide (hit.score = other.score) && decide (reading.title hit.record ≤ reading.title other.record))

/-- `hits.sort(...)` and `hits[:k]`. -/
def best (hits : List (Hit ρ K)) (k : Nat) : List (Hit ρ K) := (hits.mergeSort reading.hitLe).take k

/-- The candidates with what `rank` makes of them. -/
def scored (candidates : List ρ) (query : String) (similarity : ρ → K) : List (Hit ρ K) :=
  candidates.map fun record => ⟨record, similarity record + reading.boost query record⟩

def rank (candidates : List ρ) (query : String) (similarity : ρ → K) (k : Nat) :
    List (Hit ρ K) :=
  if k = 0 ∨ candidates.isEmpty then []
  else reading.best (reading.scored candidates query similarity) k

/-! ## Reciprocal rank fusion -/

/-- `RRF_SMOOTHING`. -/
def rrfSmoothing : Nat := 60

/-- What a place counts. -/
def vote (position : Nat) : K := 1 / ((rrfSmoothing + position : Nat) : K)

/-- One turn of the loop: `scores` and `records` have the same keys. -/
def addVote (entries : List (Hit ρ K)) (candidate : ρ) (position : Nat) : List (Hit ρ K) :=
  if entries.any fun entry => reading.key entry.record = reading.key candidate then
    entries.map fun entry =>
      if reading.key entry.record = reading.key candidate then
        { entry with score := entry.score + vote position }
      else entry
  else entries ++ [⟨candidate, vote position⟩]

/-- The loop over one ranking, from a place on. -/
def addVotes (entries : List (Hit ρ K)) : (ranking : List ρ) → (position : Nat) → List (Hit ρ K)
  | [], _ => entries
  | candidate :: rest, position =>
      addVotes (reading.addVote entries candidate position) rest (position + 1)

/-- `_reciprocal_rank_scores`. -/
def reciprocalRankScores (rankings : List (List ρ)) : List (Hit ρ K) :=
  rankings.foldl (fun entries ranking => reading.addVotes entries ranking 1) []

/-- The records of the rankings with what `fuse` makes of them. -/
def fused (rankings : List (List ρ)) (query : String) : List (Hit ρ K) :=
  (reading.reciprocalRankScores rankings).map fun entry =>
    { entry with score := entry.score + reading.boost query entry.record }

def fuse (rankings : List (List ρ)) (query : String) (k : Nat) : List (Hit ρ K) :=
  if k = 0 then [] else reading.best (reading.fused rankings query) k

/-! ## The order of hits -/

variable {reading} {hit other : Hit ρ K} {candidates ranking : List ρ} {query : String}
  {similarity : ρ → K} {k : Nat}

theorem hitLe_iff : reading.hitLe hit other = true ↔
    other.score < hit.score ∨
      hit.score = other.score ∧ reading.title hit.record ≤ reading.title other.record := by
  simp [hitLe]

theorem hitLe_trans (first second third : Hit ρ K) (h₁ : reading.hitLe first second = true)
    (h₂ : reading.hitLe second third = true) : reading.hitLe first third = true := by
  rw [hitLe_iff] at h₁ h₂ ⊢
  rcases h₁ with h₁ | ⟨h₁, hTitle₁⟩ <;> rcases h₂ with h₂ | ⟨h₂, hTitle₂⟩
  · exact .inl (lt_trans h₂ h₁)
  · exact .inl (h₂ ▸ h₁)
  · exact .inl (h₁ ▸ h₂)
  · exact .inr ⟨h₁.trans h₂, le_trans hTitle₁ hTitle₂⟩

theorem hitLe_total (hit other : Hit ρ K) :
    (reading.hitLe hit other || reading.hitLe other hit) = true := by
  rw [Bool.or_eq_true, hitLe_iff, hitLe_iff]
  rcases lt_trichotomy hit.score other.score with hLess | hSame | hMore
  · exact .inr (.inl hLess)
  · rcases le_total (reading.title hit.record) (reading.title other.record) with hTitle | hTitle
    · exact .inl (.inr ⟨hSame, hTitle⟩)
    · exact .inr (.inr ⟨hSame.symm, hTitle⟩)
  · exact .inl (.inl hMore)

/-- The records of a list of hits have different keys. -/
def KeysNodup (reading : Reading ρ) (hits : List (Hit ρ K)) : Prop :=
  (hits.map fun hit => reading.key hit.record).Nodup

theorem KeysNodup.nodup {hits : List (Hit ρ K)} (hKeys : reading.KeysNodup hits) : hits.Nodup :=
  List.Nodup.of_map _ hKeys

theorem KeysNodup.inj {hits : List (Hit ρ K)} (hKeys : reading.KeysNodup hits) (hit : Hit ρ K)
    (hHit : hit ∈ hits) (other : Hit ρ K) (hOther : other ∈ hits)
    (hSame : hit.record = other.record) : hit = other :=
  List.inj_on_of_nodup_map hKeys hHit hOther (congrArg reading.key hSame)

variable [DecidableEq ρ]

/-- A record is not among the first `k`. -/
def crowdedOut (reading : Reading ρ) (hits : List (Hit ρ K)) (k : Nat) (record : ρ) : Prop :=
  ∀ hit ∈ hits, hit.record = record → k ≤ hits.countP (goesBefore reading.hitLe hits · hit)

theorem before_best {hits : List (Hit ρ K)} (hKeys : reading.KeysNodup hits) (hHit : hit ∈ hits)
    (hOther : other ∈ hits) :
    Before ((reading.best hits k).map (·.record)) hit.record other.record ↔
      goesBefore reading.hitLe hits hit other = true ∨
        reading.crowdedOut hits k other.record := by
  have hSub : reading.best hits k ⊆ hits := fun x hX =>
    List.mem_mergeSort.mp (List.mem_of_mem_take hX)
  rw [before_map hKeys.inj hSub hHit hOther, best,
    before_take_mergeSort hitLe_trans hitLe_total hKeys.nodup hHit hOther]
  refine or_congr Iff.rfl ⟨fun hMany hit' hHit' hSame => ?_, fun hOut => hOut other hOther rfl⟩
  obtain rfl := hKeys.inj hit' hHit' other hOther hSame
  exact hMany

theorem mem_best {hits : List (Hit ρ K)} (hKeys : reading.KeysNodup hits) (hHit : hit ∈ hits) :
    hit.record ∈ (reading.best hits k).map (·.record) ↔ ¬reading.crowdedOut hits k hit.record := by
  have hSub : reading.best hits k ⊆ hits := fun x hX =>
    List.mem_mergeSort.mp (List.mem_of_mem_take hX)
  have hPlace : hit ∈ reading.best hits k ↔
      hits.countP (goesBefore reading.hitLe hits · hit) < k :=
    mem_take_mergeSort hitLe_trans hitLe_total hKeys.nodup hHit k
  constructor
  · intro hShown hOut
    obtain ⟨hit', hHit', hSame⟩ := List.mem_map.mp hShown
    obtain rfl := hKeys.inj hit' (hSub hHit') hit hHit hSame
    have hFew := hPlace.mp hHit'
    have hMany := hOut hit' hHit rfl
    omega
  · intro hNot
    refine List.mem_map_of_mem (hPlace.mpr ?_)
    by_contra hMany
    refine hNot fun hit' hHit' hSame => ?_
    obtain rfl := hKeys.inj hit' hHit' hit hHit hSame
    exact Nat.not_lt.mp hMany

theorem goesBefore_of_score {hits : List (Hit ρ K)} (hScore : other.score < hit.score) :
    goesBefore reading.hitLe hits hit other = true := by
  have hNot : reading.hitLe other hit = false := by
    rw [Bool.eq_false_iff, Ne, hitLe_iff, not_or]
    exact ⟨lt_asymm hScore, fun hSame => absurd hSame.1 hScore.ne⟩
  rw [goesBefore, hitLe_iff.mpr (.inl hScore), hNot]
  rfl

theorem not_goesBefore_of_score {hits : List (Hit ρ K)} (hScore : hit.score < other.score) :
    goesBefore reading.hitLe hits hit other = false := by
  have hNot : reading.hitLe hit other = false := by
    rw [Bool.eq_false_iff, Ne, hitLe_iff, not_or]
    exact ⟨lt_asymm hScore, fun hSame => absurd hSame.1 hScore.ne⟩
  rw [goesBefore, hNot]
  rfl

end Reading
end Search
end OctoForge
