import OctoForge.Instructions.Search
import OctoForge.Search.Named
import OctoForge.Text

/-!
# The search of the instructions service

The shortlist is scored a second time when a reranker is configured, and a search over all types
caps the share of each.  Every stage promises that a record whose title is the query comes first:
`rank` and `fuse` by a boost of its score, `rerank` by moving it there.  The caps promise nothing,
and they may sort once more.
-/

namespace OctoForge
namespace Instructions

open Search

variable {K : Type} [Field K] [LinearOrder K]

/-- What a search reads of `LocalInstructionService`.  The embedder and the reranker may raise. -/
structure LocalInstructionService (K : Type) where
  store : InstructionStore
  embed : String → Option Embedding
  reranker : Option (List (String × String) → Option (List K)) := none
  rerankCandidates : Nat := 20

def embeddedText (title content : String) : String := title ++ "\n" ++ content

/-- `_wanted_kinds`. -/
def wantedKinds (kind : Option InstructionType) (exclude : List InstructionType) :
    List InstructionType :=
  match kind with
  | some kind => [kind]
  | none => [.knowledge, .skill, .endpoint, .memory].filter fun candidate => candidate ∉ exclude

/-- The sort key of hits; it reads no case. -/
def hitLe : Hit InstructionRow K → Hit InstructionRow K → Bool := (reading id).hitLe

def hitKind (hit : Hit InstructionRow K) : InstructionType := hit.record.slot.kind

/-- `_cap_types`. -/
def capTypes (hits : List (Hit InstructionRow K)) (k : Nat) : List (Hit InstructionRow K) :=
  Search.capTypes hitKind hitLe hits k

namespace LocalInstructionService

variable (service : LocalInstructionService K)

def shortlistSize (k : Nat) : Nat :=
  if service.reranker.isSome then max k service.rerankCandidates else k

/-- A search over all types fetches more, for the caps to fill up from. -/
def fetch (k : Nat) (kind : Option InstructionType) : Nat :=
  -- with a reranker the shortlist is what the reranker has to read
  if kind.isNone && service.reranker.isNone then max (service.shortlistSize k) (k * 3)
  else service.shortlistSize k

/-- The shortlist of `_search`; `none` when the search returns or raises before it has one. -/
def shortlist (casefold : String → String) (cosine : Embedding → Embedding → K)
    (userId : Option UserId) (query : String) (k : Nat) (kind : Option InstructionType)
    (exclude : List InstructionType) : Option (List (Hit InstructionRow K)) :=
  if Text.strip query.toList = [] ∨ k = 0 then none
  else
    (service.embed query).map fun queryEmbedding =>
      service.store.shortlist casefold cosine query queryEmbedding (service.fetch k kind) userId
        (wantedKinds kind exclude)

/-- What the reranker says about a shortlist; `none` when it is not asked or raises. -/
def scores (query : String) (shortlist : List (Hit InstructionRow K)) : Option (List K) :=
  match service.reranker with
  | none => none
  | some score =>
      if shortlist.isEmpty then none
      else
        score <| shortlist.map fun hit =>
          (query, embeddedText hit.record.slot.title hit.record.content)

/-- `_apply_reranker`; `none` when it raises. -/
def applyReranker (casefold : String → String) (query : String)
    (shortlist : List (Hit InstructionRow K)) (k : Nat) : Option (List (Hit InstructionRow K)) :=
  if service.reranker.isNone ∨ shortlist.isEmpty then some shortlist
  else
    match service.scores query shortlist with
    | none => some (shortlist.take k)
    | some scores => (reading casefold).rerank shortlist scores k query

/-- `_search`; `none` when it raises.  The counters of the hits are written off its path. -/
def search (casefold : String → String) (cosine : Embedding → Embedding → K)
    (userId : Option UserId) (query : String) (k : Nat) (kind : Option InstructionType)
    (exclude : List InstructionType) : Option (List (Hit InstructionRow K)) :=
  if Text.strip query.toList = [] ∨ k = 0 then some []
  else do
    let shortlist ← service.shortlist casefold cosine userId query k kind exclude
    let hits ← service.applyReranker casefold query shortlist
      (if kind.isNone then shortlist.length else k)
    pure (if kind.isNone then capTypes hits k else hits)

/-- The titles stay first.  Where the hits keep the scores of the reranker, the caps must not sort
another hit before the first; otherwise a named record must not be outshone in the ranking. -/
def KeepsTitlesFirst (casefold : String → String) (cosine : Embedding → Embedding → K)
    (userId : Option UserId) (query : String) (k : Nat) (kind : Option InstructionType)
    (exclude : List InstructionType) (shortlist : List (Hit InstructionRow K)) : Prop :=
  match service.scores query shortlist with
  | some scores =>
      kind ≠ none ∨ ∀ reranked,
        (reading casefold).rerank shortlist scores shortlist.length query = some reranked →
          (reading casefold).KeepsFirst (·.slot.kind) query k reranked
  | none =>
      service.store.searchByText ≠ none ∨ ∀ queryEmbedding,
        service.embed query = some queryEmbedding →
          ¬(reading casefold).Outshone
            (service.store.vectorCandidates queryEmbedding (service.fetch k kind) userId
              (wantedKinds kind exclude))
            query fun row => cosine queryEmbedding row.embedding

end LocalInstructionService

/-- A search of the store finds no record twice. -/
structure InstructionStore.FindsOnce (store : InstructionStore) : Prop where
  byVector : ∀ search, store.searchByVector = some search → ∀ queryEmbedding fetch userId kinds,
    ((search queryEmbedding fetch userId kinds).map (·.id)).Nodup
  byText : ∀ search, store.searchByText = some search → ∀ query fetch userId kinds,
    ((search query fetch userId kinds).map (·.id)).Nodup

namespace InstructionStore

variable {store : InstructionStore} {casefold : String → String}
  {cosine : Embedding → Embedding → K} {query : String} {queryEmbedding : Embedding} {fetch : Nat}
  {userId : Option UserId} {kinds : List InstructionType}

theorem FindsOnce.vectorCandidates (hOnce : store.FindsOnce) :
    ((store.vectorCandidates queryEmbedding fetch userId kinds).map (·.id)).Nodup := by
  rw [InstructionStore.vectorCandidates]
  split
  · exact hOnce.byVector _ (by assumption) _ _ _ _
  · exact store.ids_visible userId kinds

theorem shortlist_sorted :
    (store.shortlist casefold cosine query queryEmbedding fetch userId kinds).Pairwise
      fun hit other => hitLe hit other = true := by
  rw [InstructionStore.shortlist]
  split
  · rw [rank, Reading.rank_eq]
    exact Reading.best_sorted (reading casefold) _ _
  · rw [fuse, Reading.fuse_eq]
    exact Reading.best_sorted (reading casefold) _ _

/-- The boost puts a named record first where the store searches by words, or nothing outshines
the named ones. -/
theorem namedFirst_shortlist [IsStrictOrderedRing K]
    (hBounded : ∀ first second, -1 ≤ cosine first second ∧ cosine first second ≤ 1)
    (hOnce : store.FindsOnce)
    (hNamed : (reading casefold).Named query
      (store.shortlist casefold cosine query queryEmbedding fetch userId kinds)) :
    (reading casefold).NamedFirst query
        (store.shortlist casefold cosine query queryEmbedding fetch userId kinds) ↔
      store.searchByText ≠ none ∨
        ¬(reading casefold).Outshone
          (store.vectorCandidates queryEmbedding fetch userId kinds) query
          fun row => cosine queryEmbedding row.embedding := by
  rw [InstructionStore.shortlist, lexicalCandidates] at hNamed ⊢
  cases hText : store.searchByText with
  | none =>
      rw [hText, Option.map_none] at hNamed
      rw [Option.map_none, or_iff_right (fun hSome => hSome rfl)]
      exact Reading.namedFirst_rank (fun row _ => hBounded _ _) hNamed
  | some search =>
      rw [hText, Option.map_some] at hNamed
      rw [Option.map_some]
      refine iff_of_true ?_ (.inl (Option.some_ne_none search))
      exact Reading.namedFirst_fuse hOnce.vectorCandidates (hOnce.byText search hText _ _ _ _) hNamed

end InstructionStore

/-! ## The caps -/

variable {casefold : String → String} {query : String} {k : Nat} {shortlist : List (Hit InstructionRow K)}

def glossaryRow (id title : String) (embedding : Embedding) : InstructionRow where
  id := id
  slot := { kind := .knowledge, title, ownerId := none }
  content := ""
  embedding := embedding

def alpha : InstructionRow := glossaryRow "1" "alpha" [1]

def beta : InstructionRow := glossaryRow "2" "beta" [-1]

omit [Field K] in
/-- The caps diversify and never starve. -/
theorem capTypes_diverse {hits : List (Hit InstructionRow K)} {k : Nat} (hDistinct : hits.Nodup)
    (hK : 0 < k) : Diverse hitKind hits k (capTypes hits k) :=
  diverse_capTypes hDistinct hK

theorem capTypes_diverse_one :
    Diverse hitKind ([⟨alpha, 1⟩, ⟨beta, 1⟩] : List (Hit InstructionRow Rat)) 1
      (capTypes [⟨alpha, 1⟩, ⟨beta, 1⟩] 1) :=
  capTypes_diverse (by decide +kernel) Nat.one_pos

omit [Field K] [LinearOrder K] in
/-- Sorted hits that are cut have the first hit first. -/
theorem namedFirst_take (hK : 0 < k) : (reading casefold).NamedFirst query (shortlist.take k) ↔
    (reading casefold).NamedFirst query shortlist := by
  obtain ⟨k, rfl⟩ := Nat.exists_eq_succ_of_ne_zero (Nat.ne_of_gt hK)
  cases shortlist with
  | nil => rw [List.take_nil]
  | cons first rest => simp [Reading.NamedFirst]

/-- The caps do not move the first of hits that are sorted. -/
theorem namedFirst_capTypes (hK : 0 < k)
    (hSorted : shortlist.Pairwise fun hit other => hitLe hit other = true) :
    (reading casefold).NamedFirst query (capTypes shortlist k) ↔
      (reading casefold).NamedFirst query shortlist := by
  cases shortlist with
  | nil =>
      have hNone : capTypes ([] : List (Hit InstructionRow K)) k = [] := by
        simp [capTypes, Search.capTypes, Shares.pass, Shares.filled]
      rw [hNone]
  | cons first rest =>
      have hCapped : ∃ more, capTypes (first :: rest) k = first :: more :=
        (reading casefold).capTypes_sorted (fun row : InstructionRow => row.slot.kind) hK hSorted
      obtain ⟨more, hFirst⟩ := hCapped
      rw [hFirst]
      simp [Reading.NamedFirst]

/-! ## The search -/

namespace LocalInstructionService

variable {service : LocalInstructionService K} {cosine : Embedding → Embedding → K}
  {userId : Option UserId} {kind : Option InstructionType} {exclude : List InstructionType}
  {hits : List (Hit InstructionRow K)}

/-- A search that has a shortlist has asked for hits, and its store has made the shortlist. -/
theorem shortlist_cases
    (hShortlist : service.shortlist casefold cosine userId query k kind exclude = some shortlist) :
    (Text.strip query.toList ≠ [] ∧ 0 < k) ∧ ∃ queryEmbedding,
      service.embed query = some queryEmbedding ∧
        shortlist = service.store.shortlist casefold cosine query queryEmbedding
          (service.fetch k kind) userId (wantedKinds kind exclude) := by
  rw [LocalInstructionService.shortlist] at hShortlist
  split at hShortlist
  · cases hShortlist
  · rename_i hAsked
    obtain ⟨queryEmbedding, hEmbed, rfl⟩ := Option.map_eq_some_iff.mp hShortlist
    rw [not_or] at hAsked
    exact ⟨⟨hAsked.1, Nat.pos_of_ne_zero hAsked.2⟩, queryEmbedding, hEmbed, rfl⟩

theorem search_cases
    (hShortlist : service.shortlist casefold cosine userId query k kind exclude = some shortlist)
    (hHits : service.search casefold cosine userId query k kind exclude = some hits) :
    ∃ ranked, service.applyReranker casefold query shortlist
        (if kind.isNone then shortlist.length else k) = some ranked ∧
      hits = if kind.isNone then capTypes ranked k else ranked := by
  obtain ⟨⟨hQuery, hK⟩, -⟩ := shortlist_cases hShortlist
  rw [search, if_neg (not_or.mpr ⟨hQuery, Nat.ne_of_gt hK⟩), hShortlist, Option.bind_eq_bind,
    Option.bind_some] at hHits
  obtain ⟨ranked, hRanked, hEq⟩ := Option.bind_eq_some_iff.mp hHits
  exact ⟨ranked, hRanked, (Option.some.inj hEq).symm⟩

omit [Field K] in
/-- Without scores of the reranker the shortlist is what is left, or the start of it. -/
theorem applyReranker_of_none (casefold : String → String)
    (hScores : service.scores query shortlist = none) (k : Nat) :
    service.applyReranker casefold query shortlist k = some shortlist ∨
      service.applyReranker casefold query shortlist k = some (shortlist.take k) := by
  rw [applyReranker]
  split
  · exact .inl rfl
  · rw [hScores]
    exact .inr rfl

omit [Field K] in
theorem applyReranker_of_some {scores : List K}
    (hScores : service.scores query shortlist = some scores) (k : Nat) :
    service.applyReranker casefold query shortlist k =
      (reading casefold).rerank shortlist scores k query := by
  have hAsked : ¬(service.reranker.isNone = true ∨ shortlist.isEmpty = true) := by
    rintro (hNone | hEmpty)
    · rw [LocalInstructionService.scores, Option.isNone_iff_eq_none.mp hNone] at hScores
      cases hScores
    · rw [LocalInstructionService.scores] at hScores
      split at hScores
      · cases hScores
      · rw [if_pos hEmpty] at hScores
        cases hScores
  rw [applyReranker, if_neg hAsked, hScores]

/-- A hit whose title is the query comes first, in a shortlist that has one, exactly where no stage
after the boost sorts another hit before it. -/
theorem exact_titles_first [IsStrictOrderedRing K] {service : LocalInstructionService K}
    {cosine : Embedding → Embedding → K}
    (hBounded : ∀ first second, -1 ≤ cosine first second ∧ cosine first second ≤ 1)
    (hOnce : service.store.FindsOnce) {casefold : String → String} {userId : Option UserId}
    {query : String} {k : Nat} {kind : Option InstructionType} {exclude : List InstructionType}
    {shortlist hits : List (Hit InstructionRow K)}
    (hShortlist : service.shortlist casefold cosine userId query k kind exclude = some shortlist)
    (hNamed : (reading casefold).Named query shortlist)
    (hHits : service.search casefold cosine userId query k kind exclude = some hits) :
    (reading casefold).NamedFirst query hits ↔
      service.KeepsTitlesFirst casefold cosine userId query k kind exclude shortlist := by
  obtain ⟨⟨-, hK⟩, queryEmbedding, hEmbed, hMade⟩ := shortlist_cases hShortlist
  obtain ⟨ranked, hRanked, rfl⟩ := search_cases hShortlist hHits
  have hSome : 0 < shortlist.length := by
    obtain ⟨hit, hHit, -⟩ := hNamed
    exact List.length_pos_of_mem hHit
  rw [KeepsTitlesFirst]
  cases hScores : service.scores query shortlist with
  | none =>
      -- The shortlist is sorted as it is, and the caps keep its first hit.
      have hSorted : shortlist.Pairwise fun hit other => hitLe hit other = true :=
        hMade ▸ InstructionStore.shortlist_sorted
      have hKept : ranked.Pairwise (fun hit other => hitLe hit other = true) ∧
          ((reading casefold).NamedFirst query ranked ↔
            (reading casefold).NamedFirst query shortlist) := by
        rcases applyReranker_of_none casefold hScores
          (if kind.isNone then shortlist.length else k) with hWhole | hPart
        · obtain rfl := Option.some.inj (hWhole.symm.trans hRanked)
          exact ⟨hSorted, Iff.rfl⟩
        · obtain rfl := Option.some.inj (hPart.symm.trans hRanked)
          refine ⟨hSorted.sublist (List.take_sublist _ _), namedFirst_take ?_⟩
          split
          · exact hSome
          · exact hK
      have hCaps : (reading casefold).NamedFirst query
          (if kind.isNone then capTypes ranked k else ranked) ↔
            (reading casefold).NamedFirst query ranked := by
        split
        · exact namedFirst_capTypes hK hKept.1
        · exact Iff.rfl
      rw [hCaps, hKept.2, hMade]
      rw [hMade] at hNamed
      refine (InstructionStore.namedFirst_shortlist hBounded hOnce hNamed).trans ?_
      refine or_congr Iff.rfl ⟨fun hNot queryEmbedding' hEmbed' => ?_, fun hAll => hAll _ hEmbed⟩
      obtain rfl := Option.some.inj (hEmbed.symm.trans hEmbed')
      exact hNot
  | some scores =>
      rw [applyReranker_of_some hScores] at hRanked
      cases kind with
      | some kind =>
          -- A search of one type is not capped.
          obtain ⟨first, before, after, rfl, -, hFront⟩ := Reading.rerank_named hK hRanked hNamed
          refine iff_of_true ?_ (.inl (Option.some_ne_none kind))
          exact (namedFirst_take hK).mpr ⟨first, before ++ after, rfl, hFront.named⟩
      | none =>
          have hRerank : (reading casefold).rerank shortlist scores shortlist.length query =
              some ranked := hRanked
          obtain ⟨first, before, after, hCut, hSplit, hFront⟩ :=
            Reading.rerank_named hSome hRerank hNamed
          -- A mixed search has all hits ranked again before they are capped.
          have hLength : (first :: (before ++ after)).length ≤ shortlist.length := by
            have hAll := congrArg List.length hSplit
            have hZip : (shortlist.zipWith (fun hit score =>
                (⟨hit.record, score⟩ : Hit InstructionRow K)) scores).length =
                  min shortlist.length scores.length := List.length_zipWith
            rw [Reading.rescored, List.length_mergeSort, hZip] at hAll
            simp only [List.length_append, List.length_cons] at hAll ⊢
            omega
          rw [List.take_of_length_le hLength] at hCut
          subst hCut
          have hFronted :=
            Reading.capTypes_fronted (fun row : InstructionRow => row.slot.kind) hK hFront
          refine hFronted.trans ?_
          dsimp only
          rw [or_iff_right (fun hNot => hNot rfl)]
          refine ⟨fun hKeeps reranked hReranked => ?_, fun hAll => hAll _ hRerank⟩
          obtain rfl := Option.some.inj (hRerank.symm.trans hReranked)
          exact hKeeps

end LocalInstructionService

/-- The cosine of two vectors of one dimension. -/
def lineCosine : Embedding → Embedding → Rat
  | [x], [y] => if 0 < x * y then 1 else if x * y < 0 then -1 else 0
  | _, _ => 0

theorem lineCosine_bounded (first second : Embedding) :
    -1 ≤ lineCosine first second ∧ lineCosine first second ≤ 1 := by
  unfold lineCosine
  split
  · split
    · decide
    · split <;> decide
  · decide

/-- A store that finds both records. -/
def glossary : InstructionStore where
  table := { rows := [alpha, beta] }
  searchByVector := some fun _ _ _ _ => [alpha, beta]
  searchByText := none

/-- The service with a reranker that likes one record, or with none. -/
def glossaryService (liked : Option String) : LocalInstructionService Rat where
  store := glossary
  embed _ := some [1]
  reranker := liked.map fun title pairs =>
    some (pairs.map fun pair => if pair.2 = embeddedText title "" then 1 else 0)

theorem rank_glossary (k : Nat) : rank id lineCosine [alpha, beta] "beta" [1] (k + 2) =
    [⟨alpha, 1⟩, ⟨beta, 1⟩] := by
  have hScored : (reading id).scored [alpha, beta] "beta"
      (fun row => lineCosine [1] row.embedding) = [⟨alpha, 1⟩, ⟨beta, 1⟩] := by
    decide +kernel
  rw [rank, Reading.rank_eq, Reading.best, hScored, Sequence.mergeSort_pair, if_pos (by decide +kernel)]
  exact List.take_of_length_le (Nat.le_add_left 2 k)

theorem search_liked :
    (glossaryService (some "alpha")).search id lineCosine none "beta" 3 none [.endpoint] =
      some [⟨alpha, 1⟩, ⟨beta, 0⟩] := by
  have hShortlist :
      (glossaryService (some "alpha")).shortlist id lineCosine none "beta" 3 none [.endpoint] =
        some [⟨alpha, 1⟩, ⟨beta, 1⟩] := congrArg some (rank_glossary 18)
  have hRescored : (reading id).rescored [⟨alpha, 1⟩, ⟨beta, 1⟩] [1, 0] =
      ([⟨alpha, 1⟩, ⟨beta, 0⟩] : List (Hit InstructionRow Rat)) := by
    rw [Reading.rescored]
    exact (Sequence.mergeSort_pair _ _ _).trans (if_pos (by decide +kernel))
  have hReranked : (reading id).rerank [⟨alpha, 1⟩, ⟨beta, 1⟩] [1, 0] 2 "beta" =
      some ([⟨beta, 0⟩, ⟨alpha, 1⟩] : List (Hit InstructionRow Rat)) := by
    rw [Reading.rerank, hRescored]
    decide +kernel
  have hCapped : capTypes ([⟨beta, 0⟩, ⟨alpha, 1⟩] : List (Hit InstructionRow Rat)) 3 =
      [⟨alpha, 1⟩, ⟨beta, 0⟩] :=
    (Sequence.mergeSort_pair _ _ _).trans (if_neg (by decide +kernel))
  rw [LocalInstructionService.search, if_neg (by decide +kernel), hShortlist]
  change ((reading id).rerank [⟨alpha, 1⟩, ⟨beta, 1⟩] [1, 0] 2 "beta").bind _ = _
  rw [hReranked]
  exact congrArg some hCapped

theorem glossary_findsOnce : glossary.FindsOnce where
  byVector search hSearch queryEmbedding fetch userId kinds := by
    obtain rfl := Option.some.inj hSearch
    exact (by decide : ([alpha, beta].map (·.id)).Nodup)
  byText search hSearch := by cases hSearch

theorem exact_titles_first_glossary :
    (reading id).NamedFirst "beta" ([⟨alpha, 1⟩, ⟨beta, 0⟩] : List (Hit InstructionRow Rat)) ↔
      (glossaryService (some "alpha")).KeepsTitlesFirst id lineCosine none "beta" 3 none
        [.endpoint] [⟨alpha, 1⟩, ⟨beta, 1⟩] :=
  LocalInstructionService.exact_titles_first lineCosine_bounded glossary_findsOnce
    (congrArg some (rank_glossary 18)) (by decide +kernel) search_liked

/-- The title asked for is in the shortlist and not first, once because the caps sort by the scores
of the reranker, and once because it is opposite to the query. -/
theorem title_not_first :
    (∃ shortlist hits,
      (glossaryService (some "alpha")).shortlist id lineCosine none "beta" 3 none [.endpoint] =
        some shortlist ∧ (reading id).Named "beta" shortlist ∧
      (glossaryService (some "alpha")).search id lineCosine none "beta" 3 none [.endpoint] =
        some hits ∧ ¬(reading id).NamedFirst "beta" hits) ∧
    ∃ shortlist hits,
      (glossaryService none).shortlist id lineCosine none "beta" 2 (some .knowledge) [.endpoint] =
        some shortlist ∧ (reading id).Named "beta" shortlist ∧
      (glossaryService none).search id lineCosine none "beta" 2 (some .knowledge) [.endpoint] =
        some hits ∧ ¬(reading id).NamedFirst "beta" hits := by
  constructor
  · exact ⟨_, _, congrArg some (rank_glossary 18), by decide +kernel, search_liked,
      by decide +kernel⟩
  · have hShortlist : (glossaryService none).shortlist id lineCosine none "beta" 2
        (some .knowledge) [.endpoint] = some [⟨alpha, 1⟩, ⟨beta, 1⟩] :=
      congrArg some (rank_glossary 0)
    refine ⟨_, [⟨alpha, 1⟩, ⟨beta, 1⟩], hShortlist, by decide +kernel, ?_, by decide +kernel⟩
    rw [LocalInstructionService.search, if_neg (by decide +kernel), hShortlist]
    rfl

end Instructions
end OctoForge
