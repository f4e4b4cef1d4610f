import OctoForge.Instructions.Search
import OctoForge.Outbox.Flush

/-!
# The search among datasets

The same as the shortlist of the instructions, over the datasets of one owner.  These are
listed in whatever order the database has them.
-/

namespace OctoForge
namespace Datasets

open Search
open Outbox (blank)
open Instructions (UserId Embedding)

variable {K : Type} [Field K] [LinearOrder K]

/-- A descriptor with its embedding. -/
structure DatasetRow where
  id : String
  ownerUserId : UserId
  name : String
  description : String := ""
  usageNotes : String := ""
  retention : String := ""
  version : Nat := 1
  embedding : Embedding := []
  deriving DecidableEq, Repr

/-- The store behind the service: two of its searches are optional. -/
structure DatasetStore where
  rows : List DatasetRow
  primaryKey : (rows.map (·.id)).Nodup := by decide
  searchByVector : Option (UserId → Embedding → Nat → List DatasetRow)
  searchByText : Option (UserId → String → Nat → List DatasetRow)

def reading (casefold : String → String) : Reading DatasetRow where
  key := (·.id)
  title := (·.name)
  casefold := casefold

/-- `rank` of `datasets/ranking.py`. -/
def rank (casefold : String → String) (cosine : Embedding → Embedding → K)
    (candidates : List DatasetRow) (query : String) (queryEmbedding : Embedding) (k : Nat) :
    List (Hit DatasetRow K) :=
  (reading casefold).rank candidates query (fun row => cosine queryEmbedding row.embedding) k

/-- `fuse` of `datasets/ranking.py`. -/
def fuse (casefold : String → String) (rankings : List (List DatasetRow)) (query : String)
    (k : Nat) : List (Hit DatasetRow K) :=
  (reading casefold).fuse rankings query k

namespace DatasetStore

variable (store : DatasetStore)

def listWithEmbeddings (ownerUserId : UserId) : List DatasetRow :=
  store.rows.filter fun row => row.ownerUserId = ownerUserId

/-- `_candidates`. -/
def candidates (ownerUserId : UserId) (queryEmbedding : Embedding) (k : Nat) : List DatasetRow :=
  match store.searchByVector with
  | some search => search ownerUserId queryEmbedding k
  | none => store.listWithEmbeddings ownerUserId

def lexicalCandidates (ownerUserId : UserId) (query : String) (k : Nat) :
    Option (List DatasetRow) :=
  store.searchByText.map fun search => search ownerUserId query k

/-- `search`. -/
def search (casefold : String → String) (cosine : Embedding → Embedding → K)
    (ownerUserId : UserId) (query : String) (queryEmbedding : Embedding) (k : Nat) :
    List (Hit DatasetRow K) :=
  if blank query then []
  else
    let candidates := store.candidates ownerUserId queryEmbedding k
    match store.lexicalCandidates ownerUserId query k with
    | none => rank casefold cosine candidates query queryEmbedding k
    | some lexical => fuse casefold [candidates, lexical] query k

def retrieved (ownerUserId : UserId) (query : String) (queryEmbedding : Embedding) (k : Nat) :
    Retrieved DatasetRow where
  rows := store.listWithEmbeddings ownerUserId
  vectorHits := store.searchByVector.map fun search => search ownerUserId queryEmbedding k
  lexicalHits := store.lexicalCandidates ownerUserId query k

/-- A store that searches by vector returns the owner's datasets by decreasing cosine. -/
def SearchesNearest (cosine : Embedding → Embedding → K) : Prop :=
  ∀ search, store.searchByVector = some search → ∀ ownerUserId queryEmbedding k,
    Nearest (store.listWithEmbeddings ownerUserId) (fun row => cosine queryEmbedding row.embedding)
      (search ownerUserId queryEmbedding k)

variable {store} {cosine : Embedding → Embedding → K} {casefold : String → String} {query : String}
  {queryEmbedding : Embedding} {k : Nat} {ownerUserId : UserId}

theorem search_eq (hQuery : blank query = false) :
    store.search casefold cosine ownerUserId query queryEmbedding k =
      (store.retrieved ownerUserId query queryEmbedding k).shortlist (reading casefold) query
        (fun row => cosine queryEmbedding row.embedding) k := by
  have hCandidates : (store.retrieved ownerUserId query queryEmbedding k).candidates =
      store.candidates ownerUserId queryEmbedding k := by
    rw [Retrieved.candidates, retrieved, candidates]
    cases store.searchByVector <;> rfl
  rw [search, hQuery, Retrieved.shortlist, hCandidates]
  simp only [retrieved, Bool.false_eq_true, if_false]
  cases store.lexicalCandidates ownerUserId query k <;> rfl

theorem sound (hNearest : store.SearchesNearest cosine) :
    (store.retrieved ownerUserId query queryEmbedding k).Sound (reading casefold)
      fun row => cosine queryEmbedding row.embedding where
  primaryKey := (List.filter_sublist.map _).nodup store.primaryKey
  nearest hits hHits := by
    obtain ⟨search, hSearch, rfl⟩ := Option.map_eq_some_iff.mp hHits
    exact hNearest search hSearch ownerUserId queryEmbedding k

theorem search_agrees_iff [IsStrictOrderedRing K] (hNearest : store.SearchesNearest cosine)
    (hBounded : ∀ first second, -1 ≤ cosine first second ∧ cosine first second ≤ 1) :
    AgreesWithSimilarity (reading casefold)
        (store.retrieved ownerUserId query queryEmbedding k) query
        (fun row => cosine queryEmbedding row.embedding)
        ((store.search casefold cosine ownerUserId query queryEmbedding k).map (·.record)) ↔
      blank query = true ∨ store.searchByText = none ∨ store.searchByVector ≠ none ∨
        RowsInOrder (reading casefold) (store.listWithEmbeddings ownerUserId)
          ((store.lexicalCandidates ownerUserId query k).getD []) query
          (fun row => cosine queryEmbedding row.embedding) k := by
  cases hQuery : blank query with
  | true =>
      refine iff_of_true ?_ (.inl rfl)
      have hNothing : store.search casefold cosine ownerUserId query queryEmbedding k = [] := by
        simp [search, hQuery]
      rw [hNothing]
      exact ⟨fun a _ b _ _ _ _ _ _ => Sequence.before_of_notMem (by simp), fun _ a hA => by cases hA⟩
  | false =>
      rw [search_eq hQuery,
        agrees_iff (sound hNearest) fun row => hBounded queryEmbedding row.embedding]
      simp [retrieved, lexicalCandidates]

end DatasetStore

/-! ## Both searches -/

open Instructions (InstructionStore InstructionType)

/-- Both searches follow the cosine where words say nothing exactly if they are handed
rankings. -/
theorem searches_follow_cosine [IsStrictOrderedRing K] (casefold : String → String)
    (cosine : Embedding → Embedding → K)
    (hBounded : ∀ first second, -1 ≤ cosine first second ∧ cosine first second ≤ 1) :
    (∀ (store : InstructionStore) query queryEmbedding fetch userId kinds,
      store.SearchesNearest cosine →
      (AgreesWithSimilarity (Instructions.reading casefold)
          (store.retrieved query queryEmbedding fetch userId kinds) query
          (fun row => cosine queryEmbedding row.embedding)
          ((store.shortlist casefold cosine query queryEmbedding fetch userId kinds).map
            (·.record)) ↔
        store.searchByText = none ∨ store.searchByVector ≠ none ∨
          RowsInOrder (Instructions.reading casefold) (store.visible userId kinds)
            ((store.lexicalCandidates query fetch userId kinds).getD []) query
            (fun row => cosine queryEmbedding row.embedding) fetch)) ∧
    ∀ (store : DatasetStore) query queryEmbedding k ownerUserId,
      store.SearchesNearest cosine →
      (AgreesWithSimilarity (reading casefold)
          (store.retrieved ownerUserId query queryEmbedding k) query
          (fun row => cosine queryEmbedding row.embedding)
          ((store.search casefold cosine ownerUserId query queryEmbedding k).map (·.record)) ↔
        blank query = true ∨ store.searchByText = none ∨ store.searchByVector ≠ none ∨
          RowsInOrder (reading casefold) (store.listWithEmbeddings ownerUserId)
            ((store.lexicalCandidates ownerUserId query k).getD []) query
            (fun row => cosine queryEmbedding row.embedding) k) :=
  ⟨fun _ _ _ _ _ _ hNearest => InstructionStore.shortlist_agrees_iff hNearest hBounded,
    fun _ _ _ _ _ hNearest => DatasetStore.search_agrees_iff hNearest hBounded⟩

/-- The cosine of two unit vectors. -/
def unitCosine (first second : Embedding) : Rat :=
  max (-1) (min 1 (List.zipWith (· * ·) first second).sum)

theorem unitCosine_bounded (first second : Embedding) :
    -1 ≤ unitCosine first second ∧ unitCosine first second ≤ 1 :=
  ⟨le_max_left _ _, max_le (by decide) (min_le_left _ _)⟩

def aside : Instructions.InstructionRow where
  id := "1"
  slot := { kind := .knowledge, title := "weather", ownerId := none }
  content := "rain"
  embedding := [3 / 5, 4 / 5]

def meant : Instructions.InstructionRow where
  id := "2"
  slot := { kind := .knowledge, title := "invoices", ownerId := none }
  content := "due dates"
  embedding := [1, 0]

def library : Instructions.Table where
  rows := [aside, meant]

/-- A store that searches by vector, and by words that no record has. -/
def vectorStore : InstructionStore where
  table := library
  searchByVector := some fun queryEmbedding fetch userId kinds =>
    nearest ((library.listWithEmbeddings userId).filter fun row =>
      kinds.isEmpty || kinds.contains row.slot.kind)
      (fun row => unitCosine queryEmbedding row.embedding) fetch
  searchByText := some fun _ _ _ _ => []

theorem vectorStore_searchesNearest : vectorStore.SearchesNearest unitCosine := by
  rintro search hSearch queryEmbedding fetch userId kinds
  obtain rfl := Option.some.inj hSearch
  exact nearest_nearest (List.Nodup.of_map _ (vectorStore.ids_visible userId kinds)) _ fetch

def bills : DatasetStore where
  rows := [{ id := "d1", ownerUserId := "u1", name := "bills", embedding := [1, 0] }]
  searchByVector := none
  searchByText := none

theorem searches_follow_cosine_of_vectorStore :
    AgreesWithSimilarity (Instructions.reading id)
      (vectorStore.retrieved "payments" [1, 0] 5 none []) "payments"
      (fun row => unitCosine [1, 0] row.embedding)
      ((vectorStore.shortlist id unitCosine "payments" [1, 0] 5 none []).map (·.record)) ∧
    AgreesWithSimilarity (reading id) (bills.retrieved "u1" "payments" [1, 0] 5) "payments"
      (fun row => unitCosine [1, 0] row.embedding)
      ((bills.search id unitCosine "u1" "payments" [1, 0] 5).map (·.record)) := by
  have hBoth := searches_follow_cosine id unitCosine unitCosine_bounded
  refine ⟨(hBoth.1 vectorStore _ _ _ _ _ vectorStore_searchesNearest).mpr ?_,
    (hBoth.2 bills _ _ _ _ ?_).mpr (.inr (.inl rfl))⟩
  · exact .inr (.inl (by simp [vectorStore]))
  · rintro search hSearch
    cases hSearch

/-- The same table behind a store that searches by words only. -/
def wordStore : InstructionStore where
  table := library
  searchByVector := none
  searchByText := some fun _ _ _ _ => []

theorem visible_wordStore : wordStore.visible none [] = [aside, meant] := by
  have hSorted : (library.rows.mergeSort fun row other => row.id ≤ other.id) = library.rows :=
    List.mergeSort_of_pairwise (by decide +kernel)
  rw [InstructionStore.visible, Instructions.Table.listWithEmbeddings]
  change List.filter _
    (List.filter _ (library.rows.mergeSort fun row other => row.id ≤ other.id)) = _
  rw [hSorted]
  decide +kernel

/-- No record has the words of the query, and they are shown in the order of their ids. -/
theorem order_of_ids :
    ¬ AgreesWithSimilarity (Instructions.reading id)
      (wordStore.retrieved "payments" [1, 0] 5 none []) "payments"
      (fun row => unitCosine [1, 0] row.embedding)
      ((wordStore.shortlist id unitCosine "payments" [1, 0] 5 none []).map (·.record)) := by
  have hRows : (wordStore.retrieved "payments" [1, 0] 5 none []).rows = [aside, meant] :=
    visible_wordStore
  have hFused : ((Instructions.reading id).fused [[aside, meant], []] "payments").mergeSort
      (Instructions.reading id).hitLe =
      ((Instructions.reading id).fused [[aside, meant], []] "payments" :
        List (Hit Instructions.InstructionRow Rat)) :=
    List.mergeSort_of_pairwise (by decide +kernel)
  have hShown : (wordStore.shortlist id unitCosine "payments" [1, 0] 5 none []).map (·.record) =
      [aside, meant] := by
    change ((Instructions.reading id).fuse [wordStore.visible none [], []] "payments" 5 :
      List (Hit Instructions.InstructionRow Rat)).map (·.record) = _
    rw [visible_wordStore, Reading.fuse_eq, Reading.best, hFused]
    decide +kernel
  rintro ⟨hUnmatched, -⟩
  rw [hShown, hRows] at hUnmatched
  have hBefore := hUnmatched meant (by simp) aside (by simp)
    (fun _ hMem => by cases hMem) (fun _ hMem => by cases hMem) (by decide +kernel)
    (by decide +kernel) (by decide +kernel) [] [meant] rfl
  cases hBefore

end Datasets
end OctoForge
