import OctoForge.Instructions.Store
import OctoForge.Search.Hybrid

/-!
# The shortlist of an instruction search

A store may search by vector and may search by words.  What it cannot do is done here: the
rows are listed by id and ranked in the process.
-/

namespace OctoForge
namespace Instructions

open Search

variable {K : Type} [Field K] [LinearOrder K]

/-- The store behind the service: two of its searches are optional. -/
structure InstructionStore where
  table : Table
  searchByVector :
    Option (Embedding → Nat → Option UserId → List InstructionType → List InstructionRow)
  searchByText : Option (String → Nat → Option UserId → List InstructionType → List InstructionRow)

def reading (casefold : String → String) : Reading InstructionRow where
  key := (·.id)
  title := (·.slot.title)
  casefold := casefold

/-- `rank` of `instructions/ranking.py`. -/
def rank (casefold : String → String) (cosine : Embedding → Embedding → K)
    (candidates : List InstructionRow) (query : String) (queryEmbedding : Embedding) (k : Nat) :
    List (Hit InstructionRow K) :=
  (reading casefold).rank candidates query (fun row => cosine queryEmbedding row.embedding) k

/-- `fuse` of `instructions/ranking.py`. -/
def fuse (casefold : String → String) (rankings : List (List InstructionRow)) (query : String)
    (k : Nat) : List (Hit InstructionRow K) :=
  (reading casefold).fuse rankings query k

/-- Public records and the user's own; nobody is asking for the whole table. -/
def visibleTo (userId : Option UserId) (row : InstructionRow) : Bool :=
  userId.all fun user => row.slot.ownerId = none || row.slot.ownerId = some user

def Table.listWithEmbeddings (table : Table) (userId : Option UserId) : List InstructionRow :=
  (table.rows.mergeSort fun row other => row.id ≤ other.id).filter (visibleTo userId)

namespace InstructionStore

variable (store : InstructionStore)

/-- The records of the wanted kinds that the user can see, as the store lists them. -/
def visible (userId : Option UserId) (kinds : List InstructionType) : List InstructionRow :=
  (store.table.listWithEmbeddings userId).filter fun row =>
    kinds.isEmpty || kinds.contains row.slot.kind

def vectorCandidates (queryEmbedding : Embedding) (fetch : Nat) (userId : Option UserId)
    (kinds : List InstructionType) : List InstructionRow :=
  match store.searchByVector with
  | some search => search queryEmbedding fetch userId kinds
  | none => store.visible userId kinds

def lexicalCandidates (query : String) (fetch : Nat) (userId : Option UserId)
    (kinds : List InstructionType) : Option (List InstructionRow) :=
  store.searchByText.map fun search => search query fetch userId kinds

/-- `_shortlist`. -/
def shortlist (casefold : String → String) (cosine : Embedding → Embedding → K) (query : String)
    (queryEmbedding : Embedding) (fetch : Nat) (userId : Option UserId)
    (kinds : List InstructionType) : List (Hit InstructionRow K) :=
  let vectorHits := store.vectorCandidates queryEmbedding fetch userId kinds
  match store.lexicalCandidates query fetch userId kinds with
  | none => rank casefold cosine vectorHits query queryEmbedding fetch
  | some lexicalHits => fuse casefold [vectorHits, lexicalHits] query fetch

def retrieved (query : String) (queryEmbedding : Embedding) (fetch : Nat) (userId : Option UserId)
    (kinds : List InstructionType) : Retrieved InstructionRow where
  rows := store.visible userId kinds
  vectorHits := store.searchByVector.map fun search => search queryEmbedding fetch userId kinds
  lexicalHits := store.lexicalCandidates query fetch userId kinds

/-- A store that searches by vector returns visible records by decreasing cosine. -/
def SearchesNearest (cosine : Embedding → Embedding → K) : Prop :=
  ∀ search, store.searchByVector = some search → ∀ queryEmbedding fetch userId kinds,
    Nearest (store.visible userId kinds) (fun row => cosine queryEmbedding row.embedding)
      (search queryEmbedding fetch userId kinds)

variable {store} {cosine : Embedding → Embedding → K} {casefold : String → String} {query : String}
  {queryEmbedding : Embedding} {fetch : Nat} {userId : Option UserId}
  {kinds : List InstructionType}

theorem shortlist_eq : store.shortlist casefold cosine query queryEmbedding fetch userId kinds =
    (store.retrieved query queryEmbedding fetch userId kinds).shortlist (reading casefold) query
      (fun row => cosine queryEmbedding row.embedding) fetch := by
  have hCandidates : (store.retrieved query queryEmbedding fetch userId kinds).candidates =
      store.vectorCandidates queryEmbedding fetch userId kinds := by
    rw [Retrieved.candidates, retrieved, vectorCandidates]
    cases store.searchByVector <;> rfl
  rw [shortlist, Retrieved.shortlist, hCandidates]
  simp only [retrieved]
  cases store.lexicalCandidates query fetch userId kinds <;> rfl

theorem ids_visible (store : InstructionStore) (userId : Option UserId)
    (kinds : List InstructionType) : ((store.visible userId kinds).map (·.id)).Nodup := by
  have hSorted : ((store.table.rows.mergeSort fun row other => row.id ≤ other.id).map
      (·.id)).Nodup :=
    ((List.mergeSort_perm _ _).map _).nodup_iff.mpr store.table.primaryKey
  exact ((List.filter_sublist.trans List.filter_sublist).map _).nodup hSorted

theorem sound (hNearest : store.SearchesNearest cosine) :
    (store.retrieved query queryEmbedding fetch userId kinds).Sound (reading casefold)
      fun row => cosine queryEmbedding row.embedding where
  primaryKey := store.ids_visible userId kinds
  nearest hits hHits := by
    obtain ⟨search, hSearch, rfl⟩ := Option.map_eq_some_iff.mp hHits
    exact hNearest search hSearch queryEmbedding fetch userId kinds

/-- The order of the shortlist is that of the cosine where words say nothing, if the store
searches by vector too or by neither, or its ids happen to be in that order. -/
theorem shortlist_agrees_iff [IsStrictOrderedRing K] (hNearest : store.SearchesNearest cosine)
    (hBounded : ∀ first second, -1 ≤ cosine first second ∧ cosine first second ≤ 1) :
    AgreesWithSimilarity (reading casefold)
        (store.retrieved query queryEmbedding fetch userId kinds) query
        (fun row => cosine queryEmbedding row.embedding)
        ((store.shortlist casefold cosine query queryEmbedding fetch userId kinds).map
          (·.record)) ↔
      store.searchByText = none ∨ store.searchByVector ≠ none ∨
        RowsInOrder (reading casefold) (store.visible userId kinds)
          ((store.lexicalCandidates query fetch userId kinds).getD []) query
          (fun row => cosine queryEmbedding row.embedding) fetch := by
  rw [shortlist_eq, agrees_iff (sound hNearest) fun row => hBounded queryEmbedding row.embedding]
  simp [retrieved, lexicalCandidates]

end InstructionStore
end Instructions
end OctoForge
