import OctoForge.Collections.Schema
import OctoForge.Coop.Machine
import OctoForge.Sequence.Places

/-!
# Sinks over one collection

A sink carries the schema of its collection across the batches it adds: it reads the stored
one once, merges each batch into its own copy, and the store puts that in place of what is
stored.  The lock of the store covers an append and nothing before it.

An append that is refused, because of the quota of the owner or because the collection is
gone, changes nothing.
-/

namespace OctoForge
namespace Collections

open Coop

/-- The stored records, and what is said of them. -/
structure Collection where
  records : List Payload
  schema : Node
  pagesLoaded : Nat := 1

/-- Where a sink is in `add`. -/
inductive Stage where
  | idle
  /-- `add` is called; the first time, `passport` is awaited. -/
  | adding (batch : List Payload)
  /-- `_merge` is done, and `append` is awaited. -/
  | merged (batch : List Payload) (schema : Node)

/-- `CollectionSink`. -/
structure Sink where
  /-- `_schema`. -/
  schema : Option Node := none
  stage : Stage := .idle

structure Pouring where
  collection : Collection
  sinks : List Sink

inductive Move where
  /-- A new sink, for another endpoint or another call. -/
  | into
  | add (k : Nat) (batch : List Payload)
  | passport (k : Nat)
  | merge (k : Nat)
  | append (k : Nat)
  /-- `add` raises before anything is stored. -/
  | refuse (k : Nat)

/-- `append`: the schema is replaced. -/
def Collection.append (collection : Collection) (batch : List Payload) (schema : Node) :
    Collection where
  records := collection.records ++ batch
  schema := schema
  pagesLoaded := collection.pagesLoaded + 1

/-- A collection as `create` stores it, and the sink that has created it. -/
def Pouring.create (batch : List Payload) : Pouring where
  collection := { records := batch, schema := inferRecords batch }
  sinks := [{ schema := some (inferRecords batch) }]

namespace Pouring

variable (s : Pouring)

def put (k : Nat) (sink : Sink) : Pouring := { s with sinks := s.sinks.set k sink }

def add (k : Nat) (batch : List Payload) (sink : Sink) : Option Pouring :=
  match sink.stage with
  | .idle => some (s.put k { sink with stage := .adding batch })
  | _ => none

def passport (k : Nat) (sink : Sink) : Option Pouring :=
  match sink.stage, sink.schema with
  | .adding _, none => some (s.put k { sink with schema := some s.collection.schema })
  | _, _ => none

def merge (k : Nat) (sink : Sink) : Option Pouring :=
  match sink.stage, sink.schema with
  | .adding batch, some schema =>
      some (s.put k
        { sink with stage := .merged batch (mergeNodes (some schema) (inferRecords batch)) })
  | _, _ => none

def append (k : Nat) (sink : Sink) : Option Pouring :=
  match sink.stage with
  | .merged batch schema =>
      some { s.put k { schema := some schema } with
        collection := s.collection.append batch schema }
  | _ => none

def refuse (k : Nat) (sink : Sink) : Option Pouring :=
  match sink.stage with
  | .idle => none
  | _ => some (s.put k { sink with stage := .idle })

def machine : Machine Pouring Move where
  step s
    | .into => some { s with sinks := s.sinks ++ [{}] }
    | .add k batch => s.sinks[k]?.bind fun sink => s.add k batch sink
    | .passport k => s.sinks[k]?.bind fun sink => s.passport k sink
    | .merge k => s.sinks[k]?.bind fun sink => s.merge k sink
    | .append k => s.sinks[k]?.bind fun sink => s.append k sink
    | .refuse k => s.sinks[k]?.bind fun sink => s.refuse k sink

open Classical in
/-- The schema a sink remembers is the stored one, when its append is committed. -/
noncomputable def mergesStored : Move → Bool
  | .append k =>
      (s.sinks[k]?).all fun sink => sink.schema.all fun schema => decide (schema = s.collection.schema)
  | _ => true

end Pouring

/-! ## What a stored schema has to say -/

/-- A record a query may be run over: every cast is safe, and every field is known. -/
structure SoundFor (schema : Node) (record : Payload) : Prop where
  /-- A field that the schema calls a number is a number, null or absent. -/
  numbers : ∀ path found, fieldNode schema path = some found → found.kind = .number →
    ∀ inner, (Json.object record).at? path = some inner →
      kindOf inner = .null ∨ kindOf inner = .number
  /-- A field of the record is in the schema, or below a node that has become a string. -/
  resolves : ∀ path inner, (Json.object record).at? path = some inner →
    (∃ found, fieldNode schema path = some found) ∨
      ∃ above below found, path = above ++ below ∧ below ≠ [] ∧
        fieldNode schema above = some found ∧ found.kind = .string

theorem soundFor_of_covers {schema : Node} {record : Payload}
    (hCovers : Covers schema (.object record)) : SoundFor schema record where
  numbers _ _ hField hNumber _ hInner := hCovers.number hField hNumber hInner
  resolves _ _ hInner := hCovers.resolves hInner

variable {s s' : Pouring} {k : Nat} {sink : Sink}

/-- The stored schema covers the records, and what a sink is about to store is its own copy
with the batch merged in. -/
structure Inv (s : Pouring) : Prop where
  covered : ∀ record ∈ s.collection.records, Covers s.collection.schema (.object record)
  fits : ∀ sink ∈ s.sinks, ∀ batch schema, sink.stage = .merged batch schema →
    ∃ own, sink.schema = some own ∧ schema = own.merge (inferRecords batch)

theorem inv_create (batch : List Payload) : Inv (.create batch) where
  covered _ hMem := covers_inferRecords hMem
  fits sink hSink batch schema hStage := by
    obtain rfl := List.mem_singleton.mp hSink
    cases hStage

/-- A sink is replaced. -/
theorem Inv.put (hInv : Inv s) (hFits : ∀ batch schema, sink.stage = .merged batch schema →
      ∃ own, sink.schema = some own ∧ schema = own.merge (inferRecords batch)) :
    Inv (s.put k sink) where
  covered := hInv.covered
  fits := Sequence.forall_mem_set hInv.fits hFits

theorem Inv.append (hInv : Inv s) (hSink : s.sinks[k]? = some sink)
    (hCond : s.mergesStored (.append k) = true) (hStep : s.append k sink = some s') : Inv s' := by
  cases hStage : sink.stage with
  | merged batch schema =>
      simp only [Pouring.append, hStage, Option.some.injEq] at hStep
      subst hStep
      obtain ⟨own, hOwn, rfl⟩ := hInv.fits sink (List.mem_of_getElem? hSink) batch schema hStage
      have hStored : own = s.collection.schema := by
        simpa [Pouring.mergesStored, hSink, hOwn] using hCond
      have hPut : Inv (s.put k { schema := some (own.merge (inferRecords batch)) }) :=
        hInv.put fun _ _ hIdle => by cases hIdle
      refine ⟨fun record hRecord => ?_, hPut.fits⟩
      rcases List.mem_append.mp hRecord with hOld | hNew
      · exact (hStored ▸ hInv.covered record hOld).merge_left _
      · exact (covers_inferRecords hNew).merge_right _
  | _ => simp [Pouring.append, hStage] at hStep

theorem keeps_step (m : Move) (hInv : Inv s) (hCond : s.mergesStored m = true)
    (hStep : Pouring.machine.step s m = some s') : Inv s' := by
  cases m with
  | into =>
      obtain rfl := Option.some.inj hStep
      refine ⟨hInv.covered, fun sink hSink batch schema hStage => ?_⟩
      rcases List.mem_append.mp hSink with hOld | hNew
      · exact hInv.fits sink hOld batch schema hStage
      · obtain rfl := List.mem_singleton.mp hNew
        cases hStage
  | add k batch =>
      obtain ⟨sink, hSink, hStep⟩ := Option.bind_eq_some_iff.mp hStep
      cases hStage : sink.stage with
      | idle =>
          simp only [Pouring.add, hStage, Option.some.injEq] at hStep
          subst hStep
          exact hInv.put fun _ _ hAdding => by cases hAdding
      | _ => simp [Pouring.add, hStage] at hStep
  | passport k =>
      obtain ⟨sink, hSink, hStep⟩ := Option.bind_eq_some_iff.mp hStep
      rw [Pouring.passport] at hStep
      split at hStep
      · rename_i batch hStage hNone
        obtain rfl := Option.some.inj hStep
        exact hInv.put fun _ _ hMerged => by cases hStage.symm.trans hMerged
      · cases hStep
  | merge k =>
      obtain ⟨sink, hSink, hStep⟩ := Option.bind_eq_some_iff.mp hStep
      rw [Pouring.merge] at hStep
      split at hStep
      · rename_i batch own hStage hOwn
        obtain rfl := Option.some.inj hStep
        -- The batch is merged with the schema that the sink remembers, be it stored still or not.
        refine hInv.put fun batch' schema hMerged => ?_
        obtain ⟨rfl, rfl⟩ := Stage.merged.inj hMerged
        exact ⟨own, hOwn, rfl⟩
      · cases hStep
  | append k =>
      obtain ⟨sink, hSink, hStep⟩ := Option.bind_eq_some_iff.mp hStep
      exact hInv.append hSink hCond hStep
  | refuse k =>
      obtain ⟨sink, hSink, hStep⟩ := Option.bind_eq_some_iff.mp hStep
      rw [Pouring.refuse] at hStep
      split at hStep
      · cases hStep
      · obtain rfl := Option.some.inj hStep
        exact hInv.put fun _ _ hIdle => by cases hIdle

/-- If every append merges into the schema that is stored, the stored schema is sound for
every stored record, after any run of any sinks. -/
theorem schema_sound {batch : List Payload} {moves : List Move}
    (hRun : Pouring.machine.run moves (.create batch) = some s)
    (hStored : Pouring.machine.always Pouring.mergesStored moves (.create batch) = true) :
    ∀ record ∈ s.collection.records, SoundFor s.collection.schema record := by
  have hInv : Inv s :=
    Machine.run_keeps_of_always (fun _ m _ hInv hCond hStep => keeps_step m hInv hCond hStep)
      (inv_create batch) hStored hRun
  exact fun record hRecord => soundFor_of_covers (hInv.covered record hRecord)

/-! ## Two sinks -/

def priced : Payload := [("price", .number 5)]

def onRequest : Payload := [("price", .string "on request")]

/-- The creator adds a page, and then a sink of another call pours its records in. -/
def oneByOne : List Move :=
  [.add 0 [priced], .merge 0, .append 0, .into, .add 1 [onRequest], .passport 1, .merge 1,
    .append 1]

theorem mergesStored_append (hSink : s.sinks[k]? = some sink)
    (hOwn : sink.schema = some s.collection.schema) : s.mergesStored (.append k) = true := by
  simp [Pouring.mergesStored, hSink, hOwn]

theorem schema_sound_of_oneByOne :
    ∃ s, Pouring.machine.run oneByOne (.create [priced]) = some s ∧
      s.collection.records = [priced, priced, onRequest] ∧
      ∀ record ∈ s.collection.records, SoundFor s.collection.schema record := by
  have hRun : ∃ s, Pouring.machine.run oneByOne (.create [priced]) = some s ∧
      s.collection.records = [priced, priced, onRequest] := ⟨_, rfl, rfl⟩
  obtain ⟨s, hRun, hRecords⟩ := hRun
  refine ⟨s, hRun, hRecords, schema_sound hRun ?_⟩
  refine Machine.always_of_step rfl rfl (Machine.always_of_step rfl rfl ?_)
  refine Machine.always_of_step rfl (mergesStored_append rfl rfl) ?_
  refine Machine.always_of_step rfl rfl (Machine.always_of_step rfl rfl ?_)
  refine Machine.always_of_step rfl rfl (Machine.always_of_step rfl rfl ?_)
  exact Machine.always_of_step rfl (mergesStored_append rfl rfl) rfl

/-- Both sinks pour into the collection of another, and read its schema before either has
appended. -/
def sideBySide : List Move :=
  [.into, .into, .add 1 [onRequest], .passport 1, .add 2 [priced], .passport 2, .merge 1,
    .append 1, .merge 2, .append 2]

/-- The second append puts a number where the first has stored a text. -/
theorem text_under_number :
    ∃ s, Pouring.machine.run sideBySide (.create [priced]) = some s ∧
      ∃ record ∈ s.collection.records, ¬ SoundFor s.collection.schema record := by
  have hRun : ∃ s, Pouring.machine.run sideBySide (.create [priced]) = some s ∧
      s.collection.records = [priced, onRequest, priced] ∧
      (fieldNode s.collection.schema ["price"]).map Node.kind = some .number := ⟨_, rfl, rfl, rfl⟩
  obtain ⟨s, hRun, hRecords, hKind⟩ := hRun
  refine ⟨s, hRun, onRequest, hRecords ▸ by simp, fun hSound => ?_⟩
  obtain ⟨found, hField, hNumber⟩ := Option.map_eq_some_iff.mp hKind
  rcases hSound.numbers ["price"] found hField hNumber (.string "on request") rfl with
    hNull | hNumber
  · cases hNull
  · cases hNumber

end Collections
end OctoForge
