import Mathlib.Data.List.Nodup
import OctoForge.Sequence.Keyed

/-!
# Instruction records

A record without an owner is public.  Two constraints of the database are fields of the
table: the id is a primary key, and (type, title, owner) is unique, for the public records
through a partial index.

`upsert` loads a row and lets the mapper write it back, and what is written back is what
differs from the row as it was loaded.
-/

namespace OctoForge
namespace Instructions

abbrev UserId := String
abbrev InstructionId := String
abbrev Embedding := List Rat

inductive InstructionType where
  | knowledge
  | skill
  | endpoint
  | memory
  deriving DecidableEq, Repr

/-- What identifies a record to a save. -/
structure Slot where
  kind : InstructionType
  title : String
  ownerId : Option UserId
  deriving DecidableEq, Repr

/-- `InstructionRow`. -/
structure InstructionRow where
  id : InstructionId
  slot : Slot
  content : String
  tags : List String := []
  embedding : Embedding := []
  embeddingModel : Option String := none
  version : Nat := 1
  system : Bool := false
  authorId : Option UserId := none
  deriving DecidableEq, Repr

structure InstructionDraft where
  slot : Slot
  content : String
  tags : List String := []
  embedding : Embedding := []
  embeddingModel : Option String := none
  system : Bool := false
  authorId : Option UserId := none
  deriving DecidableEq, Repr

structure Table where
  rows : List InstructionRow := []
  primaryKey : (rows.map (·.id)).Nodup := by decide
  oneRecord : (rows.map (·.slot)).Nodup := by decide

/-! ## What an UPDATE sets -/

/-- The SET clause that comes out of editing a loaded row. -/
structure Edit where
  content : Option String := none
  tags : Option (List String) := none
  embedding : Option Embedding := none
  embeddingModel : Option (Option String) := none
  version : Option Nat := none
  system : Option Bool := none
  authorId : Option (Option UserId) := none
  deriving DecidableEq, Repr

/-- An attribute is written where its value has changed. -/
def changed {α : Type} [DecidableEq α] (loaded new : α) : Option α :=
  if new = loaded then none else some new

/-- `_update_row`.  Authorship is set, never cleared. -/
def Edit.ofDraft (loaded : InstructionRow) (draft : InstructionDraft) : Edit where
  content := changed loaded.content draft.content
  tags := changed loaded.tags draft.tags
  embedding := changed loaded.embedding draft.embedding
  embeddingModel := changed loaded.embeddingModel draft.embeddingModel
  version := some (loaded.version + 1)
  system := changed loaded.system draft.system
  authorId := if draft.authorId = none then none else changed loaded.authorId draft.authorId

def Edit.apply (edit : Edit) (row : InstructionRow) : InstructionRow :=
  { row with
    content := edit.content.getD row.content
    tags := edit.tags.getD row.tags
    embedding := edit.embedding.getD row.embedding
    embeddingModel := edit.embeddingModel.getD row.embeddingModel
    version := edit.version.getD row.version
    system := edit.system.getD row.system
    authorId := edit.authorId.getD row.authorId }

/-- `_insert_row`, with the id it has drawn. -/
def InstructionDraft.toRow (draft : InstructionDraft) (id : InstructionId) : InstructionRow where
  id := id
  slot := draft.slot
  content := draft.content
  tags := draft.tags
  embedding := draft.embedding
  embeddingModel := draft.embeddingModel
  system := draft.system
  authorId := draft.authorId

/-- The edit of `publish`: the departing owner of a record without an author is its author. -/
def publishedAuthor (loaded : InstructionRow) : Option UserId :=
  loaded.authorId.or loaded.slot.ownerId

namespace Table

variable (table : Table)

def byId (id : InstructionId) : Option InstructionRow := table.rows.find? fun row => row.id = id

/-- `_find_row`, and `get_by_title` where the type is given. -/
def findRow (slot : Slot) : Option InstructionRow := table.rows.find? fun row => row.slot = slot

variable {table} {row other : InstructionRow}

theorem byId_eq_some {id : InstructionId} :
    table.byId id = some row ↔ row ∈ table.rows ∧ row.id = id :=
  Sequence.find?_key_eq_some table.primaryKey

theorem findRow_eq_some {slot : Slot} :
    table.findRow slot = some row ↔ row ∈ table.rows ∧ row.slot = slot :=
  Sequence.find?_key_eq_some table.oneRecord

theorem eq_of_id (hRow : row ∈ table.rows) (hOther : other ∈ table.rows)
    (hId : row.id = other.id) : row = other :=
  List.inj_on_of_nodup_map table.primaryKey hRow hOther hId

theorem eq_of_slot (hRow : row ∈ table.rows) (hOther : other ∈ table.rows)
    (hSlot : row.slot = other.slot) : row = other :=
  List.inj_on_of_nodup_map table.oneRecord hRow hOther hSlot

variable (table)

/-- INSERT: `none` where a constraint is violated. -/
def insert (row : InstructionRow) : Option Table :=
  if hKey : row.id ∈ table.rows.map (·.id) then none
  else if hSlot : row.slot ∈ table.rows.map (·.slot) then none
  else
    some {
      rows := table.rows ++ [row]
      primaryKey := by
        rw [List.map_append, List.map_singleton, ← List.concat_eq_append]
        exact List.Nodup.concat hKey table.primaryKey
      oneRecord := by
        rw [List.map_append, List.map_singleton, ← List.concat_eq_append]
        exact List.Nodup.concat hSlot table.oneRecord }

/-- UPDATE of the row with an id, which keeps its slot. -/
def update (id : InstructionId) (edit : Edit) : Table where
  rows := table.rows.map fun row => if row.id = id then edit.apply row else row
  primaryKey := by
    have hSame : (table.rows.map fun row => if row.id = id then edit.apply row else row).map
        (·.id) = table.rows.map (·.id) := by
      rw [List.map_map]
      refine List.map_congr_left fun row _ => ?_
      simp only [Function.comp_apply]
      split <;> rfl
    rw [hSame]
    exact table.primaryKey
  oneRecord := by
    have hSame : (table.rows.map fun row => if row.id = id then edit.apply row else row).map
        (·.slot) = table.rows.map (·.slot) := by
      rw [List.map_map]
      refine List.map_congr_left fun row _ => ?_
      simp only [Function.comp_apply]
      split <;> rfl
    rw [hSame]
    exact table.oneRecord

/-- A row as `publish` leaves it. -/
def published (loaded row : InstructionRow) : InstructionRow :=
  { row with
    slot := { row.slot with
      ownerId := if loaded.slot.ownerId = none then row.slot.ownerId else none }
    authorId := ((changed loaded.authorId (publishedAuthor loaded)).getD row.authorId) }

/-- The UPDATE of `publish`: `none` where the public record is there already. -/
def publish (loaded : InstructionRow) : Option Table :=
  let rows := table.rows.map fun row => if row.id = loaded.id then published loaded row else row
  if hSlots : (rows.map (·.slot)).Nodup then
    some {
      rows
      primaryKey := by
        have hSame : rows.map (·.id) = table.rows.map (·.id) := by
          rw [List.map_map]
          refine List.map_congr_left fun row _ => ?_
          simp only [Function.comp_apply]
          split <;> rfl
        rw [hSame]
        exact table.primaryKey
      oneRecord := hSlots }
  else none

/-- DELETE. -/
def delete (goes : InstructionRow → Bool) : Table where
  rows := table.rows.filter fun row => !goes row
  primaryKey := table.primaryKey.sublist (List.filter_sublist.map _)
  oneRecord := table.oneRecord.sublist (List.filter_sublist.map _)

end Table
end Instructions
end OctoForge
