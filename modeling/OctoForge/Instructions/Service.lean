import OctoForge.Coop.Machine
import OctoForge.Instructions.Store

/-!
# Saves, publications and deletions

Each call of the service is a few statements with awaits in between, and a save waits for
the embedding of its text after it has looked at the public record.  A statement of the
store is one step.
-/

namespace OctoForge
namespace Instructions

open Coop

inductive Request where
  | save (userId : UserId) (kind : InstructionType) (title content : String) (tags : List String)
  | savePublic (kind : InstructionType) (title content : String) (tags : List String)
  | saveSystem (kind : InstructionType) (title content : String) (tags : List String)
  | publish (id : InstructionId)
  | delete (userId : UserId) (id : InstructionId)
  | deletePublic (id : InstructionId)
  | deleteSystem (title : String) (kind : InstructionType)
  deriving DecidableEq, Repr

/-- The `await` a call is at. -/
inductive Call where
  | called (request : Request)
  /-- `_embed`, or `_embed_lenient`. -/
  | embedding (draft : InstructionDraft) (lenient : Bool)
  /-- `_find_row` in `upsert`. -/
  | finding (draft : InstructionDraft)
  | updating (draft : InstructionDraft) (loaded : InstructionRow)
  | inserting (draft : InstructionDraft)
  /-- `_find_row`, after the insert has failed. -/
  | refinding (draft : InstructionDraft)
  | publishing (loaded : InstructionRow)
  /-- `delete_by_title` in `delete_public`. -/
  | deleting (slot : Slot)
  | returned
  | raised
  deriving DecidableEq, Repr

structure InstructionService where
  table : Table := {}
  embeddingModel : String := "unknown"
  calls : List Call := []
  /-- The ids that `uuid4` has drawn; it never draws one of them again. -/
  drawn : List InstructionId := table.rows.map (·.id)

def publicSlot (kind : InstructionType) (title : String) : Slot where
  kind := kind
  title := title
  ownerId := none

namespace Table

variable (table : Table)

/-- `save`, up to the embedding: the author of a published record edits it in place. -/
def beginSave (userId : UserId) (kind : InstructionType) (title content : String)
    (tags : List String) : Call :=
  let published := table.findRow (publicSlot kind title)
  if published.any (·.system) then .raised
  else
    let authorEdit := published.any fun row => row.authorId = some userId
    .embedding
      { slot := { kind, title, ownerId := if authorEdit then none else some userId }
        content, tags, authorId := some userId } true

/-- `save_public`, up to the embedding. -/
def beginSavePublic (kind : InstructionType) (title content : String) (tags : List String) : Call :=
  let draft : InstructionDraft := { slot := publicSlot kind title, content, tags }
  match table.findRow (publicSlot kind title) with
  | some existing =>
      if existing.system then .raised
      else if existing.content = content ∧ existing.tags = tags then .returned
      else .embedding draft true
  | none => .embedding draft true

/-- `save_system`, up to the embedding. -/
def beginSaveSystem (kind : InstructionType) (title content : String) (tags : List String) : Call :=
  let existing := table.findRow (publicSlot kind title)
  if existing.any fun row => row.system && row.content = content && row.tags = tags then .returned
  else .embedding { slot := publicSlot kind title, content, tags, system := true } false

/-- `publish`, up to the UPDATE: memories are never published. -/
def beginPublish (id : InstructionId) : Call :=
  match table.byId id with
  | some row => if row.slot.kind = .memory then .raised else .publishing row
  | none => .raised

/-- `delete_public`, up to the DELETE. -/
def beginDeletePublic (id : InstructionId) : Call :=
  match table.byId id with
  | some record =>
      if record.slot.ownerId ≠ none then .raised
      else if record.system then .raised
      else .deleting record.slot
  | none => .raised

/-- A DELETE and whether it has hit a row. -/
def deleteWhere (goes : InstructionRow → Bool) : Call × Table :=
  (if table.rows.any goes then .returned else .raised, table.delete goes)

end Table

/-- A draft with what the embedding backend has answered.  A registry record is stamped with
the model in any case. -/
def InstructionDraft.embed (draft : InstructionDraft) (vector : Embedding) (model : String) :
    InstructionDraft :=
  { draft with
    embedding := vector
    embeddingModel := if vector = [] ∧ draft.system = false then none else some model }

namespace InstructionService

variable (s : InstructionService)

/-- The next step of a call: what it does to the table and where it goes.  `uuid` is the id it
would draw, `vector` what the embedding backend would answer. -/
def next (uuid : InstructionId) (vector : Option Embedding) : Call → Option (Call × Table)
  | .called (.save userId kind title content tags) =>
      some (s.table.beginSave userId kind title content tags, s.table)
  | .called (.savePublic kind title content tags) =>
      some (s.table.beginSavePublic kind title content tags, s.table)
  | .called (.saveSystem kind title content tags) =>
      some (s.table.beginSaveSystem kind title content tags, s.table)
  | .called (.publish id) => some (s.table.beginPublish id, s.table)
  | .called (.delete userId id) =>
      some (s.table.deleteWhere fun row => row.id = id && row.slot.ownerId = some userId)
  | .called (.deletePublic id) => some (s.table.beginDeletePublic id, s.table)
  | .called (.deleteSystem title kind) =>
      some (s.table.deleteWhere fun row => row.slot = publicSlot kind title)
  | .embedding draft lenient =>
      match vector with
      | some vector => some (.finding (draft.embed vector s.embeddingModel), s.table)
      | none =>
          if lenient then some (.finding (draft.embed [] s.embeddingModel), s.table)
          else some (.raised, s.table)
  | .finding draft =>
      match s.table.findRow draft.slot with
      | some row => some (.updating draft row, s.table)
      | none => some (.inserting draft, s.table)
  | .updating draft loaded =>
      match s.table.byId loaded.id with
      | some _ => some (.returned, s.table.update loaded.id (Edit.ofDraft loaded draft))
      -- `StaleDataError`
      | none => some (.raised, s.table)
  | .inserting draft =>
      match s.table.insert (draft.toRow uuid) with
      | some table => some (.returned, table)
      | none => some (.refinding draft, s.table)
  | .refinding draft =>
      match s.table.findRow draft.slot with
      | some winner => some (.updating draft winner, s.table)
      | none => some (.raised, s.table)
  | .publishing loaded =>
      match s.table.byId loaded.id with
      | some _ =>
          match s.table.publish loaded with
          | some table => some (.returned, table)
          | none => some (.raised, s.table)
      | none => some (.raised, s.table)
  | .deleting slot => some (s.table.deleteWhere fun row => row.slot = slot)
  | .returned => none
  | .raised => none

inductive Move where
  | call (request : Request)
  | resume (k : Nat) (uuid : InstructionId) (vector : Option Embedding)
  deriving DecidableEq, Repr

def machine : Machine InstructionService Move where
  step s
    | .call request => some { s with calls := s.calls ++ [.called request] }
    | .resume k uuid vector =>
        if uuid ∈ s.drawn then none
        else s.calls[k]?.bind fun call => (s.next uuid vector call).map fun (call', table) =>
          { s with table, calls := s.calls.set k call', drawn := s.drawn ++ [uuid] }

end InstructionService

/-! ## What is asked of a save -/

/-- The draft of a call that has one. -/
def Call.draft : Call → Option InstructionDraft
  | .embedding draft _ | .finding draft | .updating draft _ | .inserting draft
  | .refinding draft => some draft
  | _ => none

/-- The user whose save a call is, and the type and title he saves under.  Only a save has a
draft with an author. -/
def Call.saver : Call → Option (UserId × InstructionType × String)
  | .called (.save userId kind title _ _) => some (userId, kind, title)
  | call => call.draft.bind fun draft =>
      draft.authorId.map fun userId => (userId, draft.slot.kind, draft.slot.title)

/-- The user who edits the record he has published in that slot. -/
def Call.editor (call : Call) (slot : Slot) : Option UserId :=
  call.draft.bind fun draft => if draft.slot = slot then draft.authorId else none

/-- A save has loaded the row and is going to write it. -/
def Call.hasLoaded (call : Call) (id : InstructionId) : Bool :=
  match call with
  | .updating draft loaded => draft.authorId ≠ none && loaded.id = id
  | _ => false

/-- A record is adopted as a system record only where no save is on its way to it, and where a
save is on its way to the published record of its author, nobody else's takes its place. -/
def InstructionService.undisturbed (s : InstructionService) : InstructionService.Move → Bool
  | .call _ => true
  | .resume k _ _ =>
      match s.calls[k]? with
      | some (.updating draft loaded) =>
          !draft.system || loaded.system || s.calls.all fun other =>
            other.editor loaded.slot = none && !other.hasLoaded loaded.id
      | some (.inserting draft) =>
          draft.slot.ownerId ≠ none || s.calls.all fun other =>
            other.editor draft.slot = none || other.editor draft.slot = draft.authorId
      | some (.publishing loaded) =>
          loaded.slot.ownerId = none || s.calls.all fun other =>
            let slot := publicSlot loaded.slot.kind loaded.slot.title
            other.editor slot = none || other.editor slot = publishedAuthor loaded
      | _ => true

/-- A private record of the user, or a public record that the registry does not own and that
he is the author of. -/
def InstructionRow.BelongsTo (row : InstructionRow) (userId : UserId) : Prop :=
  row.slot.ownerId = some userId ∨
    row.slot.ownerId = none ∧ row.system = false ∧ row.authorId = some userId

/-- One record of that type and title has been changed or added, and it was the user's to
change. -/
inductive Rightful (userId : UserId) (kind : InstructionType) (title : String) :
    List InstructionRow → List InstructionRow → Prop
  | changed {above below : List InstructionRow} {row row' : InstructionRow}
      (hKind : row.slot.kind = kind) (hTitle : row.slot.title = title)
      (hOwn : row.BelongsTo userId) (hSame : row'.id = row.id ∧ row'.slot = row.slot) :
      Rightful userId kind title (above ++ row :: below) (above ++ row' :: below)
  | added {before : List InstructionRow} {row : InstructionRow}
      (hKind : row.slot.kind = kind) (hTitle : row.slot.title = title)
      (hOwn : row.BelongsTo userId) : Rightful userId kind title before (before ++ [row])

end Instructions
end OctoForge
