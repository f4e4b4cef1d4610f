import OctoForge.External.Passports

/-!
# The spill of oversized bodies

A body over the inline threshold goes where its shape belongs: records to the database tier, a
single document or unstructured text to the home of documents.  Whatever is raised on the way,
the caller falls back to the body itself.
-/

namespace OctoForge
namespace External

open Collections

/-- One request's outcome, `_PageResult`. -/
structure Page where
  status : Nat
  scrubbed : Text
  contentType : Text
  wireTruncated : Bool
  hadSecrets : Bool

/-- A `DocumentHome`. -/
inductive Home where
  /-- `DatabaseDocumentHome`. -/
  | database (tier : Tier)
  /-- `ResponseMemory`, with the `uuid4` it draws. -/
  | memory (freshId : Text)

/-- `ResponseSpill`. -/
structure Spill where
  store : Option Tier
  documents : Option Home
  inlineMaxChars : Nat
  collectMaxPages : Int
  /-- What `response_get` may take. -/
  getMaxChars : Nat

/-- `REF_PREFIX` of the documents. -/
def responseRefStart : Text := "resp:".toList

/-- What a call is known by. -/
structure SpillContext where
  ownerId : Text
  source : Text

def isObject? : Option Json → Bool
  | some value => isObject value
  | none => false

/-- The record of a document as `DatabaseDocumentHome` keeps it. -/
def parkedPayload (body : Text) : Option Json → Payload
  | some (.object members) => members
  | _ => [("text", .string (String.ofList body))]

/-- The one-record collection of a document. -/
def parkedCollection (context : SpillContext) (body : Text) (document : Option Json) :
    NewCollection where
  ownerId := context.ownerId
  label := []
  kind := if isObject? document then .docJson else .docText
  source := context.source
  schema := inferRecords [parkedPayload body document]
  envelope := []
  records := [parkedPayload body document]
  tag := context.source
  byteSize := body.length
  truncated := false

/-- `note` of `DatabaseDocumentHome.park`. -/
def expiryNote (tier : Tier) : Text :=
  "expires in ".toList ++ Text.ofInt (max 1 (tier.ttlSeconds / 60)) ++ " min".toList

def memoryNote : Text := "lives until this task ends".toList

/-- `park`: the passport of the document. -/
def Home.park (wording : Wording) (getMaxChars : Nat) (context : SpillContext) (body : Text)
    (document : Option Json) (tables : Tables) : Home → Except StoreError Text × Tables
  | .database tier =>
      match tier.create tables (parkedCollection context body document) with
      | (.error refused, after) => (.error refused, after)
      | (.ok passport, after) =>
          (.ok (renderDocumentPassport wording getMaxChars (expiryNote tier)
            { ref := responseRefStart ++ passport.id, parked := isObject? document,
              source := context.source, body := body,
              document := if isObject? document then document else none }), after)
  | .memory freshId =>
      (.ok (renderDocumentPassport wording getMaxChars memoryNote
        { ref := responseRefStart ++ freshId, parked := document.isSome,
          source := context.source, body := body, document := document }), tables)

/-- The executor, less what it makes requests with. -/
structure Executor where
  parsers : Parsers
  wording : Wording
  spill : Option Spill
  truncateChars : Nat

namespace Executor

variable (e : Executor)

/-- `parse_structured` of a page, by the contract of the record. -/
def parsed (spec : ToolSpec) (page : Page) : Except Text (Option ParsedBody) :=
  parseStructured e.parsers page.scrubbed page.contentType spec.itemsPath

/-- `_shaped`. -/
def shaped (spec : ToolSpec) (found : ParsedBody) : ParsedBody :=
  { found with records := shapeRecords e.parsers found.records spec.fields }

/-- `_park`: `none` when there is no home. -/
def park (spill : Spill) (context : SpillContext) (page : Page) (document : Option Json)
    (tables : Tables) : Except StoreError (Option Text) × Tables :=
  match spill.documents with
  | none => (.ok none, tables)
  | some home =>
      match home.park e.wording spill.getMaxChars context page.scrubbed document tables with
      | (.error refused, after) => (.error refused, after)
      | (.ok passport, after) => (.ok (some passport), after)

/-- The collection that `_route` creates. -/
def spilledCollection (spec : ToolSpec) (context : SpillContext) (page : Page)
    (found : ParsedBody) : NewCollection where
  ownerId := context.ownerId
  label := []
  kind := found.kind
  source := context.source
  schema := inferRecords (e.shaped spec found).records
  envelope := found.envelope
  records := (e.shaped spec found).records
  tag := []
  byteSize := page.scrubbed.length
  truncated := page.wireTruncated || found.recordTruncated

/-- The end of `_route`: the records go to the database tier. -/
def storeRecords (marks : Marks) (spill : Spill) (spec : ToolSpec) (context : SpillContext)
    (page : Page) (found : ParsedBody) (tables : Tables) :
    Except StoreError (Option Text) × Tables :=
  match spill.store with
  | none => e.park spill context page found.document tables
  | some tier =>
      match tier.create tables (e.spilledCollection spec context page found) with
      | (.error refused, after) => (.error refused, after)
      | (.ok passport, after) => (.ok (some (renderPassport marks e.wording passport)), after)

/-- `_route`, of a body that has been parsed. -/
def route (marks : Marks) (spill : Spill) (spec : ToolSpec) (context : SpillContext)
    (page : Page) (tables : Tables) : Option ParsedBody → Except StoreError (Option Text) × Tables
  | none => e.park spill context page none tables
  | some found =>
      if found.records.isEmpty then (.ok none, tables)
      else if found.singleDocument then
        match e.park spill context page found.document tables with
        | (.ok none, after) => e.storeRecords marks spill spec context page found after
        | parked => parked
      else e.storeRecords marks spill spec context page found tables

/-- `spill`: a passport, or `none` for the body itself. -/
def spillPage (marks : Marks) (spill : Spill) (spec : ToolSpec) (context : SpillContext)
    (page : Page) (tables : Tables) : Option Text × Tables :=
  if page.scrubbed.length ≤ spill.inlineMaxChars then (none, tables)
  else
    match e.parsed spec page with
    | .error _ => (none, tables)
    | .ok found =>
        match e.route marks spill spec context page tables found with
        | (.error _, after) => (none, after)
        | (.ok passport, after) => (passport, after)

/-- `_truncate`. -/
def truncate (marks : Marks) (body : Text) : Text :=
  if body.length ≤ e.truncateChars then body else body.take e.truncateChars ++ marks.suffix

/-- The body itself, cut to size. -/
def truncated (marks : Marks) (page : Page) : Text :=
  let result := e.truncate marks page.scrubbed
  if page.wireTruncated && !marks.suffix.isSuffixOf result then result ++ marks.suffix else result

/-- `_spill_or_truncate`; `user` is the caller, when there is one. -/
def spillOrTruncate (marks : Marks) (spec : ToolSpec) (name : Text) (user : Option Text)
    (page : Page) (tables : Tables) : Text × Tables :=
  match e.spill, user with
  | some spill, some ownerId =>
      match e.spillPage marks spill spec ⟨ownerId, "endpoint:".toList ++ name⟩ page tables with
      | (some passport, after) => (passport, after)
      | (none, after) => (e.truncated marks page, after)
  | _, _ => (e.truncated marks page, tables)

end Executor

end External
end OctoForge
