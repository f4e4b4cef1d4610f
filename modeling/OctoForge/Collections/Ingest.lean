import OctoForge.Collections.Schema
import OctoForge.External.Contract

/-!
# Taking a response apart

`parse_structured` finds the records of a body: the elements of an array, the array of objects
nearest the root of a document, or the document itself.  What it drops past `MAX_RECORDS` it
reports.
-/

namespace OctoForge
namespace Collections

open External

/-- What parsing takes from the standard library. -/
structure Parsers where
  /-- `json.loads`: `none` for a `ValueError`, and the text of any other exception. -/
  loads : Text → Except Text (Option Json)
  /-- The rows of `csv.reader` under the dialect that `csv.Sniffer` finds. -/
  csvRows : Text → Except Text (List (List Text))
  /-- `str.lower`. -/
  lower : Text → Text
  /-- `float`, as an integer where it is one; `none` for a `ValueError`. -/
  float : Text → Option Json

/-- `CollectionKind`. -/
inductive CollectionKind where
  | json
  | csv
  | docJson
  | docText
  deriving DecidableEq, Repr

def CollectionKind.value : CollectionKind → Text
  | .json => "json".toList
  | .csv => "csv".toList
  | .docJson => "doc_json".toList
  | .docText => "doc_text".toList

/-- `ParsedBody`. -/
structure ParsedBody where
  kind : CollectionKind
  records : List Payload
  envelope : Payload
  document : Option Json := none
  singleDocument : Bool := false
  recordTruncated : Bool := false

def maxRecords : Nat := 100000

def maxUnwrapDepth : Nat := 5

def maxUnwrapNodes : Nat := 2000

/-- `dotted_get`; `None` and a path that misses are both `none`. -/
def dottedGet (value : Json) (path : Text) : Option Json :=
  match value.at? ((path.splitOn '.').map String.ofList) with
  | some .null => none
  | found => found

/-! ## Records -/

/-- One element of `_as_records`. -/
def asRecord : Json → Payload
  | .object members => members
  | item => [("value", item)]

/-- `_as_records`. -/
def asRecords (items : List Json) : List Payload := (items.take maxRecords).map asRecord

def isObject : Json → Bool
  | .object _ => true
  | _ => false

def isArray : Json → Bool
  | .array _ => true
  | _ => false

/-- `_scalars_of`, of an object. -/
def scalarsOf (members : Payload) : Payload :=
  members.filter fun member => !isObject member.2 && !isArray member.2

/-- `_envelope_of`; the records are an array, and no array is kept. -/
def envelopeOf (parent : Payload) : Payload := parent.filter fun member => !isArray member.2

/-- `{**base, **other}`. -/
def updated (base other : Payload) : Payload :=
  base.map (fun member => (member.1, (Json.lookup other member.1).getD member.2)) ++
    other.filter fun member => !(base.any fun kept => kept.1 == member.1)

/-- `_is_object_array`, with the elements when it is one. -/
def objectArray? : Json → Option (List Json)
  | .array items => if !items.isEmpty && items.all isObject then some items else none
  | _ => none

def objectOf? : Json → Option Payload
  | .object members => some members
  | _ => none

/-- The frontier of one level, walked: the nodes visited so far, the arrays of objects found
with their parents, and the objects of the next level. -/
def scanLevel (visited : Nat) (candidates : List (List Json × Payload)) (deeper : List Payload) :
    List Payload → Nat × List (List Json × Payload) × List Payload
  | [] => (visited, candidates, deeper)
  | node :: rest =>
      if maxUnwrapNodes < visited + 1 then (visited + 1, candidates, deeper)
      else
        scanLevel (visited + 1)
          (candidates ++ node.filterMap fun member =>
            (objectArray? member.2).map fun items => (items, node))
          (deeper ++ node.filterMap fun member => objectOf? member.2) rest

/-- The first of the longest candidates. -/
def longest (first : List Json × Payload) (others : List (List Json × Payload)) :
    List Json × Payload :=
  others.foldl (fun best other => if best.1.length < other.1.length then other else best) first

/-- The levels of `_locate_records`. -/
def locateBelow : (levels visited : Nat) → (frontier : List Payload) →
    Option (List Json × Payload)
  | 0, _, _ => none
  | levels + 1, visited, frontier =>
      match scanLevel visited [] [] frontier with
      | (_, first :: others, _) => some (longest first others)
      | (visited, [], deeper) =>
          if maxUnwrapNodes < visited || deeper.isEmpty then none
          else locateBelow levels visited deeper

/-- `_locate_records`: the records, and what is around them. -/
def locateRecords (root : Payload) : Option (List Json × Payload) :=
  (locateBelow maxUnwrapDepth 0 [root]).map fun found =>
    (found.1, updated (scalarsOf root) (envelopeOf found.2))

/-- The elements of an array as the body of a response. -/
def arrayBody (value : Json) (items : List Json) (envelope : Payload) : ParsedBody where
  kind := .json
  records := asRecords items
  envelope := envelope
  document := some value
  recordTruncated := decide (maxRecords < items.length)

/-- `_unwrap`, and the body that `_take_apart` makes of it. -/
def unwrap (value : Json) : Option ParsedBody :=
  match value with
  | .array items => some (arrayBody value items [])
  | .object root =>
      match locateRecords root with
      | some (items, envelope) => some (arrayBody value items envelope)
      | none =>
          some
            { kind := .json, records := [root], envelope := [], document := some value,
              singleDocument := true }
  | _ => none

/-- `_take_apart`. -/
def takeApart (value : Json) (itemsPath : Option Text) : Option ParsedBody :=
  match itemsPath with
  | none => unwrap value
  | some path =>
      match dottedGet value path with
      | some (.array items) =>
          some (arrayBody value items (scalarsOf ((objectOf? value).getD [])))
      | _ => none

/-- The header cell of a column. -/
def columnName (i : Nat) (name : Text) : String :=
  let name := name.strip
  if name.isEmpty then String.ofList ("column_".toList ++ Text.ofInt i) else String.ofList name

/-- A row under its header; the last of two columns of one name counts. -/
def csvRecord (header : List String) (row : List Text) : Payload :=
  (header.zip row).foldl
    (fun record cell => updated record [(cell.1, .string (String.ofList cell.2))]) []

/-- `_parse_csv`, of the rows that have been read. -/
def parseCsv (rows : List (List Text)) : Option ParsedBody :=
  match rows with
  | [] | [_] => none
  | head :: rows =>
      some
        { kind := .csv, envelope := [],
          records := (rows.take maxRecords).map (csvRecord (head.mapIdx columnName)),
          recordTruncated := decide (maxRecords < rows.length) }

def jsonContentMarkers : List Text :=
  ["application/json".toList, "text/json".toList, "+json".toList]

def csvContentMarkers : List Text := ["text/csv".toList, "application/csv".toList]

/-- Whether the body is read as JSON. -/
def looksJson (declared body : Text) : Bool :=
  jsonContentMarkers.any (Text.has declared) ||
    body.lstrip.head? == some '{' || body.lstrip.head? == some '['

/-- `parse_structured`: the body taken apart, `none` for one that is not structured, and the
text of an exception that is let through. -/
def parseStructured (parsers : Parsers) (body contentType : Text) (itemsPath : Option Text) :
    Except Text (Option ParsedBody) :=
  let declared := parsers.lower contentType
  if csvContentMarkers.any (Text.has declared) then
    (parsers.csvRows body).map parseCsv
  else if looksJson declared body then
    (parsers.loads body).map fun value => value.bind fun value => takeApart value itemsPath
  else .ok none

/-! ## Shaping -/

/-- `_coerce`. -/
def coerce (parsers : Parsers) (value : Json) (kind : FieldCoercion) : Json :=
  match kind, value with
  | .number, .string text => (parsers.float (Text.strip text.toList)).getD value
  | .string, .null => value
  | .string, .string _ => value
  | .string, .bool true => .string "True"
  | .string, .bool false => .string "False"
  | .string, value => .string (String.ofList value.dumps)
  | .boolean, .string text =>
      let lowered := parsers.lower (Text.strip text.toList)
      if lowered ∈ ["true".toList, "1".toList, "yes".toList] then .bool true
      else if lowered ∈ ["false".toList, "0".toList, "no".toList] then .bool false
      else value
  | _, value => value

/-- `shape_records`. -/
def shapeRecords (parsers : Parsers) (records : List Payload)
    (fields : List (String × FieldCoercion)) : List Payload :=
  if fields.isEmpty then records
  else
    records.map fun payload =>
      fields.filterMap fun field =>
        (Json.lookup payload field.1).map fun value => (field.1, coerce parsers value field.2)

end Collections
end OctoForge
