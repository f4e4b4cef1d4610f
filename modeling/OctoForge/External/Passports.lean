import OctoForge.Collections.Rows

/-!
# Passports

What the model is shown instead of a body: the passport of a collection, and that of a document
that has been parked.

The marks of a cut are arguments here, so that a text with them can be compared with the text
that the same response gives without any.
-/

namespace OctoForge
namespace External

open Collections

/-- The two texts that say that something was cut. -/
structure Marks where
  /-- `TRUNCATED_SUFFIX`. -/
  suffix : Text
  /-- `TRUNCATED_NOTE`. -/
  note : Text

/-- The marks of the source. -/
def Marks.source : Marks where
  suffix := "\n...[truncated]".toList
  note := " · SOURCE CUT at the wire limit: counts reflect what arrived".toList

def Marks.none : Marks := ⟨[], []⟩

/-- The parts of a passport that are computed with floats, or walk a schema in the order of
its names. -/
structure Wording where
  /-- `_human_size`. -/
  size : Nat → Text
  /-- `_human_tokens` of `estimate_tokens`. -/
  tokens : Text → Text
  /-- `schema_infer.render`. -/
  schema : Node → Text
  /-- The minutes that are left until a time. -/
  minutes : Nat → Nat

def maxEnvelopeChars : Nat := 1000

/-- The envelope line of a passport. -/
def envelopeLine (envelope : Payload) : Text :=
  if envelope.isEmpty then []
  else
    let rendered := (Json.object envelope).dumps
    let shown :=
      if maxEnvelopeChars < rendered.length then rendered.take maxEnvelopeChars ++ ['…']
      else rendered
    "envelope: ".toList ++ shown ++ ['\n']

/-- `passport.source or "-"`. -/
def orDash (source : Text) : Text := if source.isEmpty then ['-'] else source

/-- The passport up to the place of the mark. -/
def passportHead (wording : Wording) (passport : Passport) : Text :=
  "[collection ".toList ++ passport.ref ++ "] kind=".toList ++ passport.kind.value ++
    " · source=".toList ++ orDash passport.source ++ " · ".toList ++
    Text.ofInt passport.recordCount ++ " records · ".toList ++ wording.size passport.byteSize ++
    " · expires in ".toList ++ Text.ofInt (wording.minutes passport.expiresAt) ++ " min".toList

def passportTail (wording : Wording) (passport : Passport) : Text :=
  "\nrecord schema: ".toList ++ wording.schema passport.schema ++ ['\n'] ++
    envelopeLine passport.envelope ++
    "The body is NOT in this message — query the data with collection_query: ".toList ++
    "ops get/pluck/count/sum/avg/min/max/distinct, filters, group_by; ".toList ++
    "collection_get re-reads this passport.".toList

/-- `render_passport`. -/
def renderPassport (marks : Marks) (wording : Wording) (passport : Passport) : Text :=
  passportHead wording passport ++ (if passport.truncated then marks.note else []) ++
    passportTail wording passport

/-! ## Documents -/

def largeTextChars : Nat := 200

def maxListedTexts : Nat := 10

def previewChars : Nat := 400

/-- `_brief_type`. -/
def briefType : Json → Text
  | .string value =>
      if largeTextChars < value.length then
        "string(".toList ++ Text.ofInt value.length ++ " chars)".toList
      else "string".toList
  | .bool _ => "boolean".toList
  | .number _ | .float _ => "number".toList
  | .array items => "array[".toList ++ Text.ofInt items.length ++ [']']
  | .object members => "object(".toList ++ Text.ofInt members.length ++ " keys)".toList
  | .null => "null".toList

/-- The longer of two texts goes first. -/
def longerFirst (a b : Text × Text) : Bool := decide (b.2.length ≤ a.2.length)

mutual

/-- `_large_texts`: the long strings of a document with their paths, the longest first. -/
def largeTexts (start : Text) : Json → List (Text × Text)
  | .object members => (largeMembers start members).mergeSort longerFirst
  | _ => []

def largeMembers (start : Text) : List (String × Json) → List (Text × Text)
  | [] => []
  | (name, value) :: rest =>
      let path := if start.isEmpty then name.toList else start ++ ['.'] ++ name.toList
      (match value with
        | .string text => if largeTextChars < text.length then [(path, text.toList)] else []
        | .object _ => largeTexts path value
        | _ => []) ++
        largeMembers start rest

end

/-- `_describe_document`. -/
def describeDocument (wording : Wording) (document : Option Json) : Text :=
  match document with
  | some (.object members) =>
      let parts := members.map fun member =>
        member.1.toList ++ ": ".toList ++ briefType member.2
      let texts := largeTexts [] (.object members)
      let listed := (texts.take maxListedTexts).map fun found =>
        found.1 ++ " (".toList ++ Text.ofInt found.2.length ++ " chars ".toList ++
          wording.tokens found.2 ++ [')']
      "keys: \x7b".toList ++ Text.join ", ".toList parts ++ "\x7d\n".toList ++
        (if texts.isEmpty then []
          else "large text values: ".toList ++ Text.join ", ".toList listed ++ ['\n'])
  | _ => []

/-- `StoredDocument`; it is of kind `json` when a document was parsed. -/
structure StoredDocument where
  ref : Text
  parked : Bool
  source : Text
  body : Text
  document : Option Json

/-- `render_document_passport`. -/
def renderDocumentPassport (wording : Wording) (getMaxChars : Nat) (lifetime : Text)
    (doc : StoredDocument) : Text :=
  let head :=
    "[response ".toList ++ doc.ref ++ "] kind=".toList ++
      (if doc.parked then "json".toList else "text".toList) ++ " · source=".toList ++
      orDash doc.source ++ " · ".toList ++ wording.size doc.body.length ++ " · ".toList ++
      wording.tokens doc.body ++ " · ".toList ++ lifetime ++ ['\n']
  let details :=
    if doc.parked then describeDocument wording doc.document
    else
      "preview: ".toList ++
        (doc.body.take previewChars).map (fun c => if c = '\n' then ' ' else c) ++ "…\n".toList
  let hint :=
    "Read deliberately: response_get(key, max_chars up to ".toList ++ Text.ofInt getMaxChars ++
      ") when the size fits your budget; response_find(pattern) + response_window(at) ".toList ++
      "when it does not.".toList
  head ++ details ++ hint

end External
end OctoForge
