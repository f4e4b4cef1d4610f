import Mathlib.Data.Char
import Mathlib.Data.List.Dedup
import Mathlib.Data.List.Lex
import Mathlib.Data.List.Sort
import OctoForge.Collections.Ingest
import OctoForge.External.Hosts
import OctoForge.External.Template

/-!
# Reading a record

`parse_tool_spec`: the document of an endpoint record, checked field by field.  What it does not
implement it refuses, and what may stand in the scheme and the host of the url it polices.
-/

namespace OctoForge
namespace External

open Collections

/-- What reading a record takes from the standard library. -/
structure Reader extends Parsers where
  /-- `str.upper`. -/
  upper : Text → Text
  /-- `repr`. -/
  repr : Json → Text
  /-- The text of the exception of a document that does not parse. -/
  decodeError : Text → Text

/-- `sorted` of a set of names. -/
def sorted (names : List Text) : List Text := names.dedup.insertionSort (· ≤ ·)

theorem mem_sorted {name : Text} {names : List Text} : name ∈ sorted names ↔ name ∈ names := by
  rw [sorted, List.mem_insertionSort, List.mem_dedup]

/-- Names, with commas between them. -/
def listed (names : List Text) : Text := Text.join ", ".toList names

def specKeys : List String :=
  ["method", "url_template", "params_schema", "body_template", "headers", "auth", "response",
    "pagination"]

def annotationKeys : List String := ["notes", "description"]

def knownKeys : List String := specKeys ++ annotationKeys

/-- The names of an object that are not among the known ones. -/
def unknownNames (members : Payload) (known : List String) : List Text :=
  sorted ((members.map (·.1)).filter (· ∉ known) |>.map String.toList)

/-- `_load_json`. -/
def loadJson (reader : Reader) (content : Text) : Except Text Payload :=
  match reader.loads content with
  | .error message => .error message
  | .ok none => .error ("tool spec is not valid JSON: ".toList ++ reader.decodeError content)
  | .ok (some (.object members)) => .ok members
  | .ok (some _) => .error "tool spec must be a JSON object".toList

/-- `_reject_unknown_keys`. -/
def rejectUnknownKeys (data : Payload) : Except Text Unit :=
  let unknown := unknownNames data knownKeys
  if unknown.isEmpty then .ok ()
  else
    .error ("unknown field(s) in the endpoint document: ".toList ++ listed unknown ++
      "; allowed: ".toList ++ listed (sorted (knownKeys.map String.toList)) ++
      ". A secret is declared as auth: \x7b\"secret\": \"<code>\"\x7d or referenced as ".toList ++
      "\x7bsecret.<code>\x7d inside a header/url/body template; ".toList ++
      "the request body is body_template".toList)

def allowedMethods : List Text :=
  ["GET".toList, "POST".toList, "PUT".toList, "PATCH".toList, "DELETE".toList, "HEAD".toList,
    "OPTIONS".toList, "PROPFIND".toList, "PROPPATCH".toList, "REPORT".toList, "MKCOL".toList,
    "MKCALENDAR".toList, "COPY".toList, "MOVE".toList]

/-- `_parse_method`. -/
def parseMethod (reader : Reader) : Option Json → Except Text Text
  | some (.string raw) =>
      let method := reader.upper raw.toList
      if method ∈ allowedMethods then .ok method
      else .error ("unsupported method: ".toList ++ reader.repr (.string raw))
  | _ => .error "method must be a string".toList

/-- `_parse_url_template`. -/
def parseUrlTemplate : Option Json → Except Text Text
  | some (.string raw) =>
      if raw.toList.isEmpty then .error "url_template must be a non-empty string".toList
      else .ok raw.toList
  | _ => .error "url_template must be a non-empty string".toList

/-- `_parse_body_template`. -/
def parseBodyTemplate : Option Json → Except Text (Option Text)
  | none | some .null => .ok none
  | some (.string raw) =>
      if raw.toList.isEmpty then .error "body_template must be a non-empty string".toList
      else .ok (some raw.toList)
  | _ => .error "body_template must be a non-empty string".toList

/-- One header of `_parse_headers`. -/
def parseHeader (reader : Reader) (member : String × Json) : Except Text (Text × Text) :=
  if (Text.strip member.1.toList).isEmpty then
    .error "headers keys must be non-empty strings".toList
  else
    match member.2 with
    | .string value => .ok (member.1.toList, value.toList)
    | _ => .error ("headers[".toList ++ reader.repr (.string member.1) ++
        "] must be a string".toList)

/-- `_parse_headers`. -/
def parseHeaders (reader : Reader) : Option Json → Except Text (List (Text × Text))
  | none | some .null => .ok []
  | some (.object members) => members.mapM (parseHeader reader)
  | _ => .error "headers must be an object of strings".toList

/-- The value of an enumeration of strings, by its name. -/
def enumValue {α : Type} (table : List (String × α)) : Option Json → Option α
  | some (.string raw) => (table.find? fun entry => entry.1 == raw).map (·.2)
  | _ => none

def paramKinds : List (String × ParamKind) :=
  [("string", .string), ("path", .path), ("host", .host)]

/-- `params_schema['name']`. -/
def paramLabel (reader : Reader) (name : String) : Text :=
  "params_schema[".toList ++ reader.repr (.string name) ++ [']']

/-- One pattern of `_parse_param_hosts`. -/
def parseHost (reader : Reader) (name : String) : Json → Except Text Text
  | .string item =>
      match normalizeHost reader.lower item.toList with
      | .ok host => .ok host
      | .error message => .error (paramLabel reader name ++ ".hosts: ".toList ++ message)
  | _ => .error (paramLabel reader name ++ ".hosts must be strings".toList)

/-- `_parse_param_hosts`. -/
def parseParamHosts (reader : Reader) (name : String) (raw : Payload) (kind : ParamKind) :
    Except Text (List Text) :=
  match kind, Json.lookup raw "hosts" with
  | .host, some (.array (item :: rest)) => (item :: rest).mapM (parseHost reader name)
  | .host, _ =>
      .error (paramLabel reader name ++ ": a 'host' param must declare a non-empty 'hosts' ".toList ++
        "allowlist, e.g. [\"*.icloud.com\"] — the record names where it may go, never ".toList ++
        "the caller".toList)
  | _, none | _, some .null => .ok []
  | kind, some _ =>
      .error (paramLabel reader name ++ ": 'hosts' belongs to a 'host' param, not '".toList ++
        kind.value ++ ['\''])

/-- `_parse_param`. -/
def parseParam (reader : Reader) (name : String) : Json → Except Text ToolParamSpec
  | .object raw =>
      match enumValue paramKinds (Json.lookup raw "type") with
      | none => .error (paramLabel reader name ++
          ".type must be one of: string, path, host".toList)
      | some kind =>
          match Json.lookup raw "required" with
          | none => (parseParamHosts reader name raw kind).map fun hosts => ⟨false, kind, hosts⟩
          | some (.bool required) =>
              (parseParamHosts reader name raw kind).map fun hosts => ⟨required, kind, hosts⟩
          | some _ => .error (paramLabel reader name ++ ".required must be a boolean".toList)
  | _ => .error (paramLabel reader name ++ " must be an object".toList)

/-- `_parse_param_name`. -/
def parseParamName (reader : Reader) (name : String) : Except Text Text :=
  if name.toList.isEmpty then .error "params_schema keys must be non-empty strings".toList
  else if '.' ∈ name.toList then
    .error ("params_schema key ".toList ++ reader.repr (.string name) ++
      " must not contain '.': dotted names are reserved for the user./secret. namespaces".toList)
  else .ok name.toList

/-- One param of `_parse_params_schema`. -/
def parseNamedParam (reader : Reader) (member : String × Json) :
    Except Text (Text × ToolParamSpec) := do
  let param ← parseParam reader member.1 member.2
  let name ← parseParamName reader member.1
  return (name, param)

/-- `_parse_params_schema`. -/
def parseParamsSchema (reader : Reader) : Option Json → Except Text (List (Text × ToolParamSpec))
  | none | some .null => .ok []
  | some (.object members) => members.mapM (parseNamedParam reader)
  | _ => .error "params_schema must be an object".toList

/-! ## Responses and pages -/

def fieldCoercions : List (String × FieldCoercion) :=
  [("string", .string), ("number", .number), ("boolean", .boolean)]

/-- One field of `response.fields`. -/
def parseResponseField (reader : Reader) (member : String × Json) :
    Except Text (String × FieldCoercion) :=
  match enumValue fieldCoercions (some member.2) with
  | some kind => .ok (member.1, kind)
  | none =>
      .error ("response.fields[".toList ++ reader.repr (.string member.1) ++
        "]: unknown type ".toList ++ reader.repr member.2 ++
        "; allowed: boolean, number, string".toList)

/-- `response.items_path`. -/
def parseItemsPath : Option Json → Except Text (Option Text)
  | none | some .null => .ok none
  | some (.string path) =>
      if (Text.strip path.toList).isEmpty then
        .error "response.items_path must be a non-empty dotted path".toList
      else .ok (some path.toList)
  | some _ => .error "response.items_path must be a non-empty dotted path".toList

/-- `response.fields`. -/
def parseFields (reader : Reader) : Option Json → Except Text (List (String × FieldCoercion))
  | none | some .null => .ok []
  | some (.object members) => members.mapM (parseResponseField reader)
  | some _ =>
      .error ("response.fields must map field names to types, e.g. ".toList ++
        "\x7b\"price\": \"number\"\x7d".toList)

/-- The names of a section are all known. -/
def knownOnly (members : Payload) (known : List String) (label : Text) : Except Text Unit :=
  let unknown := unknownNames members known
  if unknown.isEmpty then .ok ()
  else .error ("unknown field(s) in ".toList ++ label ++ ": ".toList ++ listed unknown)

/-- `_parse_response_spec`. -/
def parseResponseSpec (reader : Reader) : Option Json → Except Text (Option ResponseSpec)
  | none | some .null => .ok none
  | some (.object raw) => do
      let itemsPath ← parseItemsPath (Json.lookup raw "items_path")
      let fields ← parseFields reader (Json.lookup raw "fields")
      knownOnly raw ["items_path", "fields"] "response".toList
      return some ⟨itemsPath, fields⟩
  | some _ => .error "response must be an object: \x7bitems_path?, fields?\x7d".toList

def paginationKinds : List (String × PaginationKind) :=
  [("page", .page), ("offset", .offset), ("cursor", .cursor)]

/-- `pagination.param`. -/
def parsePageParam (params : List (Text × ToolParamSpec)) : Option Json → Except Text Text
  | some (.string param) =>
      if (params.lookup param.toList).isSome then .ok param.toList
      else .error ("pagination.param must name a declared parameter ".toList ++
        "(the collect loop advances it)".toList)
  | _ => .error ("pagination.param must name a declared parameter ".toList ++
      "(the collect loop advances it)".toList)

/-- `pagination.start`. -/
def parsePageStart (kind : PaginationKind) : Option Json → Except Text Int
  | none => .ok (if kind = .page then 1 else 0)
  | some (.number start) => .ok start
  | some _ => .error "pagination.start must be an integer".toList

/-- `pagination.cursor_path`. -/
def parseCursorPath (kind : PaginationKind) : Option Json → Except Text (Option Text)
  | some (.string path) => .ok (some path.toList)
  | _ =>
      if kind = .cursor then
        .error "pagination.cursor_path is required for kind 'cursor'".toList
      else .ok none

/-- `pagination.total_path`. -/
def parseTotalPath : Option Json → Except Text (Option Text)
  | none | some .null => .ok none
  | some (.string path) => .ok (some path.toList)
  | some _ => .error "pagination.total_path must be a dotted path string".toList

/-- `_parse_pagination_spec`. -/
def parsePaginationSpec (params : List (Text × ToolParamSpec)) :
    Option Json → Except Text (Option PaginationSpec)
  | none | some .null => .ok none
  | some (.object raw) =>
      match enumValue paginationKinds (Json.lookup raw "kind") with
      | none => .error "pagination.kind must be one of: page, offset, cursor".toList
      | some kind => do
          let param ← parsePageParam params (Json.lookup raw "param")
          let start ← parsePageStart kind (Json.lookup raw "start")
          let cursorPath ← parseCursorPath kind (Json.lookup raw "cursor_path")
          let totalPath ← parseTotalPath (Json.lookup raw "total_path")
          knownOnly raw ["kind", "param", "start", "cursor_path", "total_path"]
            "pagination".toList
          return some ⟨kind, param, start, cursorPath, totalPath⟩
  | some _ => .error "pagination must be an object: \x7bkind, param, …\x7d".toList

/-! ## Credentials -/

def secretValueField : Text := "\x7bvalue\x7d".toList

/-- The code of `_expand_secret_auth`. -/
def parseAuthCode (reader : Reader) : Option Json → Except Text Text
  | some (.string raw) =>
      let code := reader.lower (Text.strip raw.toList)
      if (Text.strip raw.toList).isEmpty then
        .error "auth.secret must be a non-empty secret code".toList
      else if isCode code then .ok code
      else .error "auth.secret must be 1-64 characters of [a-z0-9_]".toList
  | _ => .error "auth.secret must be a non-empty secret code".toList

def parseAuthHeader : Option Json → Except Text Text
  | none => .ok "Authorization".toList
  | some (.string raw) =>
      if (Text.strip raw.toList).isEmpty then
        .error "auth.header must be a non-empty header name".toList
      else .ok (Text.strip raw.toList)
  | some _ => .error "auth.header must be a non-empty header name".toList

def parseAuthFormat : Option Json → Except Text Text
  | none => .ok "Bearer \x7bvalue\x7d".toList
  | some (.string raw) =>
      if Text.has raw.toList secretValueField then .ok raw.toList
      else .error "auth.format must contain the \x7bvalue\x7d placeholder".toList
  | some _ => .error "auth.format must contain the \x7bvalue\x7d placeholder".toList

/-- `_expand_secret_auth`: the header that the object stands for. -/
def expandSecretAuth (reader : Reader) (raw : Payload) : Except Text (Text × Text) := do
  let code ← parseAuthCode reader (Json.lookup raw "secret")
  let header ← parseAuthHeader (Json.lookup raw "header")
  let format ← parseAuthFormat (Json.lookup raw "format")
  return (header, Text.replace format secretValueField (braced (secretField code)))

/-- `headers[name] = template`. -/
def putHeader (headers : List (Text × Text)) (header : Text × Text) : List (Text × Text) :=
  if headers.any fun kept => kept.1 == header.1 then
    headers.map fun kept => if kept.1 == header.1 then header else kept
  else headers ++ [header]

/-- `auth` of the document, with the headers it leaves: the sugar is expanded, and a word has to
be `none`. -/
def parseAuth (reader : Reader) (headers : List (Text × Text)) :
    Option Json → Except Text (List (Text × Text))
  | none => .ok headers
  | some (.object raw) => do
      let header ← expandSecretAuth reader raw
      return putHeader headers header
  | some (.string raw) =>
      if reader.lower (Text.strip raw.toList) = "none".toList then .ok headers
      else
        .error ("auth: ".toList ++ reader.repr (.string raw) ++
          " declares an authentication scheme but attaches no credential. Use auth: ".toList ++
          "\x7b\"secret\": \"<code>\", \"format\": \"Basic \x7bvalue\x7d\"\x7d for a ".toList ++
          "per-user secret, or auth: \"none\" for a public endpoint".toList)
  | some _ => .error "auth must be a string or a secret declaration object".toList

/-! ## Templates -/

/-- A placeholder of `_validate_template_fields`. -/
def checkTemplateParam (reader : Reader) (label : Text) (params : List (Text × ToolParamSpec))
    (name : Text) : Except Text Unit :=
  match params.lookup name with
  | none =>
      .error (label ++ " references undeclared parameter: ".toList ++
        reader.repr (.string (String.ofList name)))
  | some param =>
      if param.required then .ok ()
      else
        .error (label ++ " parameter must be required: ".toList ++
          reader.repr (.string (String.ofList name)))

/-- `_validate_template_fields`. -/
def validateTemplateFields (reader : Reader) (label template : Text)
    (params : List (Text × ToolParamSpec)) : Except Text Unit :=
  match collectRefs template with
  | .error message => .error (label ++ ": ".toList ++ message)
  | .ok refs => (sorted refs.params).forM (checkTemplateParam reader label params)

/-- The part of a url template that decides where the request goes, up to the first slash after
the `://`, and the rest. -/
def policed (urlTemplate : Text) : Text × Text :=
  let start :=
    match Text.find? "://".toList urlTemplate with
    | some schemeEnd => schemeEnd + 3
    | none => 0
  (urlTemplate.take start ++ (urlTemplate.drop start).takeWhile (· != '/'),
    (urlTemplate.drop start).dropWhile (· != '/'))

/-- A placeholder of `_validate_url_authority`. -/
def checkHostParam (reader : Reader) (params : List (Text × ToolParamSpec)) (name : Text) :
    Except Text Unit :=
  match params.lookup name with
  | none => .ok ()
  | some param =>
      if param.kind = .host then .ok ()
      else
        .error ("url_template puts ".toList ++ reader.repr (.string (String.ofList name)) ++
          " in the host, but it is a '".toList ++ param.kind.value ++
          "' param: only a 'host' param (with its own 'hosts' allowlist) may decide ".toList ++
          "where the request goes".toList)

/-- `_validate_url_authority`. -/
def validateUrlAuthority (reader : Reader) (urlTemplate : Text)
    (params : List (Text × ToolParamSpec)) : Except Text Unit :=
  match collectRefs (policed urlTemplate).1 with
  | .error message => .error message
  | .ok refs =>
      if refs.secrets.isEmpty then (sorted refs.params).forM (checkHostParam reader params)
      else .error "a secret placeholder cannot appear in the URL scheme or host".toList

/-- `headers['name']`. -/
def headerLabel (reader : Reader) (name : Text) : Text :=
  "headers[".toList ++ reader.repr (.string (String.ofList name)) ++ [']']

/-- `parse_tool_spec`. -/
def parseToolSpec (reader : Reader) (content : Text) : Except Text ToolSpec := do
  let data ← loadJson reader content
  rejectUnknownKeys data
  let method ← parseMethod reader (Json.lookup data "method")
  let urlTemplate ← parseUrlTemplate (Json.lookup data "url_template")
  let params ← parseParamsSchema reader (Json.lookup data "params_schema")
  let bodyTemplate ← parseBodyTemplate (Json.lookup data "body_template")
  let plain ← parseHeaders reader (Json.lookup data "headers")
  let headers ← parseAuth reader plain (Json.lookup data "auth")
  validateTemplateFields reader "url_template".toList urlTemplate params
  validateUrlAuthority reader urlTemplate params
  bodyTemplate.forM fun body => validateTemplateFields reader "body_template".toList body params
  headers.forM fun header =>
    validateTemplateFields reader (headerLabel reader header.1) header.2 params
  let response ← parseResponseSpec reader (Json.lookup data "response")
  let pagination ← parsePaginationSpec params (Json.lookup data "pagination")
  return { method, urlTemplate, params, bodyTemplate, headers, response, pagination }

end External
end OctoForge
