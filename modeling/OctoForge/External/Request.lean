import OctoForge.External.Guard
import OctoForge.External.Params
import OctoForge.External.Secrets

/-!
# One request

The url is rendered with sentinels for its secrets and judged by the guard; then the secrets
are resolved for the host it names, and put where their placements let them.  A request is
sent only when all of that has passed.
-/

namespace OctoForge
namespace External

open Collections

/-- `ExternalCallAuth`. -/
structure CallAuth where
  baseUrlPrefix : Text
  headerName : Text
  headerValue : Text
  deriving DecidableEq, Repr

/-- What the executor makes its requests with. -/
structure Deployment where
  reader : Reader
  rules : Url.Rules
  vault : Vault
  whitelist : List CallAuth

/-- `uuid4().hex`. -/
structure Uuid where
  hex : Text
  isHex : hex.all Char.isAlphanum = true

/-- A request as it is sent. -/
structure Request where
  method : Text
  url : Text
  headers : List (Text × Text)
  body : Option Text
  deriving DecidableEq, Repr

/-- What is read of the answer to a request. -/
structure Response where
  status : Nat
  raw : Text
  contentType : Text
  truncated : Bool

/-- What is around one request: the stores, the network and the server. -/
structure Env where
  guard : Guard
  /-- `get_for_user`, when user params are wired. -/
  userParams : Option (Text → Params)
  /-- The rows of the secrets, when secrets are configured. -/
  secrets : Option (List SecretRow)
  /-- The `uuid4` drawn for a secret of the url. -/
  uuid : Text → Uuid
  /-- The answer of the server, or the text of an `HTTPError`. -/
  respond : Request → Except Text Response

/-- `_RenderPlan`. -/
structure Plan where
  urlRefs : TemplateRefs
  bodyRefs : TemplateRefs
  headerRefs : List (Text × TemplateRefs)
  deriving DecidableEq, Repr

/-- The references of all headers. -/
def Plan.headers (plan : Plan) : TemplateRefs :=
  plan.headerRefs.foldl (fun refs header => refs.union header.2) {}

/-- `combined`. -/
def Plan.combined (plan : Plan) : TemplateRefs :=
  (plan.urlRefs.union plan.bodyRefs).union plan.headers

/-- The references of the body template. -/
def bodyRefs : Option Text → Except Text TemplateRefs
  | none => .ok {}
  | some template => collectRefs template

/-- The references of one header. -/
def headerRefs (header : Text × Text) : Except Text (Text × TemplateRefs) :=
  (collectRefs header.2).map fun refs => (header.1, refs)

/-- `_collect_plan`. -/
def collectPlan (spec : ToolSpec) : Except Text Plan := do
  let url ← collectRefs spec.urlTemplate
  let body ← bodyRefs spec.bodyTemplate
  let headers ← spec.headers.mapM headerRefs
  return ⟨url, body, headers⟩

/-! ## The values -/

def paramsDisabled : Text :=
  "this endpoint uses per-user params (\x7b\x7buser.*\x7d\x7d), but user params are not ".toList ++
    "wired on this installation".toList

def paramMissing (codes : List Text) : Text :=
  "user param(s) not set for this user: ".toList ++
    listed (codes.map fun code => ['\''] ++ code ++ ['\'']) ++
    ". An operator sets them in the admin console; tell the user which value is needed ".toList ++
    "and what for".toList

/-- `_user_values`, by the names of the fields. -/
def userValues (env : Env) (plan : Plan) (user : Option Text) : Except Text Params :=
  let codes := plan.combined.userParams.dedup
  if codes.isEmpty then .ok []
  else
    match env.userParams, user with
    | none, _ => .error paramsDisabled
    | some _, none => .error "this endpoint uses per-user params: no user in context".toList
    | some stored, some user =>
        let missing := sorted (codes.filter fun code => ((stored user).lookup code).isNone)
        if missing.isEmpty then
          .ok (codes.map fun code => (userField code, ((stored user).lookup code).getD []))
        else .error (paramMissing missing)

/-- The sentinels of the secrets of the url, by the names of the fields. -/
def sentinels (env : Env) (plan : Plan) : Params :=
  plan.urlRefs.secrets.dedup.map fun code => (code, "of-secret-".toList ++ (env.uuid code).hex)

/-- Codes as the names of their fields. -/
def underFields (values : Params) : Params := values.map fun value => (secretField value.1, value.2)

/-! ## The secrets -/

/-- The secrets that have been resolved, by their codes. -/
abbrev Resolved := List (Text × ResolvedSecret)

/-- The host that a url names. -/
def hostOf (rules : Url.Rules) (url : Text) : Text :=
  rules.lower (((Url.urlsplit rules url).bind fun parts => parts.hostname rules).getD [])

def secretsDisabled : Text :=
  "this endpoint requires a per-user secret, but secrets are not configured ".toList ++
    "on this installation (OF_SECRETS_KEY is not set)".toList

/-- `SECRET_MISSING_TEMPLATE`. -/
def secretMissing (code host : Text) : Text :=
  "secret '".toList ++ code ++ "' is not set for this user (needed for host '".toList ++ host ++
    "'): mint them a pre-filled one-time form link with the secret_link tool — pass this ".toList ++
    "code, this host and a clear description of what the secret is for. Without the tool ".toList ++
    "they can run /secrets in Telegram and fill the form by hand".toList

/-- One secret of `_resolve_secrets`. -/
def resolveSecret (vault : Vault) (rows : List SecretRow) (user host code : Text) :
    Except Text (Text × ResolvedSecret) :=
  match resolve vault rows user code host with
  | .ok secret => .ok (code, secret)
  | .error .notFound => .error (secretMissing code host)
  | .error (.invalid message) | .error (.hostMismatch message) => .error message

/-- `PLACEMENT_BLOCKED_TEMPLATE`. -/
def placementBlocked (code : Text) (part : SecretPlacement) (allowed : List SecretPlacement) :
    Text :=
  "secret '".toList ++ code ++ "' may not be substituted into the ".toList ++ part.value ++
    " of a request (it allows: ".toList ++ listed (sorted (allowed.map SecretPlacement.value)) ++
    "); the user can extend its placements in the secrets form".toList

/-- One code of `_enforce_placements`. -/
def enforcePlacement (resolved : Resolved) (part : SecretPlacement) (code : Text) :
    Except Text Unit :=
  match resolved.lookup code with
  | none => .error code
  | some secret =>
      if part ∈ secret.placements then .ok ()
      else .error (placementBlocked code part secret.placements)

/-- `_enforce_placements`. -/
def enforcePlacements (plan : Plan) (resolved : Resolved) : Except Text Unit := do
  (sorted plan.urlRefs.secrets).forM (enforcePlacement resolved .url)
  (sorted plan.bodyRefs.secrets).forM (enforcePlacement resolved .body)
  (sorted plan.headers.secrets).forM (enforcePlacement resolved .header)

/-- `_resolve_secrets`. -/
def resolveSecrets (d : Deployment) (env : Env) (plan : Plan) (url : Text) (user : Option Text) :
    Except Text Resolved :=
  let codes := sorted plan.combined.secrets
  if codes.isEmpty then .ok []
  else
    match env.secrets, user with
    | none, _ => .error secretsDisabled
    | some _, none => .error "this endpoint requires a per-user secret: no user in context".toList
    | some rows, some user => do
        let resolved ← codes.mapM (resolveSecret d.vault rows user (hostOf d.rules url))
        enforcePlacements plan resolved
        return resolved

/-- The secret of a code, as it is put into a request. -/
def valueOf (resolved : Resolved) (code : Text) : Text :=
  ((resolved.lookup code).map (·.value)).getD []

/-- `_substitute_url_secrets`, of the sentinels that are left. -/
def substituteFrom (netloc : Text) (resolved : Resolved) (url : Text) : Params → Except Text Text
  | [] => .ok url
  | (code, sentinel) :: rest =>
      if Text.has netloc sentinel then
        .error "a secret placeholder cannot appear in the URL host".toList
      else
        substituteFrom netloc resolved
          (Text.replace url sentinel (Url.quote (valueOf resolved code))) rest

/-- The netloc of a url. -/
def netlocOf (rules : Url.Rules) (url : Text) : Text :=
  ((Url.urlsplit rules url).map (·.netloc)).getD []

/-- `_substitute_url_secrets`. -/
def substituteUrlSecrets (rules : Url.Rules) (safeUrl : Text) (sentinels : Params)
    (resolved : Resolved) : Except Text Text :=
  substituteFrom (netlocOf rules safeUrl) resolved safeUrl sentinels

/-! ## The headers -/

/-- The values of the body and the headers: `{**validated, **user_values, **secrets}`. -/
def renderValues (params userValues : Params) (resolved : Resolved) (name : Text) : Option Text :=
  match (resolved.map fun secret => (secretField secret.1, secret.2.value)).lookup name with
  | some value => some value
  | none =>
      match userValues.lookup name with
      | some value => some value
      | none => params.lookup name

/-- `_is_header_safe`. -/
def isHeaderSafe (value : Text) : Bool := value.all fun c => decide (32 ≤ c.toNat ∧ c.toNat ≤ 126)

/-- One header of the record. -/
def renderHeader (reader : Reader) (values : Text → Option Text) (header : Text × Text) :
    Except Text (Text × Text) := do
  let rendered ← renderTemplate header.2 values
  if isHeaderSafe rendered then return (header.1, rendered)
  else
    .error ("header ".toList ++ quotedName reader header.1 ++
      " renders to an illegal value (control characters or non-ASCII)".toList)

def userIdPlaceholder : Text := "\x7buser_id\x7d".toList

/-- `_render_auth_header`. -/
def renderAuthHeader (entry : CallAuth) (user : Option Text) : List (Text × Text) :=
  if Text.has entry.headerValue userIdPlaceholder then
    match user with
    | none => []
    | some user => [(entry.headerName, Text.replace entry.headerValue userIdPlaceholder user)]
  else [(entry.headerName, entry.headerValue)]

/-- `_auth_headers_for`. -/
def authHeadersFor (d : Deployment) (url : Text) (user : Option Text) : List (Text × Text) :=
  match d.whitelist.find? fun entry => matchesUrlPrefix d.rules url entry.baseUrlPrefix with
  | some entry => renderAuthHeader entry user
  | none => []

/-- Whether a header of the record has a secret in it. -/
def bearsSecret (plan : Plan) (name : Text) : Bool :=
  match plan.headerRefs.lookup name with
  | some refs => !refs.secrets.isEmpty
  | none => false

/-- `_build_headers`. -/
def buildHeaders (d : Deployment) (spec : ToolSpec) (plan : Plan) (url : Text)
    (user : Option Text) (values : Text → Option Text) : Except Text (List (Text × Text)) := do
  let rendered ← spec.headers.mapM (renderHeader d.reader values)
  let plain := rendered.filter fun header => !bearsSecret plan header.1
  let bearing := rendered.filter fun header => bearsSecret plan header.1
  return bearing.foldl putHeader ((authHeadersFor d url user).foldl putHeader plain)

/-- The body of the request, when the record declares one. -/
def renderBody (spec : ToolSpec) (values : Text → Option Text) : Except Text (Option Text) :=
  match spec.bodyTemplate with
  | none => .ok none
  | some template => (renderTemplate template values).map some

/-! ## The request -/

/-- A request that is about to be sent, with the secrets in it. -/
structure Prepared where
  request : Request
  resolved : Resolved
  deriving DecidableEq, Repr

/-- `_request_once`, up to the sending. -/
def prepare (d : Deployment) (env : Env) (spec : ToolSpec) (plan : Plan) (params : Params)
    (user : Option Text) : Except Text Prepared := do
  let userValues ← userValues env plan user
  let safeUrl ← renderUrl spec params userValues (underFields (sentinels env plan))
  env.guard.check d.rules safeUrl
  let resolved ← resolveSecrets d env plan safeUrl user
  let url ← substituteUrlSecrets d.rules safeUrl (sentinels env plan) resolved
  let values := renderValues params userValues resolved
  let headers ← buildHeaders d spec plan url user values
  let body ← renderBody spec values
  return ⟨⟨spec.method, url, headers, body⟩, resolved⟩

/-! ## The answer -/

/-- `SECRET_SCRUBBED`. -/
def secretScrubbed : Text := "[secret]".toList

/-- Every form that a secret may have travelled in. -/
def forms (resolved : Resolved) : List Text :=
  let values := (resolved.flatMap fun secret => [secret.2.value, secret.2.plain]).filter (· ≠ [])
  (values.flatMap fun value => [value, Url.quote value]).dedup

/-- `_scrub`: the longest forms first. -/
def scrub (body : Text) (resolved : Resolved) : Text :=
  ((forms resolved).insertionSort fun form other => other.length ≤ form.length).foldl
    (fun body form => Text.replace body form secretScrubbed) body

/-- The page of a response. -/
def pageOf (response : Response) (resolved : Resolved) : Page where
  status := response.status
  scrubbed := scrub response.raw resolved
  contentType := response.contentType
  wireTruncated := response.truncated
  hadSecrets := !resolved.isEmpty

/-- `_request_once`. -/
def requestOnce (d : Deployment) (env : Env) (spec : ToolSpec) (plan : Plan) (params : Params)
    (user : Option Text) : Except Text Page := do
  let prepared ← prepare d env spec plan params user
  match env.respond prepared.request with
  | .error message =>
      .error ("external call failed: ".toList ++ scrub message prepared.resolved)
  | .ok response => .ok (pageOf response prepared.resolved)

end External
end OctoForge
