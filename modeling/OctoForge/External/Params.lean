import OctoForge.External.Record
import OctoForge.External.Collect
import OctoForge.Url

/-!
# The params of a call

Params are checked against what their declared kinds may carry, and escaped by it when the url
is rendered.
-/

namespace OctoForge
namespace External

/-! ## Validation -/

def quotedName (reader : Reader) (name : Text) : Text :=
  reader.repr (.string (String.ofList name))

/-- `_validate_path`. -/
def validatePath (reader : Reader) (name value : Text) : Except Text Text :=
  let path := value.strip.dropWhile (· == '/')
  if '?' ∈ path || '#' ∈ path || Text.has path "://".toList then
    .error ("param ".toList ++ quotedName reader name ++
      " is a path, not a URL: drop the scheme, query and fragment".toList)
  else if "..".toList ∈ path.splitOn '/' then
    .error ("param ".toList ++ quotedName reader name ++
      " must not walk up the path with '..'".toList)
  else .ok path

/-- The characters that a bare hostname has none of. -/
def notInHost : Text := "/@:?#*".toList

/-- `_validate_host`. -/
def validateHost (reader : Reader) (name : Text) (spec : ToolParamSpec) (value : Text) :
    Except Text Text :=
  let host := canonicalHost reader.lower value
  if host.isEmpty || host.any fun c => notInHost.contains c then
    .error ("param ".toList ++ quotedName reader name ++
      " must be a bare hostname (no scheme, port, path or credentials)".toList)
  else if spec.hosts.any fun pattern => hostMatches reader.lower pattern host then .ok host
  else
    .error ("param ".toList ++ quotedName reader name ++ ": host ".toList ++
      quotedName reader host ++ " is not one this endpoint may call (allowed: ".toList ++
      listed spec.hosts ++ [')'])

/-- `_validate_value`. -/
def validateValue (reader : Reader) (name : Text) (spec : ToolParamSpec) (value : Text) :
    Except Text Text :=
  match spec.kind with
  | .string => .ok value
  | .path => validatePath reader name value
  | .host => validateHost reader name spec value

/-- The params as the model has given them. -/
abbrev RawParams := List (Text × Json)

def isText : Json → Bool
  | .string _ => true
  | _ => false

/-- A param that is declared and a text. -/
def validateParam (reader : Reader) (spec : ToolSpec) (param : Text × Json) :
    Except Text (Text × Text) :=
  match spec.params.lookup param.1, param.2 with
  | some declared, .string value =>
      (validateValue reader param.1 declared value.toList).map fun value => (param.1, value)
  | _, _ => .error []

/-- `_validate_params`. -/
def validateParams (reader : Reader) (spec : ToolSpec) (params : RawParams) :
    Except Text Params :=
  let unknown := sorted ((params.map (·.1)).filter fun name => (spec.params.lookup name).isNone)
  let missing := sorted ((spec.params.filter fun declared =>
    declared.2.required && (params.lookup declared.1).isNone).map (·.1))
  let notTexts := sorted ((params.filter fun param => !isText param.2).map (·.1))
  if !unknown.isEmpty then .error ("unknown params: ".toList ++ listed unknown)
  else if !missing.isEmpty then .error ("missing required params: ".toList ++ listed missing)
  else if !notTexts.isEmpty then
    .error ("params must be strings for this endpoint: ".toList ++ listed notTexts)
  else params.mapM (validateParam reader spec)

/-! ## Rendering the url -/

/-- `_escape_for_url`. -/
def escapeForUrl (kind : ParamKind) (value : Text) : Text :=
  match kind with
  | .string => Url.quote value
  | .path => Text.join ['/'] ((value.splitOn '/').map Url.quote)
  | .host => value

/-- A param of the url, escaped by its kind. -/
def escapedParam (spec : ToolSpec) (params : Params) (name : Text) : Option Text :=
  match params.lookup name, spec.params.lookup name with
  | some value, some declared => some (escapeForUrl declared.kind value)
  | _, _ => none

/-- The values of `_render_url`, by the full names of the fields. -/
def urlValues (spec : ToolSpec) (params userValues sentinels : Params) (name : Text) :
    Option Text :=
  match sentinels.lookup name with
  | some sentinel => some sentinel
  | none =>
      match userValues.lookup name with
      | some value => some (Url.quote value)
      | none => escapedParam spec params name

/-- `_render_url`; the sentinels and the values of the user are under the names of their
fields. -/
def renderUrl (spec : ToolSpec) (params userValues sentinels : Params) : Except Text Text :=
  renderTemplate spec.urlTemplate (urlValues spec params userValues sentinels)

end External
end OctoForge
