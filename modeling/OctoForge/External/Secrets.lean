import OctoForge.External.Hosts
import OctoForge.External.Template

/-!
# Stored secrets

`SqlAlchemySecretStore.resolve`: the value of a secret for one host.  A row is bound to a host,
and says into which parts of a request its value may go.
-/

namespace OctoForge
namespace External

/-- `SecretPlacement`. -/
inductive SecretPlacement where
  | header
  | url
  | body
  deriving DecidableEq, Repr

def SecretPlacement.value : SecretPlacement → Text
  | .header => "header".toList
  | .url => "url".toList
  | .body => "body".toList

/-- `SecretTransform`. -/
inductive SecretTransform where
  | base64
  | base64url
  | md5Hex
  | sha1Hex
  | sha256Hex
  deriving DecidableEq, Repr

/-- `ResolvedSecret`. -/
structure ResolvedSecret where
  value : Text
  plain : Text
  placements : List SecretPlacement
  deriving DecidableEq, Repr

/-- A row of the secrets, with its value as the key of the installation decrypts it. -/
structure SecretRow where
  userId : Text
  code : Text
  /-- `none` when the value cannot be decrypted. -/
  plain : Option Text
  allowedHost : Text
  placements : Option Text
  transform : Option Text
  deriving DecidableEq, Repr

/-- What the store takes from the standard library. -/
structure Vault where
  /-- `str.lower`. -/
  lower : Text → Text
  /-- `repr`. -/
  repr : Text → Text
  /-- `apply_transform`: base64 and the digests. -/
  apply : SecretTransform → Text → Text

inductive SecretError where
  | notFound
  | invalid (message : Text)
  | hostMismatch (message : Text)
  deriving DecidableEq, Repr

def placementNames : List (Text × SecretPlacement) :=
  [("header".toList, .header), ("url".toList, .url), ("body".toList, .body)]

def transformNames : List (Text × SecretTransform) :=
  [("base64".toList, .base64), ("base64url".toList, .base64url), ("md5_hex".toList, .md5Hex),
    ("sha1_hex".toList, .sha1Hex), ("sha256_hex".toList, .sha256Hex)]

/-- `DEFAULT_PLACEMENTS`. -/
def defaultPlacements : List SecretPlacement := [.header]

/-- `_placements_from_column`. -/
def placementsFromColumn : Option Text → List SecretPlacement
  | none => defaultPlacements
  | some raw =>
      let found := (raw.splitOn ',').filterMap fun item => placementNames.lookup item
      if found.isEmpty then defaultPlacements else found

/-- The value as it must appear in a request, by the column of the transform. -/
def transformed (vault : Vault) (raw : Option Text) (plain : Text) : Except SecretError Text :=
  match raw with
  | none => .ok plain
  | some name =>
      match transformNames.lookup name with
      | some transform => .ok (vault.apply transform plain)
      | none => .error (.invalid ("stored transform ".toList ++ vault.repr name ++
          " is not supported".toList))

/-- `normalize_code`. -/
def normalizeCode (vault : Vault) (raw : Text) : Except SecretError Text :=
  let code := vault.lower raw.strip
  if isCode code then .ok code
  else .error (.invalid ("secret code must be 1-64 characters of [a-z0-9_], e.g. ".toList ++
      "'gmail_token'".toList))

/-- `HOST_MISMATCH_MESSAGE`. -/
def hostMismatch (code allowed host : Text) : Text :=
  "secret '".toList ++ code ++ "' is bound to host '".toList ++ allowed ++
    "' and cannot be sent to '".toList ++ host ++ ['\'']

/-- `_find_row`. -/
def findRow (rows : List SecretRow) (userId code : Text) : Option SecretRow :=
  rows.find? fun row => row.userId == userId && row.code == code

/-- A row that has been found, for a host that has been normalised. -/
def resolveRow (vault : Vault) (row : SecretRow) (target : Text) :
    Except SecretError ResolvedSecret :=
  if hostMatches vault.lower row.allowedHost target then
    match row.plain with
    | none => .error .notFound
    | some plain =>
        (transformed vault row.transform plain).map fun value =>
          ⟨value, plain, placementsFromColumn row.placements⟩
  else .error (.hostMismatch (hostMismatch row.code row.allowedHost target))

/-- `resolve`. -/
def resolve (vault : Vault) (rows : List SecretRow) (userId code host : Text) :
    Except SecretError ResolvedSecret := do
  let code ← normalizeCode vault code
  let target ←
    match normalizeHost vault.lower host with
    | .ok target => .ok target
    | .error message => .error (.invalid message)
  match findRow rows userId code with
  | none => .error .notFound
  | some row => resolveRow vault row target

end External
end OctoForge
