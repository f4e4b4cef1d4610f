import OctoForge.Coop.Machine
import OctoForge.Lower
import OctoForge.Sequence.Recency

/-!
# The operator gate

A middleware in front of every endpoint asks `AuthGate` whether the request has a credential.  A
password is checked in a worker thread, and while it runs other requests come and go; what was
verified is remembered for a while, and so are the failures of each client.
-/

namespace OctoForge
namespace Auth

/-- What the gate takes from the platform: the case of characters, base64, the digests. -/
structure Platform where
  table : CaseTable
  upper : Text → Text
  /-- `base64.b64decode(raw).decode()`, or `None` if one of them raises. -/
  decodeText : Text → Option Text
  b64decode : Text → Option (List UInt8)
  /-- `int(raw)`. -/
  readInt : Text → Option Int
  /-- `hashlib.pbkdf2_hmac` with SHA-256, which refuses some counts of iterations. -/
  pbkdf2 : (password : Text) → (salt : List UInt8) → (iterations : Int) → Option (List UInt8)
  /-- The hexadecimal SHA-256 digest of a text. -/
  sha256 : Text → Text

def hashScheme : Text := "pbkdf2_sha256".toList

def basicPrefix : Text := "basic ".toList

def unknownClient : Text := "unknown".toList

def openPaths : List Text :=
  ["/health".toList, "/health/ready".toList, "/secrets.html".toList]

def openPrefixes : List Text := ["/api/secrets/".toList]

def servicePrefixes : List Text :=
  ["/api/dialog/".toList, "/api/media/".toList, "/api/identity/profile".toList]

def mutatingMethods : List Text :=
  ["POST".toList, "PUT".toList, "PATCH".toList, "DELETE".toList]

def sameSiteValues : List Text := ["same-origin".toList, "none".toList]

/-- What the gate reads of a request; the names of the headers are in lower case. -/
structure Request where
  method : Text
  path : Text
  headers : List (Text × Text)
  client : Option Text
  scheme : Text
  netloc : Text
  deriving DecidableEq

/-- `request.headers.get(name, "")`. -/
def Request.header (request : Request) (name : String) : Text :=
  (Dict.get request.headers name.toList).getD []

/-- `verify_password`; `none` if it raises. -/
def verifyPassword (platform : Platform) (password encoded : Text) : Option Bool :=
  match encoded.splitOn ':' with
  | [scheme, rawIterations, rawSalt, rawDigest] =>
      if scheme ≠ hashScheme then some false
      else
        match platform.b64decode rawSalt, platform.b64decode rawDigest,
            platform.readInt rawIterations with
        | some salt, some digest, some iterations =>
            (platform.pbkdf2 password salt iterations).map (· == digest)
        | _, _, _ => some false
  | _ => some false

/-- `is_open_path`. -/
def isOpenPath (path : Text) : Bool :=
  openPaths.contains path || openPrefixes.any fun start => start.isPrefixOf path

/-- `allows_service_credential`. -/
def allowsServiceCredential (path : Text) : Bool :=
  servicePrefixes.any fun start => start.isPrefixOf path

/-- `rstrip("/")`. -/
def rstripSlash (t : Text) : Text := t.rdropWhile (· == '/')

/-- `_own_origin`. -/
def ownOrigin (platform : Platform) (request : Request) : Text :=
  let host := if request.header "host" = [] then request.netloc else request.header "host"
  platform.table.lower (rstripSlash (request.scheme ++ "://".toList ++ host))

/-- `is_cross_site_mutation`. -/
def isCrossSiteMutation (platform : Platform) (request : Request) : Bool :=
  if !mutatingMethods.contains (platform.upper request.method) then false
  else
    let fetchSite := platform.table.lower (request.header "sec-fetch-site")
    if fetchSite ≠ [] then !sameSiteValues.contains fetchSite
    else
      let origin := request.header "origin"
      if origin = [] then false
      else platform.table.lower (rstripSlash origin) != ownOrigin platform request

/-- `AttemptLimiter`. -/
structure AttemptLimiter where
  maxFailures : Nat := 5
  cooldownSeconds : Int := 60
  maxClients : Nat := 10000
  failures : List (Text × (Nat × Int)) := []
  deriving DecidableEq

namespace AttemptLimiter

/-- `blocked`, and the limiter without what is over. -/
def blocked (l : AttemptLimiter) (client : Text) (moment : Int) : Bool × AttemptLimiter :=
  match Dict.get l.failures client with
  | none => (false, l)
  | some (count, last) =>
      if moment - last ≥ l.cooldownSeconds then
        (false, { l with failures := Dict.del client l.failures })
      else (decide (count ≥ l.maxFailures), l)

/-- `record_failure`. -/
def recordFailure (l : AttemptLimiter) (client : Text) (moment : Int) : AttemptLimiter :=
  let (count, last) := (Dict.get l.failures client).getD (0, moment)
  let count := if moment - last ≥ l.cooldownSeconds then 0 else count
  { l with
    failures := Dict.trim l.maxClients
      (Dict.moveToEnd client (Dict.put client (count + 1, moment) l.failures)) }

/-- `record_success`. -/
def recordSuccess (l : AttemptLimiter) (client : Text) : AttemptLimiter :=
  { l with failures := Dict.del client l.failures }

end AttemptLimiter

/-- `CredentialCache`. -/
structure CredentialCache where
  ttlSeconds : Int := 60
  maxEntries : Nat := 32
  entries : List (Text × Int) := []
  deriving DecidableEq

namespace CredentialCache

/-- `valid`, and the cache without what has expired. -/
def valid (platform : Platform) (c : CredentialCache) (header : Text) (moment : Int) :
    Bool × CredentialCache :=
  match Dict.get c.entries (platform.sha256 header) with
  | none => (false, c)
  | some expiresAt =>
      if expiresAt ≤ moment then
        (false, { c with entries := Dict.del (platform.sha256 header) c.entries })
      else (true, c)

/-- `remember`. -/
def remember (platform : Platform) (c : CredentialCache) (header : Text) (moment : Int) :
    CredentialCache :=
  { c with
    entries := Dict.trim c.maxEntries
      (Dict.put (platform.sha256 header) (moment + c.ttlSeconds) c.entries) }

end CredentialCache

inductive Credential where
  | operator
  | service
  deriving DecidableEq, Repr

/-- Where a request is. -/
inductive Phase where
  /-- At `await asyncio.to_thread(verify_password, ...)`. -/
  | hashing (password : Text) (credential : Credential) (userOk : Bool)
  /-- Past the gate without a credential, on an open path. -/
  | passed
  | admitted (credential : Credential) (moment : Int)
  | refused (status : Nat)
  | raised
  deriving DecidableEq

/-- A request that has come to the gate.  `hashed` is kept for the statements: its password was
handed to the worker thread. -/
structure Attempt where
  request : Request
  phase : Phase
  hashed : Bool := false
  deriving DecidableEq

/-- A credential that was verified, kept for the statements. -/
structure Verified where
  header : Text
  credential : Credential
  moment : Int
  deriving DecidableEq

/-- `AuthGate`, with the requests that have come to it and the clock. -/
structure AuthGate where
  username : Text
  passwordHash : Text
  serviceUsername : Text := []
  servicePasswordHash : Text := []
  limiter : AttemptLimiter := {}
  cache : CredentialCache := {}
  serviceCache : CredentialCache := {}
  attempts : List Attempt := []
  verified : List Verified := []
  now : Int := 0
  deriving DecidableEq

/-- `_decode_basic`. -/
def decodeBasic (platform : Platform) (header : Text) : Option (Text × Text) :=
  (platform.decodeText (Text.strip (header.drop basicPrefix.length))).map fun decoded =>
    (decoded.takeWhile (· != ':'), (decoded.dropWhile (· != ':')).drop 1)

/-- `hmac.compare_digest` of two texts, which raises unless both are of ASCII. -/
def compareDigest (a b : Text) : Option Bool :=
  if a.all (fun c => c.toNat < 128) && b.all (fun c => c.toNat < 128) then some (a == b) else none

/-- `_client`. -/
def clientOf (request : Request) : Text := request.client.getD unknownClient

namespace AuthGate

/-- `_service_configured`. -/
def serviceConfigured (g : AuthGate) : Bool :=
  g.serviceUsername ≠ [] && g.servicePasswordHash ≠ []

/-- The credential that a user names, and whether the user is right; `none` if the comparison
raises. -/
def named (g : AuthGate) (serviceAllowed : Bool) (user : Text) : Option (Credential × Bool) :=
  let asService :=
    if serviceAllowed && g.serviceConfigured then compareDigest user g.serviceUsername
    else some false
  match asService with
  | none => none
  | some true => some (.service, true)
  | some false => (compareDigest user g.username).map fun userOk => (.operator, userOk)

/-- What a password is checked against. -/
def expected (g : AuthGate) : Credential → Text
  | .operator => g.passwordHash
  | .service => g.servicePasswordHash

/-- `authenticate` between the caches and the worker thread. -/
def attempt (platform : Platform) (g : AuthGate) (request : Request) (serviceAllowed : Bool) :
    AuthGate × Phase :=
  let blocked := g.limiter.blocked (clientOf request) g.now
  let g := { g with limiter := blocked.2 }
  if blocked.1 then (g, .refused 429)
  else
    match decodeBasic platform (request.header "authorization") with
    | none =>
        ({ g with limiter := g.limiter.recordFailure (clientOf request) g.now }, .refused 401)
    | some (user, password) =>
        match g.named serviceAllowed user with
        | none => (g, .raised)
        | some (credential, userOk) => (g, .hashing password credential userOk)

/-- `authenticate` up to the worker thread. -/
def begin (platform : Platform) (g : AuthGate) (request : Request) (serviceAllowed : Bool) :
    AuthGate × Phase :=
  if g.username = [] ∨ g.passwordHash = [] then (g, .refused 503)
  else
    let header := request.header "authorization"
    if !basicPrefix.isPrefixOf (platform.table.lower header) then (g, .refused 401)
    else
      let found := g.cache.valid platform header g.now
      let g := { g with cache := found.2 }
      if found.1 then (g, .admitted .operator g.now)
      else
        let foundService :=
          if serviceAllowed && g.serviceConfigured then g.serviceCache.valid platform header g.now
          else (false, g.serviceCache)
        let g := { g with serviceCache := foundService.2 }
        if foundService.1 then (g, .admitted .service g.now)
        else g.attempt platform request serviceAllowed

/-- The middleware up to the worker thread. -/
def arrive (platform : Platform) (g : AuthGate) (request : Request) : AuthGate × Phase :=
  if isCrossSiteMutation platform request then (g, .refused 403)
  else if isOpenPath request.path then (g, .passed)
  else g.begin platform request (allowsServiceCredential request.path)

/-- The failures of the client are forgotten and its header is remembered. -/
def succeed (platform : Platform) (g : AuthGate) (request : Request) (credential : Credential) :
    AuthGate :=
  let header := request.header "authorization"
  let g := { g with
    limiter := g.limiter.recordSuccess (clientOf request)
    verified := g.verified ++ [(⟨header, credential, g.now⟩ : Verified)] }
  match credential with
  | .service => { g with serviceCache := g.serviceCache.remember platform header g.now }
  | .operator => { g with cache := g.cache.remember platform header g.now }

/-- `authenticate` behind the worker thread. -/
def finish (platform : Platform) (g : AuthGate) (request : Request) (password : Text)
    (credential : Credential) (userOk : Bool) : AuthGate × Phase :=
  match verifyPassword platform password (g.expected credential) with
  | none => (g, .raised)
  | some passwordOk =>
      if userOk && passwordOk then
        (g.succeed platform request credential, .admitted credential g.now)
      else
        ({ g with limiter := g.limiter.recordFailure (clientOf request) g.now }, .refused 401)

/-- What can happen. -/
inductive Move where
  | request (request : Request)
  /-- The worker thread is done with the password of a request. -/
  | hashed (attempt : Nat)
  /-- Time passes. -/
  | tick (seconds : Nat)
  deriving DecidableEq

def isHashing : Phase → Bool
  | .hashing _ _ _ => true
  | _ => false

/-- The gate after a move, if the move is possible. -/
def step (platform : Platform) (g : AuthGate) : Move → Option AuthGate
  | .request request =>
      let begun := g.arrive platform request
      some { begun.1 with attempts := begun.1.attempts ++
        [({ request, phase := begun.2, hashed := isHashing begun.2 } : Attempt)] }
  | .hashed index =>
      match g.attempts[index]? with
      | some attempt =>
          match attempt.phase with
          | .hashing password credential userOk =>
              let finished := g.finish platform attempt.request password credential userOk
              some { finished.1 with
                attempts := finished.1.attempts.set index { attempt with phase := finished.2 } }
          | _ => none
      | none => none
  | .tick seconds => some { g with now := g.now + seconds }

/-- The gate over any order of requests, worker threads and time. -/
def machine (platform : Platform) : Coop.Machine AuthGate Move := ⟨step platform⟩

end AuthGate
end Auth
end OctoForge
