import OctoForge.Server.AuthGate

/-!
# Whom the gate admits

Whatever comes in between, a request that is admitted has shown a header that was verified
against the hash of its credential, and not longer ago than the credential is remembered.  The
service credential opens the paths of the service only.
-/

namespace OctoForge
namespace Auth

variable {platform : Platform} {header : Text} {moment : Int}

namespace CredentialCache

variable {c c' : CredentialCache}

/-- The limits are the same, and nothing has come in. -/
structure Fewer (c' c : CredentialCache) : Prop where
  ttlSeconds : c'.ttlSeconds = c.ttlSeconds
  maxEntries : c'.maxEntries = c.maxEntries
  entries : c'.entries.Sublist c.entries

theorem Fewer.refl (c : CredentialCache) : Fewer c c := ⟨rfl, rfl, List.Sublist.refl _⟩

theorem fewer_valid (platform : Platform) (c : CredentialCache) (header : Text) (moment : Int) :
    Fewer (c.valid platform header moment).2 c := by
  rw [valid]
  split
  · exact .refl c
  · split
    · exact ⟨rfl, rfl, List.filter_sublist⟩
    · exact .refl c

/-- What is accepted is remembered and has not expired. -/
theorem mem_of_valid (hValid : (c.valid platform header moment).1 = true) :
    ∃ expiresAt, (platform.sha256 header, expiresAt) ∈ c.entries ∧ moment < expiresAt := by
  rw [valid] at hValid
  split at hValid
  · cases hValid
  · rename_i expiresAt hGet
    split at hValid
    · cases hValid
    · rename_i hLater
      exact ⟨expiresAt, Dict.mem_of_get hGet, Int.lt_of_not_ge hLater⟩

/-- What is remembered is new or was remembered before. -/
theorem mem_remember {entry : Text × Int}
    (hMem : entry ∈ (c.remember platform header moment).entries) :
    entry = (platform.sha256 header, moment + c.ttlSeconds) ∨ entry ∈ c.entries :=
  Dict.mem_of_mem_put (Dict.mem_of_mem_trim hMem)

end CredentialCache

namespace AuthGate

variable {g g' : AuthGate} {request : Request} {serviceAllowed : Bool} {credential : Credential}
  {phase : Phase} {attempt : Attempt}

/-- The cache of a credential. -/
def cacheOf (g : AuthGate) : Credential → CredentialCache
  | .operator => g.cache
  | .service => g.serviceCache

/-- The cases of `authenticate` up to the worker thread. -/
inductive Begins (platform : Platform) (g : AuthGate) (request : Request) (serviceAllowed : Bool) :
    AuthGate → Phase → Prop
  | turnedAway (status : Nat) : Begins platform g request serviceAllowed g (.refused status)
  | remembered (c s : CredentialCache) (credential : Credential) (hCache : c.Fewer g.cache)
      (hService : s.Fewer g.serviceCache)
      (hAllowed : credential = .service → serviceAllowed = true)
      (hValid : ((g.cacheOf credential).valid platform (request.header "authorization")
        g.now).1 = true) :
      Begins platform g request serviceAllowed { g with cache := c, serviceCache := s }
        (.admitted credential g.now)
  | stopped (c s : CredentialCache) (phase : Phase) (hCache : c.Fewer g.cache)
      (hService : s.Fewer g.serviceCache) (hPhase : phase = .refused 429 ∨ phase = .raised) :
      Begins platform g request serviceAllowed
        { g with
          cache := c, serviceCache := s
          limiter := (g.limiter.blocked (clientOf request) g.now).2 } phase
  | malformed (c s : CredentialCache) (hCache : c.Fewer g.cache)
      (hService : s.Fewer g.serviceCache) :
      Begins platform g request serviceAllowed
        { g with
          cache := c, serviceCache := s
          limiter := (g.limiter.blocked (clientOf request) g.now).2.recordFailure
            (clientOf request) g.now } (.refused 401)
  | hashes (c s : CredentialCache) (user password : Text) (credential : Credential)
      (userOk : Bool) (hCache : c.Fewer g.cache) (hService : s.Fewer g.serviceCache)
      (hFree : (g.limiter.blocked (clientOf request) g.now).1 = false)
      (hDecoded : decodeBasic platform (request.header "authorization") = some (user, password))
      (hNamed : g.named serviceAllowed user = some (credential, userOk)) :
      Begins platform g request serviceAllowed
        { g with
          cache := c, serviceCache := s
          limiter := (g.limiter.blocked (clientOf request) g.now).2 }
        (.hashing password credential userOk)

theorem attempt_cases {c s : CredentialCache} (hCache : c.Fewer g.cache)
    (hService : s.Fewer g.serviceCache) : Begins platform g request serviceAllowed
      ({ g with cache := c, serviceCache := s }.attempt platform request serviceAllowed).1
      ({ g with cache := c, serviceCache := s }.attempt platform request serviceAllowed).2 := by
  rw [AuthGate.attempt]
  dsimp only
  split
  · exact .stopped c s _ hCache hService (.inl rfl)
  · rename_i hFree
    split
    · exact .malformed c s hCache hService
    · rename_i user password hDecoded
      split
      · exact .stopped c s _ hCache hService (.inr rfl)
      · rename_i credential userOk hNamed
        exact .hashes c s user password credential userOk hCache hService (by simpa using hFree)
          hDecoded hNamed

theorem begin_cases (platform : Platform) (g : AuthGate) (request : Request)
    (serviceAllowed : Bool) : Begins platform g request serviceAllowed
      (g.begin platform request serviceAllowed).1 (g.begin platform request serviceAllowed).2 := by
  have hCache := CredentialCache.fewer_valid platform g.cache (request.header "authorization") g.now
  rw [begin]
  split
  · exact .turnedAway 503
  dsimp only
  split
  · exact .turnedAway 401
  split
  · rename_i hValid
    exact .remembered _ g.serviceCache .operator hCache (.refl _) (by simp) hValid
  -- The cache of the service is asked only where the service may be admitted.
  split
  · rename_i hAllowed
    have hService := CredentialCache.fewer_valid platform g.serviceCache
      (request.header "authorization") g.now
    have hMay : serviceAllowed = true := (Bool.and_eq_true _ _ ▸ hAllowed).1
    split
    · rename_i hValid
      exact .remembered _ _ .service hCache hService (fun _ => hMay) hValid
    · exact attempt_cases hCache hService
  · rw [if_neg (by simp)]
    exact attempt_cases hCache (.refl _)

/-! ## What has been verified -/

/-- What stays for the life of the gate. -/
def blank (g : AuthGate) : AuthGate :=
  { g with
    limiter := { g.limiter with failures := [] }
    cache := { g.cache with entries := [] }
    serviceCache := { g.serviceCache with entries := [] }
    attempts := [], verified := [], now := 0 }

/-- The user of a credential. -/
def nameOf (g : AuthGate) : Credential → Text
  | .operator => g.username
  | .service => g.serviceUsername

def ttlOf (g : AuthGate) (credential : Credential) : Int := (g.cacheOf credential).ttlSeconds

/-- The header names the user of the credential, with a password that passes for its hash. -/
def Grants (platform : Platform) (g : AuthGate) (v : Verified) : Prop :=
  ∃ password, decodeBasic platform v.header = some (g.nameOf v.credential, password) ∧
    verifyPassword platform password (g.expected v.credential) = some true

/-- The request may have the credential. -/
def Guarded (platform : Platform) (request : Request) (credential : Credential) : Prop :=
  isCrossSiteMutation platform request = false ∧ isOpenPath request.path = false ∧
    (credential = .service → allowsServiceCredential request.path = true)

/-- The header of the request was verified, at this moment or while it is still remembered. -/
def Vouched (platform : Platform) (g : AuthGate) (request : Request) (credential : Credential)
    (moment : Int) : Prop :=
  ∃ v ∈ g.verified, v.credential = credential ∧
    platform.sha256 v.header = platform.sha256 (request.header "authorization") ∧
    v.moment ≤ moment ∧ (v.moment = moment ∨ moment < v.moment + g.ttlOf credential)

/-- What is known of a request that has come to the gate. -/
def Known (platform : Platform) (g : AuthGate) (request : Request) : Phase → Prop
  | .hashing password credential userOk =>
      Guarded platform request credential ∧ ∃ user,
        decodeBasic platform (request.header "authorization") = some (user, password) ∧
        (userOk = true → user = g.nameOf credential)
  | .passed => isOpenPath request.path = true
  | .admitted credential moment =>
      Guarded platform request credential ∧ Vouched platform g request credential moment
  | .refused _ => True
  | .raised => True

/-- What holds in every state of the gate. -/
structure Trusted (platform : Platform) (g : AuthGate) : Prop where
  verified : ∀ v ∈ g.verified, Grants platform g v ∧ v.moment ≤ g.now
  remembered : ∀ credential, ∀ entry ∈ (g.cacheOf credential).entries, ∃ v ∈ g.verified,
    v.credential = credential ∧ platform.sha256 v.header = entry.1 ∧
    entry.2 = v.moment + g.ttlOf credential
  attempts : ∀ attempt ∈ g.attempts, Known platform g attempt.request attempt.phase
  cache : g.cache.entries.length ≤ g.cache.maxEntries
  serviceCache : g.serviceCache.entries.length ≤ g.serviceCache.maxEntries
  limiter : g.limiter.failures.length ≤ g.limiter.maxClients

theorem nameOf_blank (credential : Credential) (hBlank : g'.blank = g.blank) :
    g'.nameOf credential = g.nameOf credential := by
  have hSame : g'.blank.nameOf credential = g.blank.nameOf credential := by rw [hBlank]
  cases credential <;> exact hSame

theorem ttlOf_blank (credential : Credential) (hBlank : g'.blank = g.blank) :
    g'.ttlOf credential = g.ttlOf credential := by
  have hSame : g'.blank.ttlOf credential = g.blank.ttlOf credential := by rw [hBlank]
  cases credential <;> exact hSame

theorem grants_blank {v : Verified} (hBlank : g'.blank = g.blank) (hGrants : Grants platform g v) :
    Grants platform g' v := by
  obtain ⟨password, hDecoded, hVerified⟩ := hGrants
  have hExpected : g'.expected v.credential = g.expected v.credential := by
    have hSame : g'.blank.expected v.credential = g.blank.expected v.credential := by rw [hBlank]
    cases hCredential : v.credential <;> rw [hCredential] at hSame <;> exact hSame
  exact ⟨password, by rw [hDecoded, nameOf_blank v.credential hBlank], by rw [hExpected, hVerified]⟩

/-- What is known stays known while more is verified. -/
theorem Known.mono (hKnown : Known platform g request phase) (hBlank : g'.blank = g.blank)
    (hVerified : ∀ v ∈ g.verified, v ∈ g'.verified) : Known platform g' request phase := by
  cases phase with
  | hashing password credential userOk =>
      obtain ⟨hGuarded, user, hDecoded, hUser⟩ := hKnown
      exact ⟨hGuarded, user, hDecoded, fun hOk => (hUser hOk).trans (nameOf_blank _ hBlank).symm⟩
  | passed => exact hKnown
  | admitted credential moment =>
      obtain ⟨hGuarded, v, hMem, hSame, hKey, hBefore, hFresh⟩ := hKnown
      refine ⟨hGuarded, v, hVerified v hMem, hSame, hKey, hBefore, ?_⟩
      rwa [ttlOf_blank _ hBlank]
  | refused status => exact hKnown
  | raised => exact hKnown

/-! ## The steps of the gate -/

/-- Nothing has been verified, and nothing more is remembered. -/
structure Loses (g' g : AuthGate) : Prop where
  blank : g'.blank = g.blank
  verified : g'.verified = g.verified
  attempts : g'.attempts = g.attempts
  now : g'.now = g.now
  cache : g'.cache.entries.Sublist g.cache.entries
  serviceCache : g'.serviceCache.entries.Sublist g.serviceCache.entries
  limiter : g.limiter.failures.length ≤ g.limiter.maxClients →
    g'.limiter.failures.length ≤ g'.limiter.maxClients

theorem Trusted.loses (hTrusted : Trusted platform g) (hLoses : Loses g' g) :
    Trusted platform g' := by
  obtain ⟨hBlank, hVerified, hAttempts, hNow, hCache, hService, hLimiter⟩ := hLoses
  have hMax : g'.cache.maxEntries = g.cache.maxEntries := congrArg (·.cache.maxEntries) hBlank
  have hServiceMax : g'.serviceCache.maxEntries = g.serviceCache.maxEntries :=
    congrArg (·.serviceCache.maxEntries) hBlank
  refine ⟨fun v hV => ?_, fun credential entry hEntry => ?_, fun attempt hAttempt => ?_, ?_, ?_,
    hLimiter hTrusted.limiter⟩
  · rw [hVerified] at hV
    obtain ⟨hGrants, hBefore⟩ := hTrusted.verified v hV
    exact ⟨grants_blank hBlank hGrants, hNow ▸ hBefore⟩
  · have hOld : entry ∈ (g.cacheOf credential).entries := by
      cases credential with
      | operator => exact hCache.subset hEntry
      | service => exact hService.subset hEntry
    rw [hVerified, ttlOf_blank credential hBlank]
    exact hTrusted.remembered credential entry hOld
  · rw [hAttempts] at hAttempt
    exact (hTrusted.attempts attempt hAttempt).mono hBlank (by simp [hVerified])
  · rw [hMax]
    exact hCache.length_le.trans hTrusted.cache
  · rw [hServiceMax]
    exact hService.length_le.trans hTrusted.serviceCache

theorem length_blocked (l : AttemptLimiter) (client : Text) (moment : Int) :
    (l.blocked client moment).2.failures.length ≤ l.failures.length ∧
      { (l.blocked client moment).2 with failures := [] } = { l with failures := [] } := by
  rw [AttemptLimiter.blocked]
  split
  · exact ⟨Nat.le_refl _, rfl⟩
  · split
    · exact ⟨List.length_filter_le _ _, rfl⟩
    · exact ⟨Nat.le_refl _, rfl⟩

theorem length_recordFailure (l : AttemptLimiter) (client : Text) (moment : Int) :
    (l.recordFailure client moment).failures.length ≤ l.maxClients ∧
      { l.recordFailure client moment with failures := [] } = { l with failures := [] } :=
  ⟨Dict.length_trim, rfl⟩

/-- Up to the worker thread things are only lost. -/
theorem loses_begins (hBegins : Begins platform g request serviceAllowed g' phase) :
    Loses g' g := by
  have hBlocked := length_blocked g.limiter (clientOf request) g.now
  have hBlank : ∀ (c s : CredentialCache) (l : AttemptLimiter), c.Fewer g.cache →
      s.Fewer g.serviceCache → { l with failures := [] } = { g.limiter with failures := [] } →
      ({ g with cache := c, serviceCache := s, limiter := l } : AuthGate).blank = g.blank := by
    intro c s l hCache hService hLimiter
    simp only [blank, hLimiter, hCache.ttlSeconds, hCache.maxEntries, hService.ttlSeconds,
      hService.maxEntries]
  cases hBegins with
  | turnedAway status =>
      exact ⟨rfl, rfl, rfl, rfl, List.Sublist.refl _, List.Sublist.refl _, id⟩
  | remembered c s credential hCache hService hAllowed hValid =>
      exact ⟨hBlank c s g.limiter hCache hService rfl, rfl, rfl, rfl, hCache.entries,
        hService.entries, id⟩
  | stopped c s phase hCache hService hPhase =>
      refine ⟨hBlank c s _ hCache hService hBlocked.2, rfl, rfl, rfl, hCache.entries,
        hService.entries, fun hBound => ?_⟩
      have hMax := congrArg (·.maxClients) hBlocked.2
      exact (hBlocked.1.trans hBound).trans (Nat.le_of_eq hMax.symm)
  | malformed c s hCache hService =>
      exact ⟨hBlank c s _ hCache hService ((length_recordFailure _ _ _).2.trans hBlocked.2), rfl,
        rfl, rfl, hCache.entries, hService.entries, fun _ => (length_recordFailure _ _ _).1⟩
  | hashes c s user password credential userOk hCache hService hFree hDecoded hNamed =>
      refine ⟨hBlank c s _ hCache hService hBlocked.2, rfl, rfl, rfl, hCache.entries,
        hService.entries, fun hBound => ?_⟩
      have hMax := congrArg (·.maxClients) hBlocked.2
      exact (hBlocked.1.trans hBound).trans (Nat.le_of_eq hMax.symm)

theorem eq_of_compareDigest {a b : Text} (hSame : compareDigest a b = some true) : a = b := by
  rw [compareDigest] at hSame
  split at hSame
  · simpa using hSame
  · cases hSame

theorem named_cases {user : Text} {userOk : Bool}
    (hNamed : g.named serviceAllowed user = some (credential, userOk)) :
    (credential = .service → serviceAllowed = true) ∧
      (userOk = true → user = g.nameOf credential) := by
  rw [named] at hNamed
  split at hNamed
  · cases hNamed
  · rename_i hService
    obtain ⟨rfl, rfl⟩ := Prod.mk.inj (Option.some.inj hNamed)
    split at hService
    · rename_i hAllowed
      exact ⟨fun _ => (Bool.and_eq_true _ _ ▸ hAllowed).1, fun _ => eq_of_compareDigest hService⟩
    · cases hService
  · obtain ⟨userOk', hUser, hPair⟩ := Option.map_eq_some_iff.mp hNamed
    obtain ⟨rfl, rfl⟩ := Prod.mk.inj hPair
    refine ⟨by simp, fun hOk => ?_⟩
    rw [hOk] at hUser
    exact eq_of_compareDigest hUser

/-- What is known of a request when it suspends or is through. -/
theorem known_begins (hTrusted : Trusted platform g)
    (hBegins : Begins platform g request serviceAllowed g' phase)
    (hGuarded : isCrossSiteMutation platform request = false ∧ isOpenPath request.path = false)
    (hAllowed : serviceAllowed = allowsServiceCredential request.path) :
    Known platform g' request phase := by
  have hLoses := loses_begins hBegins
  cases hBegins with
  | turnedAway status => exact trivial
  | remembered c s credential hCache hService hMay hValid =>
      obtain ⟨expiresAt, hEntry, hFresh⟩ := CredentialCache.mem_of_valid hValid
      obtain ⟨v, hV, hCredential, hKey, hExpires⟩ := hTrusted.remembered credential _ hEntry
      dsimp only at hKey hExpires
      refine ⟨⟨hGuarded.1, hGuarded.2, fun hIs => hAllowed ▸ hMay hIs⟩, v, hV, hCredential, hKey,
        (hTrusted.verified v hV).2, .inr ?_⟩
      rw [ttlOf_blank credential hLoses.blank, ← hExpires]
      exact hFresh
  | stopped c s phase hCache hService hPhase =>
      rcases hPhase with rfl | rfl <;> exact trivial
  | malformed c s hCache hService => exact trivial
  | hashes c s user password credential userOk hCache hService hFree hDecoded hNamed =>
      obtain ⟨hMay, hUser⟩ := named_cases hNamed
      exact ⟨⟨hGuarded.1, hGuarded.2, fun hIs => hAllowed ▸ hMay hIs⟩, user, hDecoded,
        fun hOk => (hUser hOk).trans (nameOf_blank credential hLoses.blank).symm⟩

theorem arrive_cases (hTrusted : Trusted platform g) (request : Request) :
    Loses (g.arrive platform request).1 g ∧
      Known platform (g.arrive platform request).1 request (g.arrive platform request).2 := by
  have hSame : Loses g g := ⟨rfl, rfl, rfl, rfl, List.Sublist.refl _, List.Sublist.refl _, id⟩
  rw [arrive]
  split
  · exact ⟨hSame, trivial⟩
  · rename_i hSite
    split
    · rename_i hOpen
      exact ⟨hSame, hOpen⟩
    · rename_i hClosed
      have hBegins := begin_cases platform g request (allowsServiceCredential request.path)
      exact ⟨loses_begins hBegins,
        known_begins hTrusted hBegins ⟨by simpa using hSite, by simpa using hClosed⟩ rfl⟩

/-- A verified header is remembered under its credential. -/
theorem trusted_succeed (hTrusted : Trusted platform g)
    (hGrants : Grants platform g ⟨request.header "authorization", credential, g.now⟩) :
    Trusted platform (g.succeed platform request credential) ∧
      (g.succeed platform request credential).blank = g.blank ∧
      (g.succeed platform request credential).attempts = g.attempts ∧
      (g.succeed platform request credential).verified =
        g.verified ++ [⟨request.header "authorization", credential, g.now⟩] := by
  have hBlank : (g.succeed platform request credential).blank = g.blank := by
    cases credential <;> rfl
  have hVerified : (g.succeed platform request credential).verified =
      g.verified ++ [⟨request.header "authorization", credential, g.now⟩] := by
    cases credential <;> rfl
  have hNow : (g.succeed platform request credential).now = g.now := by
    cases credential <;> rfl
  have hAttempts : (g.succeed platform request credential).attempts = g.attempts := by
    cases credential <;> rfl
  have hCache : ∀ other, ∀ entry ∈ ((g.succeed platform request credential).cacheOf other).entries,
      (other = credential ∧ entry =
        (platform.sha256 (request.header "authorization"), g.now + g.ttlOf credential)) ∨
      entry ∈ (g.cacheOf other).entries := by
    intro other entry hEntry
    cases credential with
    | operator =>
        cases other with
        | operator => exact (CredentialCache.mem_remember hEntry).imp_left fun hHere => ⟨rfl, hHere⟩
        | service => exact .inr hEntry
    | service =>
        cases other with
        | operator => exact .inr hEntry
        | service => exact (CredentialCache.mem_remember hEntry).imp_left fun hHere => ⟨rfl, hHere⟩
  refine ⟨⟨fun v hV => ?_, fun other entry hEntry => ?_, fun attempt hAttempt => ?_, ?_, ?_, ?_⟩,
    hBlank, hAttempts, hVerified⟩
  · rw [hVerified] at hV
    rw [hNow]
    rcases List.mem_append.mp hV with hOld | hNew
    · obtain ⟨hOldGrants, hBefore⟩ := hTrusted.verified v hOld
      exact ⟨grants_blank hBlank hOldGrants, hBefore⟩
    · rw [List.mem_singleton.mp hNew]
      exact ⟨grants_blank hBlank hGrants, Int.le_refl _⟩
  · rw [hVerified, ttlOf_blank other hBlank]
    rcases hCache other entry hEntry with ⟨rfl, rfl⟩ | hOld
    · exact ⟨_, List.mem_append_right _ (List.mem_singleton_self _), rfl, rfl, rfl⟩
    · obtain ⟨v, hV, hRest⟩ := hTrusted.remembered other entry hOld
      exact ⟨v, List.mem_append_left _ hV, hRest⟩
  · rw [hAttempts] at hAttempt
    refine (hTrusted.attempts attempt hAttempt).mono hBlank fun v hV => ?_
    rw [hVerified]
    exact List.mem_append_left _ hV
  · cases credential with
    | operator => exact Dict.length_trim
    | service => exact hTrusted.cache
  · cases credential with
    | operator => exact hTrusted.serviceCache
    | service => exact Dict.length_trim
  · have hFewer : (Dict.del (clientOf request) g.limiter.failures).length ≤ g.limiter.maxClients :=
      (List.length_filter_le _ _).trans hTrusted.limiter
    cases credential <;> exact hFewer

/-- Behind the worker thread nothing is lost of what was verified, and an admission comes with a
verification of its own. -/
theorem finish_cases {password : Text} {userOk : Bool} (hTrusted : Trusted platform g)
    (hKnown : Known platform g request (.hashing password credential userOk)) :
    Trusted platform (g.finish platform request password credential userOk).1 ∧
      (g.finish platform request password credential userOk).1.blank = g.blank ∧
      (g.finish platform request password credential userOk).1.attempts = g.attempts ∧
      (∀ v ∈ g.verified, v ∈ (g.finish platform request password credential userOk).1.verified) ∧
      Known platform (g.finish platform request password credential userOk).1 request
        (g.finish platform request password credential userOk).2 := by
  obtain ⟨hGuarded, user, hDecoded, hUser⟩ := hKnown
  rw [finish]
  split
  · exact ⟨hTrusted, rfl, rfl, fun v hV => hV, trivial⟩
  · rename_i passwordOk hPassword
    split
    · rename_i hBoth
      rw [Bool.and_eq_true] at hBoth
      have hGrants : Grants platform g ⟨request.header "authorization", credential, g.now⟩ := by
        refine ⟨password, ?_, ?_⟩
        · rw [hDecoded, hUser hBoth.1]
        · rw [hPassword, hBoth.2]
      obtain ⟨hAfter, hBlank, hAttempts, hVerified⟩ := trusted_succeed hTrusted hGrants
      refine ⟨hAfter, hBlank, hAttempts, fun v hV => ?_, hGuarded,
        ⟨request.header "authorization", credential, g.now⟩, ?_, rfl, rfl, Int.le_refl _, .inl rfl⟩
      · rw [hVerified]
        exact List.mem_append_left _ hV
      · rw [hVerified]
        exact List.mem_append_right _ (List.mem_singleton_self _)
    · have hLoses : Loses { g with
          limiter := g.limiter.recordFailure (clientOf request) g.now } g :=
        ⟨rfl, rfl, rfl, rfl, List.Sublist.refl _, List.Sublist.refl _,
          fun _ => (length_recordFailure _ _ _).1⟩
      exact ⟨hTrusted.loses hLoses, rfl, rfl, fun v hV => hV, trivial⟩

/-- A move keeps the trust. -/
theorem Trusted.step (hTrusted : Trusted platform g) (move : Move)
    (hStep : AuthGate.step platform g move = some g') :
    Trusted platform g' ∧ g'.blank = g.blank := by
  cases move with
  | request request =>
      rw [← Option.some.inj hStep]
      obtain ⟨hLoses, hKnown⟩ := arrive_cases hTrusted request
      have hAfter := hTrusted.loses hLoses
      refine ⟨⟨hAfter.verified, hAfter.remembered, fun attempt hAttempt => ?_, hAfter.cache,
        hAfter.serviceCache, hAfter.limiter⟩, hLoses.blank⟩
      rcases List.mem_append.mp hAttempt with hOld | hNew
      · exact hAfter.attempts attempt hOld
      · rw [List.mem_singleton.mp hNew]
        exact hKnown
  | hashed index =>
      rw [AuthGate.step] at hStep
      split at hStep
      · rename_i attempt hAttempt
        split at hStep
        · rename_i password credential userOk hPhase
          rw [← Option.some.inj hStep]
          have hKnown := hTrusted.attempts attempt (List.mem_of_getElem? hAttempt)
          rw [hPhase] at hKnown
          obtain ⟨hAfter, hBlank, hAttempts, -, hFinished⟩ := finish_cases hTrusted hKnown
          refine ⟨⟨hAfter.verified, hAfter.remembered, fun other hOther => ?_, hAfter.cache,
            hAfter.serviceCache, hAfter.limiter⟩, hBlank⟩
          rcases List.mem_or_eq_of_mem_set hOther with hOld | hHere
          · exact hAfter.attempts other hOld
          · rw [hHere]
            exact hFinished
        · cases hStep
      · cases hStep
  | tick seconds =>
      rw [← Option.some.inj hStep]
      refine ⟨⟨fun v hV => ?_, hTrusted.remembered, hTrusted.attempts, hTrusted.cache,
        hTrusted.serviceCache, hTrusted.limiter⟩, rfl⟩
      obtain ⟨hGrants, hBefore⟩ := hTrusted.verified v hV
      refine ⟨hGrants, ?_⟩
      change v.moment ≤ g.now + seconds
      omega

/-- Over any order of requests, worker threads and time: a request that is admitted is neither a
mutation from another site nor, with the service credential, on a path of the operator, and its
header was verified for its credential, at that moment or within the time it is remembered.  The
maps of the gate stay within their limits. -/
theorem admitted_vouched {fresh : AuthGate} {moves : List Move}
    (hFresh : fresh.limiter.failures = [] ∧ fresh.cache.entries = [] ∧
      fresh.serviceCache.entries = [] ∧ fresh.attempts = [] ∧ fresh.verified = [])
    (hRun : (machine platform).run moves fresh = some g) :
    (∀ attempt ∈ g.attempts, ∀ credential moment, attempt.phase = .admitted credential moment →
      Guarded platform attempt.request credential ∧ ∃ v ∈ g.verified,
        v.credential = credential ∧ platform.sha256 v.header =
          platform.sha256 (attempt.request.header "authorization") ∧ v.moment ≤ moment ∧
        (v.moment = moment ∨ moment < v.moment + fresh.ttlOf credential)) ∧
    (∀ v ∈ g.verified, ∃ password,
      decodeBasic platform v.header = some (fresh.nameOf v.credential, password) ∧
      verifyPassword platform password (fresh.expected v.credential) = some true) ∧
    g.cache.entries.length ≤ fresh.cache.maxEntries ∧
    g.serviceCache.entries.length ≤ fresh.serviceCache.maxEntries ∧
    g.limiter.failures.length ≤ fresh.limiter.maxClients := by
  obtain ⟨hFailures, hCache, hService, hAttempts, hVerified⟩ := hFresh
  have hNew : Trusted platform fresh := by
    refine ⟨by simp [hVerified], fun credential entry hEntry => ?_, by simp [hAttempts],
      by simp [hCache], by simp [hService], by simp [hFailures]⟩
    cases credential with
    | operator =>
        rw [cacheOf, hCache] at hEntry
        cases hEntry
    | service =>
        rw [cacheOf, hService] at hEntry
        cases hEntry
  obtain ⟨hTrusted, hBlank⟩ : Trusted platform g ∧ g.blank = fresh.blank :=
    Coop.Machine.run_keeps (I := fun g => Trusted platform g ∧ g.blank = fresh.blank)
      (fun _ move _ hKept hStep => ⟨(hKept.1.step move hStep).1,
        (hKept.1.step move hStep).2.trans hKept.2⟩) ⟨hNew, rfl⟩ hRun
  refine ⟨fun attempt hAttempt credential moment hPhase => ?_, fun v hV => ?_, ?_, ?_, ?_⟩
  · have hKnown := hTrusted.attempts attempt hAttempt
    rw [hPhase] at hKnown
    obtain ⟨hGuarded, v, hV, hCredential, hKey, hBefore, hTime⟩ := hKnown
    rw [ttlOf_blank credential hBlank] at hTime
    exact ⟨hGuarded, v, hV, hCredential, hKey, hBefore, hTime⟩
  · exact grants_blank hBlank.symm (hTrusted.verified v hV).1
  · have hMax : g.cache.maxEntries = fresh.cache.maxEntries := congrArg (·.cache.maxEntries) hBlank
    rw [← hMax]
    exact hTrusted.cache
  · have hMax : g.serviceCache.maxEntries = fresh.serviceCache.maxEntries :=
      congrArg (·.serviceCache.maxEntries) hBlank
    rw [← hMax]
    exact hTrusted.serviceCache
  · have hMax : g.limiter.maxClients = fresh.limiter.maxClients :=
      congrArg (·.limiter.maxClients) hBlank
    rw [← hMax]
    exact hTrusted.limiter

/-- The platform on the texts of one credential: user `a`, password `b`, salt `s`. -/
def sample : Platform where
  table := ⟨fun c => [c.toLower], fun _ => true, fun _ => false, fun _ => by simp⟩
  upper t := t.map Char.toUpper
  decodeText t := if t = "YTpi".toList then some "a:b".toList else none
  b64decode t :=
    if t = "cw==".toList then some [115]
    else if t = "IHadfrS0gtCzjVqRRZtdRbhOsenfXKTeqqQgucLYHHs=".toList then
      some [32, 118, 157, 126, 180, 180, 130, 208, 179, 141, 90, 145, 69, 155, 93, 69, 184, 78, 177,
        233, 223, 92, 164, 222, 170, 164, 32, 185, 194, 216, 28, 123]
    else none
  readInt := Text.readInt?
  pbkdf2 password salt iterations :=
    if password = "b".toList ∧ salt = [115] ∧ iterations = 1 then
      some [32, 118, 157, 126, 180, 180, 130, 208, 179, 141, 90, 145, 69, 155, 93, 69, 184, 78, 177,
        233, 223, 92, 164, 222, 170, 164, 32, 185, 194, 216, 28, 123]
    else none
  sha256 t :=
    if t = "Basic YTpi".toList then
      "3b5df731e406b121bc33f7379b179c5d9273521083bbef410f70ec677f7f9a92".toList
    else []

def sampleGate : AuthGate where
  username := "a".toList
  passwordHash := "pbkdf2_sha256:1:cw==:IHadfrS0gtCzjVqRRZtdRbhOsenfXKTeqqQgucLYHHs=".toList

def sampleRequest : Request where
  method := "GET".toList
  path := "/api/x".toList
  headers := [("authorization".toList, "Basic YTpi".toList)]
  client := none
  scheme := "https".toList
  netloc := "example.org".toList

/-- The second request comes while the header of the first is remembered. -/
theorem admitted_vouched_twice : ∃ g,
    (machine sample).run [.request sampleRequest, .hashed 0, .tick 30, .request sampleRequest]
      sampleGate = some g ∧
    g.attempts.map (·.phase) = [.admitted .operator 0, .admitted .operator 30] ∧
    ∀ v ∈ g.verified, ∃ password,
      decodeBasic sample v.header = some (sampleGate.nameOf v.credential, password) ∧
      verifyPassword sample password (sampleGate.expected v.credential) = some true := by
  obtain ⟨g, hRun, hPhases⟩ : ∃ g, (machine sample).run
      [.request sampleRequest, .hashed 0, .tick 30, .request sampleRequest] sampleGate = some g ∧
      g.attempts.map (·.phase) = [.admitted .operator 0, .admitted .operator 30] := by
    refine Option.map_eq_some_iff.mp ?_
    decide
  exact ⟨g, hRun, hPhases, (admitted_vouched ⟨rfl, rfl, rfl, rfl, rfl⟩ hRun).2.1⟩

end AuthGate
end Auth
end OctoForge
