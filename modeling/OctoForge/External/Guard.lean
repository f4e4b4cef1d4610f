import OctoForge.Url

/-!
# The guard of outbound urls

A url is judged by its origin: an allowlisted one passes, and any other has to resolve to
public addresses only.
-/

namespace OctoForge
namespace External

/-- `UrlOrigin`. -/
structure Origin where
  scheme : Text
  host : Text
  port : Nat
  deriving DecidableEq, Repr

/-- `DEFAULT_PORTS`, of the schemes that are allowed. -/
def defaultPort (scheme : Text) : Option Nat :=
  if scheme = "http".toList then some 80
  else if scheme = "https".toList then some 443
  else none

/-- The origin of a url that has been split. -/
def originOf (rules : Url.Rules) (parts : Url.Split) : Option Origin := do
  let port ← parts.port
  let standard ← defaultPort parts.scheme
  let host ← parts.hostname rules
  if host.isEmpty then none else some ⟨parts.scheme, host, port.getD standard⟩

/-- `parse_origin`. -/
def parseOrigin (rules : Url.Rules) (url : Text) : Option Origin :=
  (Url.urlsplit rules url).bind (originOf rules)

/-- `matches_url_prefix`. -/
def matchesUrlPrefix (rules : Url.Rules) (url start : Text) : Bool :=
  (parseOrigin rules url).isSome && parseOrigin rules url == parseOrigin rules start

/-- `SsrfGuard`, and what it asks of the network. -/
structure Guard where
  allowedOrigins : List Origin
  /-- The addresses of a host; `none` when it does not resolve. -/
  resolve : Text → Option (List Text)
  /-- `_is_blocked`, of an address as it is written; `none` when it is no address. -/
  isBlocked : Text → Option Bool

/-- The addresses of a host are all public. -/
def checkAddresses (guard : Guard) (url host : Text) : Except Text Unit :=
  match guard.resolve host with
  | none | some [] => .error ("host does not resolve: ".toList ++ host)
  | some addresses =>
      addresses.forM fun address =>
        match guard.isBlocked address with
        | none => .error (address ++ " does not appear to be an IPv4 or IPv6 address".toList)
        | some true => .error ("url resolves to a non-public address: ".toList ++ url)
        | some false => .ok ()

/-- `check`. -/
def Guard.check (guard : Guard) (rules : Url.Rules) (url : Text) : Except Text Unit :=
  match parseOrigin rules url with
  | none => .error ("url is not a valid http(s) url: ".toList ++ url)
  | some origin =>
      if origin ∈ guard.allowedOrigins then .ok () else checkAddresses guard url origin.host

theorem Guard.origin_of_check {guard : Guard} {rules : Url.Rules} {url : Text}
    (hCheck : guard.check rules url = .ok ()) : ∃ origin, parseOrigin rules url = some origin := by
  unfold Guard.check at hCheck
  cases hOrigin : parseOrigin rules url with
  | none => simp [hOrigin] at hCheck
  | some origin => exact ⟨origin, rfl⟩

/-! ## Urls of one authority -/

section Authority

variable {rules : Url.Rules} {parts others : Url.Split} {url other : Text}

theorem hostAndPort_congr (hNetloc : parts.netloc = others.netloc) :
    parts.hostAndPort = others.hostAndPort := by
  rw [Url.Split.hostAndPort, Url.Split.hostAndPort, Url.Split.hostinfo, Url.Split.hostinfo, hNetloc]

theorem hostname_congr (hNetloc : parts.netloc = others.netloc) :
    parts.hostname rules = others.hostname rules := by
  rw [Url.Split.hostname, Url.Split.hostname, hostAndPort_congr hNetloc]

theorem originOf_congr (hScheme : parts.scheme = others.scheme)
    (hNetloc : parts.netloc = others.netloc) : originOf rules parts = originOf rules others := by
  have hPort : parts.port = others.port := by
    rw [Url.Split.port, Url.Split.port, hostAndPort_congr hNetloc]
  rw [originOf, originOf, hPort, hScheme, hostname_congr hNetloc]

/-- Two urls of one authority are both split, or neither is. -/
theorem urlsplit_cases (hSame : Url.authority rules url = Url.authority rules other) :
    (Url.urlsplit rules url = none ∧ Url.urlsplit rules other = none) ∨
      ∃ parts others, Url.urlsplit rules url = some parts ∧
        Url.urlsplit rules other = some others ∧ parts.scheme = others.scheme ∧
        parts.netloc = others.netloc := by
  unfold Url.authority at hSame
  cases hUrl : Url.urlsplit rules url with
  | none =>
      cases hOther : Url.urlsplit rules other with
      | none => exact .inl ⟨rfl, rfl⟩
      | some others => simp [hUrl, hOther] at hSame
  | some parts =>
      cases hOther : Url.urlsplit rules other with
      | none => simp [hUrl, hOther] at hSame
      | some others =>
          rw [hUrl, hOther, Option.map_some, Option.map_some, Option.some.injEq,
            Prod.mk.injEq] at hSame
          exact .inr ⟨parts, others, rfl, rfl, hSame⟩

theorem parseOrigin_congr (hSame : Url.authority rules url = Url.authority rules other) :
    parseOrigin rules url = parseOrigin rules other := by
  rcases urlsplit_cases hSame with ⟨hUrl, hOther⟩ | ⟨parts, others, hUrl, hOther, hScheme, hNetloc⟩
  · rw [parseOrigin, parseOrigin, hUrl, hOther]
  · rw [parseOrigin, parseOrigin, hUrl, hOther]
    exact originOf_congr hScheme hNetloc

/-- A url that has an origin has one of the two schemes, and a netloc. -/
theorem parts_of_origin {origin : Origin} (hOrigin : parseOrigin rules url = some origin) :
    ∃ parts, Url.urlsplit rules url = some parts ∧ parts.netloc ≠ [] ∧
      (parts.scheme = "http".toList ∨ parts.scheme = "https".toList) := by
  obtain ⟨parts, hSplit, hOf⟩ := Option.bind_eq_some_iff.mp hOrigin
  obtain ⟨port, -, hOf⟩ := Option.bind_eq_some_iff.mp hOf
  obtain ⟨standard, hStandard, hOf⟩ := Option.bind_eq_some_iff.mp hOf
  obtain ⟨host, hHost, -⟩ := Option.bind_eq_some_iff.mp hOf
  refine ⟨parts, hSplit, ?_, ?_⟩
  · intro hEmpty
    have hNone : parts.hostname rules = none := by
      simp [Url.Split.hostname, Url.Split.hostAndPort, Url.Split.hostinfo, hEmpty, Url.cut]
    rw [hNone] at hHost
    cases hHost
  · unfold defaultPort at hStandard
    split at hStandard
    · rename_i hHttp
      exact .inl hHttp
    · split at hStandard
      · rename_i hHttps
        exact .inr hHttps
      · cases hStandard

end Authority

end External
end OctoForge
