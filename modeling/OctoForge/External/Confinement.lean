import OctoForge.External.Run

/-!
# Where secrets go

The guard and the host of a secret are judged on a url that has sentinels in the place of its
secrets, and what is sent is that url with the sentinels replaced.  A sentinel has none of the
characters that delimit an authority and stands behind it, so that both urls have one authority;
and each part of a request is what it would be if the secrets that may not go there were not
there at all.
-/

namespace OctoForge
namespace External

open Collections Fallible

/-! ## Sentinels -/

/-- A text that `_sentinels` may draw. -/
def IsSentinel (t : Text) : Prop := ∃ uuid : Uuid, t = "of-secret-".toList ++ uuid.hex

section Sentinels

variable {sentinel : Text}

theorem isSentinel_of_mem {env : Env} {plan : Plan} {entry : Text × Text}
    (hMem : entry ∈ sentinels env plan) : IsSentinel entry.2 := by
  obtain ⟨code, -, rfl⟩ := List.mem_map.mp hMem
  exact ⟨env.uuid code, rfl⟩

theorem IsSentinel.chars (hSentinel : IsSentinel sentinel) :
    ∀ c ∈ sentinel, c.isAlphanum = true ∨ c = '-' := by
  obtain ⟨uuid, rfl⟩ := hSentinel
  intro c hMem
  rcases List.mem_append.mp hMem with hWord | hHex
  · have hAll : ∀ c ∈ "of-secret-".toList, c.isAlphanum = true ∨ c = '-' :=
      Text.forall_mem_of_all (by decide)
    exact hAll c hWord
  · exact .inl (List.all_eq_true.mp uuid.isHex c hHex)

theorem IsSentinel.not_mem (hSentinel : IsSentinel sentinel) {c : Char}
    (hOther : c.isAlphanum = false) (hDash : c ≠ '-') : c ∉ sentinel := by
  intro hMem
  rcases hSentinel.chars c hMem with hAlphanum | hSame
  · rw [hOther] at hAlphanum
    cases hAlphanum
  · exact hDash hSame

theorem IsSentinel.length (hSentinel : IsSentinel sentinel) : 10 ≤ sentinel.length := by
  obtain ⟨uuid, rfl⟩ := hSentinel
  rw [List.length_append]
  exact Nat.le_add_right 10 _

theorem IsSentinel.delimiter (hSentinel : IsSentinel sentinel) {c : Char}
    (hDelimiter : Url.isDelimiter c = true) : c ∉ sentinel := by
  simp only [Url.isDelimiter, Bool.or_eq_true, beq_iff_eq] at hDelimiter
  rcases hDelimiter with (rfl | rfl) | rfl
  · exact hSentinel.not_mem rfl (by decide)
  · exact hSentinel.not_mem rfl (by decide)
  · exact hSentinel.not_mem rfl (by decide)

theorem isLeading_of_alphanum {c : Char} (hChar : c.isAlphanum = true ∨ c = '-') :
    Url.isLeading c = false := by
  rcases hChar with hAlphanum | rfl
  · have hLow : 48 ≤ c.toNat := by
      delta Char.isAlphanum Char.isAlpha Char.isUpper Char.isLower Char.isDigit at hAlphanum
      simp only [Bool.or_eq_true, Bool.and_eq_true, decide_eq_true_eq, UInt32.le_iff_toNat_le,
        ge_iff_le] at hAlphanum
      rcases hAlphanum with (⟨hFrom, -⟩ | ⟨hFrom, -⟩) | ⟨hFrom, -⟩
      · exact Nat.le_trans (by decide) hFrom
      · exact Nat.le_trans (by decide) hFrom
      · exact hFrom
    simp only [Url.isLeading, decide_eq_false_iff_not]
    omega
  · rfl

theorem isRemoved_of_alphanum {c : Char} (hChar : c.isAlphanum = true ∨ c = '-') :
    Url.isRemoved c = false := by
  cases hRemoved : Url.isRemoved c with
  | false => rfl
  | true =>
      simp only [Url.isRemoved, Bool.or_eq_true, beq_iff_eq] at hRemoved
      rcases hRemoved with (rfl | rfl) | rfl <;> simp at hChar

/-- Cleaning a text leaves the sentinels of it. -/
theorem IsSentinel.infix_clean (hSentinel : IsSentinel sentinel) {t : Text}
    (hInfix : sentinel <:+: t) : sentinel <:+: Url.clean t := by
  have hSome : sentinel ≠ [] := List.ne_nil_of_length_pos (by have := hSentinel.length; omega)
  have hDrop := Text.infix_dropWhile hSome
    (fun c hMem => isLeading_of_alphanum (hSentinel.chars c hMem)) hInfix
  have hFilter := hDrop.filter fun c => !Url.isRemoved c
  have hKept : sentinel.filter (fun c => !Url.isRemoved c) = sentinel :=
    List.filter_eq_self.mpr fun c hMem => by
      rw [isRemoved_of_alphanum (hSentinel.chars c hMem), Bool.not_false]
  rw [hKept] at hFilter
  exact hFilter

theorem IsSentinel.infix_cons (hSentinel : IsSentinel sentinel) {c : Char} {t : Text}
    (hMem : c ∉ sentinel) (hInfix : sentinel <:+: c :: t) : sentinel <:+: t := by
  rcases List.infix_cons_iff.mp hInfix with hPrefix | hRest
  · have hLong := hSentinel.length
    cases sentinel with
    | nil => simp at hLong
    | cons first rest =>
        obtain ⟨rfl, -⟩ := List.cons_prefix_cons.mp hPrefix
        exact absurd List.mem_cons_self hMem
  · exact hRest

/-- A sentinel that is not in the netloc is nowhere before the end of it. -/
theorem IsSentinel.not_infix_front (hSentinel : IsSentinel sentinel) {front scheme netloc : Text}
    (hClean : Url.clean front = scheme ++ ':' :: '/' :: '/' :: netloc)
    (hShort : scheme.length < 10) (hNetloc : Text.has netloc sentinel = false) :
    ¬sentinel <:+: front := by
  have hNot : ¬sentinel <:+: netloc := by simpa [Text.has] using hNetloc
  have hSlash : '/' ∉ sentinel := hSentinel.delimiter rfl
  intro hInfix
  have hHere := hSentinel.infix_clean hInfix
  rw [hClean] at hHere
  rcases Text.infix_append_cons (hSentinel.not_mem rfl (by decide)) hHere with hScheme | hRest
  · have hLong := hSentinel.length
    have hLe := hScheme.length_le
    omega
  · exact hNot (hSentinel.infix_cons hSlash (hSentinel.infix_cons hSlash hRest))

end Sentinels

/-! ## The authority of the sent url -/

section Substitution

variable {rules : Url.Rules} {resolved : Resolved} {front back netloc safeUrl url : Text}
  {entries : Params}

/-- One replacement, behind the authority. -/
theorem replace_back {sentinel : Text} (hSentinel : IsSentinel sentinel)
    (hFront : ¬sentinel <:+: front) (hBack : Url.IsTail back) (value : Text) :
    ∃ after, Text.replace (front ++ back) sentinel value = front ++ after ∧ Url.IsTail after := by
  cases back with
  | nil =>
      refine ⟨[], ?_, hBack⟩
      rw [List.append_nil, Text.replace_of_not_infix hFront]
  | cons c rest =>
      have hDelimiter := hBack c rfl
      refine ⟨c :: Text.replace rest sentinel value, ?_, Url.isTail_cons hDelimiter⟩
      rw [Text.replace_append_cons (hSentinel.delimiter hDelimiter),
        Text.replace_of_not_infix hFront]

theorem substituteFrom_back (hEntries : ∀ entry ∈ entries, IsSentinel entry.2)
    (hFront : ∀ sentinel, IsSentinel sentinel → Text.has netloc sentinel = false →
      ¬sentinel <:+: front)
    (hBack : Url.IsTail back)
    (hUrl : substituteFrom netloc resolved (front ++ back) entries = .ok url) :
    ∃ after, url = front ++ after ∧ Url.IsTail after := by
  induction entries generalizing back with
  | nil => exact ⟨back, (Except.ok.inj hUrl).symm, hBack⟩
  | cons entry rest ih =>
      obtain ⟨code, sentinel⟩ := entry
      have hSentinel : IsSentinel sentinel := hEntries (code, sentinel) List.mem_cons_self
      rw [substituteFrom] at hUrl
      split at hUrl
      · cases hUrl
      · rename_i hHas
        have hNot := hFront sentinel hSentinel (Bool.eq_false_iff.mpr hHas)
        obtain ⟨after, hReplace, hAfter⟩ :=
          replace_back hSentinel hNot hBack (Url.quote (valueOf resolved code))
        rw [hReplace] at hUrl
        exact ih (fun other hOther => hEntries other (List.mem_cons_of_mem _ hOther)) hAfter hUrl

theorem scheme_short {scheme : Text} (hScheme : scheme = "http".toList ∨ scheme = "https".toList) :
    scheme ≠ [] ∧ scheme.length < 10 := by
  rcases hScheme with rfl | rfl <;> decide

/-- Putting the secrets into a url that has an origin leaves its scheme and its netloc. -/
theorem authority_of_substitute {origin : Origin} {env : Env} {plan : Plan}
    (hOrigin : parseOrigin rules safeUrl = some origin)
    (hUrl : substituteUrlSecrets rules safeUrl (sentinels env plan) resolved = .ok url) :
    Url.authority rules url = Url.authority rules safeUrl := by
  obtain ⟨parts, hSplit, hNetloc, hScheme⟩ := parts_of_origin hOrigin
  obtain ⟨hSome, hLength⟩ := scheme_short hScheme
  obtain ⟨front, back, scheme, rfl, hBack, hClean, hLower, hOpens⟩ :=
    Url.exists_front hSplit hSome hNetloc
  have hShort : scheme.length < 10 := by rwa [hLower, List.length_map] at hLength
  have hNetlocOf : netlocOf rules (front ++ back) = parts.netloc := by
    rw [netlocOf, hSplit]
    rfl
  rw [substituteUrlSecrets, hNetlocOf] at hUrl
  obtain ⟨after, rfl, hAfter⟩ := substituteFrom_back (fun entry => isSentinel_of_mem)
    (fun sentinel hSentinel => hSentinel.not_infix_front hClean hShort) hBack hUrl
  rw [Url.authority_append hOpens hAfter, Url.authority_append hOpens hBack]

theorem hostOf_congr {other : Text} (hSame : Url.authority rules url = Url.authority rules other) :
    hostOf rules url = hostOf rules other := by
  rcases urlsplit_cases hSame with ⟨hUrl, hOther⟩ | ⟨parts, others, hUrl, hOther, -, hNetloc⟩
  · rw [hostOf, hostOf, hUrl, hOther]
  · rw [hostOf, hostOf, hUrl, hOther, Option.bind_some, Option.bind_some, hostname_congr hNetloc]

end Substitution

/-! ## The secrets that may go into a part -/

/-- The secrets that may go into a part of a request. -/
def placedIn (part : SecretPlacement) (resolved : Resolved) : Resolved :=
  resolved.filter fun secret => secret.2.placements.contains part

/-- A secret that has been resolved, and that may go into a part. -/
def Placed (resolved : Resolved) (part : SecretPlacement) (code : Text) : Prop :=
  ∃ secret, resolved.lookup code = some secret ∧ part ∈ secret.placements

section Placed

variable {resolved : Resolved} {part : SecretPlacement} {code : Text}

theorem enforcePlacement_eq_ok :
    enforcePlacement resolved part code = .ok () ↔ Placed resolved part code := by
  unfold enforcePlacement Placed
  cases hLookup : resolved.lookup code with
  | none => simp
  | some secret =>
      by_cases hMem : part ∈ secret.placements <;> simp [hMem]

theorem lookup_placedIn (hPlaced : Placed resolved part code) :
    (placedIn part resolved).lookup code = resolved.lookup code := by
  obtain ⟨secret, hLookup, hMem⟩ := hPlaced
  induction resolved with
  | nil => cases hLookup
  | cons first rest ih =>
      obtain ⟨name, found⟩ := first
      rw [List.lookup_cons] at hLookup
      rw [List.lookup_cons]
      cases hSame : code == name with
      | true =>
          simp only [hSame] at hLookup ⊢
          obtain rfl := Option.some.inj hLookup
          rw [placedIn, List.filter_cons_of_pos (by simpa using hMem), List.lookup_cons, hSame]
      | false =>
          simp only [hSame] at hLookup ⊢
          rw [← ih hLookup, placedIn, List.filter_cons]
          split
          · rw [List.lookup_cons, hSame]
            rfl
          · rfl

/-- The value of a secret, under the name of its field. -/
theorem lookup_secretField : (resolved.map fun secret =>
    (secretField secret.1, secret.2.value)).lookup (secretField code) =
      (resolved.lookup code).map (·.value) := by
  induction resolved with
  | nil => rfl
  | cons first rest ih =>
      rw [List.map_cons, List.lookup_cons, List.lookup_cons]
      by_cases hSame : code = first.1
      · simp [hSame]
      · have hField : secretField code ≠ secretField first.1 := fun hEq =>
          hSame (secretField_injective hEq)
        simp [beq_false_of_ne hSame, beq_false_of_ne hField, ih]

variable {params userValues : Params}

/-- The value of a name, by the secrets that may go into the part alone. -/
theorem renderValues_placedIn {name : Text}
    (hPlaced : ∀ code, name = secretField code → Placed resolved part code) :
    renderValues params userValues (placedIn part resolved) name =
      renderValues params userValues resolved name := by
  unfold renderValues
  by_cases hSecret : ∃ code, name = secretField code
  · obtain ⟨code, rfl⟩ := hSecret
    rw [lookup_secretField, lookup_secretField, lookup_placedIn (hPlaced code rfl)]
  · have hOther : ∀ code, name ≠ secretField code := fun code hName => hSecret ⟨code, hName⟩
    rw [lookup_other hOther, lookup_other hOther]

theorem renderTemplate_placedIn {template : Text} {refs : TemplateRefs}
    (hRefs : collectRefs template = .ok refs)
    (hPlaced : ∀ code ∈ refs.secrets, Placed resolved part code) :
    renderTemplate template (renderValues params userValues (placedIn part resolved)) =
      renderTemplate template (renderValues params userValues resolved) :=
  renderTemplate_congr hRefs fun _ hName =>
    renderValues_placedIn fun code hSecret => hPlaced code (hSecret ▸ hName).secret

/-- The url, by the secrets that may go into it alone. -/
theorem substituteFrom_placedIn {netloc : Text} {entries : Params}
    (hPlaced : ∀ entry ∈ entries, Placed resolved part entry.1) :
    ∀ url, substituteFrom netloc (placedIn part resolved) url entries =
      substituteFrom netloc resolved url entries := by
  induction entries with
  | nil => exact fun _ => rfl
  | cons entry rest ih =>
      intro url
      have hValue : valueOf (placedIn part resolved) entry.1 = valueOf resolved entry.1 := by
        rw [valueOf, valueOf, lookup_placedIn (hPlaced entry List.mem_cons_self)]
      have hRest := ih fun other hOther => hPlaced other (List.mem_cons_of_mem _ hOther)
      rw [substituteFrom, substituteFrom, hValue]
      simp only [hRest]

end Placed

/-! ## The references of a plan -/

section Plan

variable {spec : ToolSpec} {plan : Plan} {resolved : Resolved} {code : Text}

theorem collectPlan_ok (hPlan : collectPlan spec = .ok plan) :
    collectRefs spec.urlTemplate = .ok plan.urlRefs ∧
      bodyRefs spec.bodyTemplate = .ok plan.bodyRefs ∧
      spec.headers.mapM headerRefs = .ok plan.headerRefs := by
  obtain ⟨url, hUrl, hPlan⟩ := bind_eq_ok.mp hPlan
  obtain ⟨body, hBody, hPlan⟩ := bind_eq_ok.mp hPlan
  obtain ⟨headers, hHeaders, hPlan⟩ := bind_eq_ok.mp hPlan
  obtain rfl := Except.ok.inj hPlan
  exact ⟨hUrl, hBody, hHeaders⟩

/-- What the references of headers have in a part, they have one after the other. -/
theorem foldl_union (part : TemplateRefs → List Text)
    (hUnion : ∀ refs other : TemplateRefs, part (refs.union other) = part refs ++ part other)
    (all : List (Text × TemplateRefs)) (refs : TemplateRefs) :
    part (all.foldl (fun refs header => refs.union header.2) refs) =
      part refs ++ all.flatMap fun header => part header.2 := by
  induction all generalizing refs with
  | nil => rw [List.foldl_nil, List.flatMap_nil, List.append_nil]
  | cons first rest ih => rw [List.foldl_cons, ih, hUnion, List.flatMap_cons, List.append_assoc]

/-- The references of one header are references of the headers. -/
theorem refs_of_header (hPlan : collectPlan spec = .ok plan) {header : Text × Text}
    (hHeader : header ∈ spec.headers) :
    ∃ refs, collectRefs header.2 = .ok refs ∧ refs.secrets ⊆ plan.headers.secrets ∧
      refs.userParams ⊆ plan.headers.userParams := by
  obtain ⟨-, -, hHeaders⟩ := collectPlan_ok hPlan
  obtain ⟨entry, hEntry, hRefs⟩ := result_of_mapM hHeaders header hHeader
  obtain ⟨refs, hCollect, rfl⟩ := map_eq_ok.mp hRefs
  refine ⟨refs, hCollect, fun code hCode => ?_, fun code hCode => ?_⟩
  · rw [Plan.headers, foldl_union (·.secrets) fun _ _ => rfl]
    exact List.mem_append_right _ (List.mem_flatMap.mpr ⟨(header.1, refs), hEntry, hCode⟩)
  · rw [Plan.headers, foldl_union (·.userParams) fun _ _ => rfl]
    exact List.mem_append_right _ (List.mem_flatMap.mpr ⟨(header.1, refs), hEntry, hCode⟩)

theorem mem_combined : code ∈ plan.combined.secrets ↔
    code ∈ plan.urlRefs.secrets ∨ code ∈ plan.bodyRefs.secrets ∨ code ∈ plan.headers.secrets := by
  rw [Plan.combined, TemplateRefs.union, TemplateRefs.union]
  simp only [List.mem_append, or_assoc]

/-- Each secret of a plan may go where its template puts it. -/
structure InPlace (plan : Plan) (resolved : Resolved) : Prop where
  url : ∀ code ∈ plan.urlRefs.secrets, Placed resolved .url code
  body : ∀ code ∈ plan.bodyRefs.secrets, Placed resolved .body code
  headers : ∀ code ∈ plan.headers.secrets, Placed resolved .header code

theorem forM_enforcePlacement {part : SecretPlacement} {codes : List Text} :
    (sorted codes).forM (enforcePlacement resolved part) = .ok () ↔
      ∀ code ∈ codes, Placed resolved part code := by
  rw [forM_eq_ok]
  simp only [mem_sorted, enforcePlacement_eq_ok]

theorem enforcePlacements_eq_ok :
    enforcePlacements plan resolved = .ok () ↔ InPlace plan resolved := by
  unfold enforcePlacements
  rw [bind_eq_ok]
  constructor
  · rintro ⟨⟨⟩, hUrl, hRest⟩
    obtain ⟨⟨⟩, hBody, hHeaders⟩ := bind_eq_ok.mp hRest
    exact ⟨forM_enforcePlacement.mp hUrl, forM_enforcePlacement.mp hBody,
      forM_enforcePlacement.mp hHeaders⟩
  · rintro ⟨hUrl, hBody, hHeaders⟩
    exact ⟨(), forM_enforcePlacement.mpr hUrl, bind_eq_ok.mpr
      ⟨(), forM_enforcePlacement.mpr hBody, forM_enforcePlacement.mpr hHeaders⟩⟩

end Plan

/-! ## The host of a secret -/

/-- A stored secret of a user, as it is put into a request to a host. -/
structure Bound (vault : Vault) (row : SecretRow) (user host : Text)
    (secret : Text × ResolvedSecret) : Prop where
  owner : row.userId = user
  code : normalizeCode vault secret.1 = .ok row.code
  /-- The host, as it is compared, is one that the secret is bound to. -/
  binding : ∃ target, normalizeHost vault.lower host = .ok target ∧
    hostMatches vault.lower row.allowedHost target = true
  plain : row.plain = some secret.2.plain
  value : transformed vault row.transform secret.2.plain = .ok secret.2.value
  placements : secret.2.placements = placementsFromColumn row.placements

section Binding

variable {d : Deployment} {env : Env} {plan : Plan} {vault : Vault} {rows : List SecretRow}
  {user host code url : Text} {owner : Option Text} {secret : Text × ResolvedSecret}
  {resolved : Resolved}

theorem resolveRow_ok {row : SecretRow} {target : Text} {found : ResolvedSecret}
    (hResolve : resolveRow vault row target = .ok found) :
    hostMatches vault.lower row.allowedHost target = true ∧ row.plain = some found.plain ∧
      transformed vault row.transform found.plain = .ok found.value ∧
      found.placements = placementsFromColumn row.placements := by
  unfold resolveRow at hResolve
  split at hResolve
  · rename_i hMatches
    cases hPlain : row.plain with
    | none => simp [hPlain] at hResolve
    | some plain =>
        simp only [hPlain] at hResolve
        obtain ⟨value, hValue, rfl⟩ := map_eq_ok.mp hResolve
        exact ⟨hMatches, rfl, hValue, rfl⟩
  · cases hResolve

theorem bound_of_resolve {found : ResolvedSecret}
    (hResolve : resolve vault rows user code host = .ok found) :
    ∃ row ∈ rows, Bound vault row user host (code, found) := by
  obtain ⟨name, hName, hResolve⟩ := bind_eq_ok.mp hResolve
  cases hHost : normalizeHost vault.lower host with
  | error message =>
      simp only [hHost] at hResolve
      cases hResolve
  | ok target =>
      simp only [hHost] at hResolve
      obtain ⟨host, hSame, hResolve⟩ := bind_eq_ok.mp hResolve
      obtain rfl := Except.ok.inj hSame
      cases hFind : findRow rows user name with
      | none => simp [hFind] at hResolve
      | some row =>
          have hRow := List.find?_some hFind
          simp only [Bool.and_eq_true, beq_iff_eq] at hRow
          simp only [hFind] at hResolve
          obtain ⟨hMatches, hPlain, hValue, hPlacements⟩ := resolveRow_ok hResolve
          exact ⟨row, List.mem_of_find?_eq_some hFind,
            ⟨hRow.1, hName.trans (by rw [hRow.2]), ⟨target, hHost, hMatches⟩, hPlain, hValue,
              hPlacements⟩⟩

theorem bound_of_resolveSecret (hResolve : resolveSecret vault rows user host code = .ok secret) :
    secret.1 = code ∧ ∃ row ∈ rows, Bound vault row user host secret := by
  unfold resolveSecret at hResolve
  split at hResolve
  · rename_i found hFound
    obtain rfl := Except.ok.inj hResolve
    exact ⟨rfl, bound_of_resolve hFound⟩
  · cases hResolve
  · cases hResolve
  · cases hResolve

/-- What is known of the secrets of a request, once they are resolved. -/
structure ResolvedFor (d : Deployment) (env : Env) (plan : Plan) (url : Text) (user : Option Text)
    (resolved : Resolved) : Prop where
  complete : ∀ code ∈ plan.combined.secrets, ∃ secret ∈ resolved, secret.1 = code
  bound : ∀ secret ∈ resolved, ∃ rows owner row, env.secrets = some rows ∧ user = some owner ∧
    row ∈ rows ∧ Bound d.vault row owner (hostOf d.rules url) secret
  inPlace : InPlace plan resolved

theorem resolvedFor_of_resolveSecrets
    (hResolve : resolveSecrets d env plan url owner = .ok resolved) :
    ResolvedFor d env plan url owner resolved := by
  unfold resolveSecrets at hResolve
  simp only at hResolve
  split at hResolve
  · rename_i hEmpty
    obtain rfl := Except.ok.inj hResolve
    have hNone : ∀ code, code ∉ plan.combined.secrets := by
      intro code hCode
      have hMem := mem_sorted.mpr hCode
      rw [List.isEmpty_iff.mp hEmpty] at hMem
      cases hMem
    refine ⟨fun code hCode => absurd hCode (hNone code), List.forall_mem_nil _, ?_, ?_, ?_⟩
    · exact fun code hCode => absurd (mem_combined.mpr (.inl hCode)) (hNone code)
    · exact fun code hCode => absurd (mem_combined.mpr (.inr (.inl hCode))) (hNone code)
    · exact fun code hCode => absurd (mem_combined.mpr (.inr (.inr hCode))) (hNone code)
  · split at hResolve
    · cases hResolve
    · cases hResolve
    · rename_i rows user hSecrets
      obtain ⟨found, hFound, hResolve⟩ := bind_eq_ok.mp hResolve
      obtain ⟨⟨⟩, hPlaced, hResolve⟩ := bind_eq_ok.mp hResolve
      obtain rfl := Except.ok.inj hResolve
      refine ⟨fun code hCode => ?_, fun secret hSecret => ?_, enforcePlacements_eq_ok.mp hPlaced⟩
      · obtain ⟨secret, hSecret, hOne⟩ := result_of_mapM hFound code (mem_sorted.mpr hCode)
        exact ⟨secret, hSecret, (bound_of_resolveSecret hOne).1⟩
      · obtain ⟨code, -, hOne⟩ := item_of_mapM hFound secret hSecret
        obtain ⟨-, row, hRow, hBound⟩ := bound_of_resolveSecret hOne
        exact ⟨rows, user, row, hSecrets, rfl, hRow, hBound⟩

end Binding

/-! ## The parts of a request -/

section Parts

variable {d : Deployment} {spec : ToolSpec} {plan : Plan} {resolved : Resolved}
  {params stored : Params} {user : Option Text} {url safeUrl : Text}

theorem renderHeader_placedIn (hPlan : collectPlan spec = .ok plan)
    (hPlace : InPlace plan resolved) {header : Text × Text} (hHeader : header ∈ spec.headers) :
    renderHeader d.reader (renderValues params stored (placedIn .header resolved)) header =
      renderHeader d.reader (renderValues params stored resolved) header := by
  obtain ⟨refs, hRefs, hSecrets, -⟩ := refs_of_header hPlan hHeader
  have hSame : renderTemplate header.2 (renderValues params stored (placedIn .header resolved)) =
      renderTemplate header.2 (renderValues params stored resolved) :=
    renderTemplate_placedIn hRefs fun code hCode => hPlace.headers code (hSecrets hCode)
  unfold renderHeader
  rw [hSame]

/-- The headers are those of any url of the same origin, by the secrets that may go into them. -/
theorem buildHeaders_placedIn (hPlan : collectPlan spec = .ok plan)
    (hPlace : InPlace plan resolved)
    (hOrigin : parseOrigin d.rules url = parseOrigin d.rules safeUrl) :
    buildHeaders d spec plan safeUrl user (renderValues params stored (placedIn .header resolved)) =
      buildHeaders d spec plan url user (renderValues params stored resolved) := by
  have hAuth : authHeadersFor d safeUrl user = authHeadersFor d url user := by
    unfold authHeadersFor matchesUrlPrefix
    rw [hOrigin]
  have hRendered : spec.headers.mapM
        (renderHeader d.reader (renderValues params stored (placedIn .header resolved))) =
      spec.headers.mapM (renderHeader d.reader (renderValues params stored resolved)) :=
    mapM_congr fun header hHeader => renderHeader_placedIn hPlan hPlace hHeader
  unfold buildHeaders
  rw [hAuth, hRendered]

theorem renderBody_placedIn (hPlan : collectPlan spec = .ok plan)
    (hPlace : InPlace plan resolved) :
    renderBody spec (renderValues params stored (placedIn .body resolved)) =
      renderBody spec (renderValues params stored resolved) := by
  obtain ⟨-, hBody, -⟩ := collectPlan_ok hPlan
  unfold renderBody
  cases hTemplate : spec.bodyTemplate with
  | none => rfl
  | some template =>
      rw [hTemplate] at hBody
      have hSame : renderTemplate template (renderValues params stored (placedIn .body resolved)) =
          renderTemplate template (renderValues params stored resolved) :=
        renderTemplate_placedIn hBody hPlace.body
      simp only [hSame]

end Parts

/-! ## Confinement -/

/-- Where a request goes, and what it has in it of the secrets of the user. -/
structure Confined (d : Deployment) (env : Env) (spec : ToolSpec) (plan : Plan) (params : Params)
    (user : Option Text) (stored : Params) (safeUrl : Text) (prepared : Prepared) : Prop where
  /-- The url with sentinels is made of the values of the user and of the params. -/
  values : userValues env plan user = .ok stored
  rendered : renderUrl spec params stored (underFields (sentinels env plan)) = .ok safeUrl
  guarded : env.guard.check d.rules safeUrl = .ok ()
  /-- The url that is sent has the scheme, the host and the port that the guard has judged. -/
  origin : ∃ origin, parseOrigin d.rules safeUrl = some origin ∧
    parseOrigin d.rules prepared.request.url = some origin
  authority : Url.authority d.rules prepared.request.url = Url.authority d.rules safeUrl
  /-- Each secret is bound to the host of the url that is sent, and may go where it is put. -/
  secrets : ResolvedFor d env plan prepared.request.url user prepared.resolved
  /-- The url is what the secrets that may go into a url make of it, and so on for each part. -/
  url : substituteUrlSecrets d.rules safeUrl (sentinels env plan)
    (placedIn .url prepared.resolved) = .ok prepared.request.url
  headers : buildHeaders d spec plan safeUrl user
    (renderValues params stored (placedIn .header prepared.resolved)) =
      .ok prepared.request.headers
  body : renderBody spec (renderValues params stored (placedIn .body prepared.resolved)) =
    .ok prepared.request.body

theorem confined_of_prepare {d : Deployment} {env : Env} {spec : ToolSpec} {plan : Plan}
    {params : Params} {user : Option Text} {prepared : Prepared}
    (hPlan : collectPlan spec = .ok plan)
    (hPrepare : prepare d env spec plan params user = .ok prepared) :
    ∃ stored safeUrl, Confined d env spec plan params user stored safeUrl prepared := by
  obtain ⟨stored, hStored, hPrepare⟩ := bind_eq_ok.mp hPrepare
  obtain ⟨safeUrl, hSafe, hPrepare⟩ := bind_eq_ok.mp hPrepare
  obtain ⟨⟨⟩, hGuard, hPrepare⟩ := bind_eq_ok.mp hPrepare
  obtain ⟨resolved, hResolved, hPrepare⟩ := bind_eq_ok.mp hPrepare
  obtain ⟨url, hUrl, hPrepare⟩ := bind_eq_ok.mp hPrepare
  obtain ⟨headers, hHeaders, hPrepare⟩ := bind_eq_ok.mp hPrepare
  obtain ⟨body, hBody, hPrepare⟩ := bind_eq_ok.mp hPrepare
  obtain rfl := Except.ok.inj hPrepare
  obtain ⟨origin, hOrigin⟩ := Guard.origin_of_check hGuard
  have hAuthority := authority_of_substitute hOrigin hUrl
  have hSameOrigin := parseOrigin_congr hAuthority
  have hFor := resolvedFor_of_resolveSecrets hResolved
  refine ⟨stored, safeUrl, hStored, hSafe, hGuard, ⟨origin, hOrigin, hSameOrigin.trans hOrigin⟩,
    hAuthority, ⟨hFor.complete, ?_, hFor.inPlace⟩, ?_, ?_, ?_⟩
  · rw [hostOf_congr hAuthority]
    exact hFor.bound
  · have hEntries : ∀ entry ∈ sentinels env plan, Placed resolved .url entry.1 := by
      intro entry hEntry
      obtain ⟨code, hCode, rfl⟩ := List.mem_map.mp hEntry
      exact hFor.inPlace.url code (List.mem_dedup.mp hCode)
    rw [substituteUrlSecrets, substituteFrom_placedIn hEntries]
    exact hUrl
  · rw [buildHeaders_placedIn hPlan hFor.inPlace hSameOrigin]
    exact hHeaders
  · rw [renderBody_placedIn hPlan hFor.inPlace]
    exact hBody

theorem confined_of_mem_sent {s : Service} {env : Nat → Env} {name content : Text}
    {params : RawParams} {user : Option Text} {options : CallOptions} {tables : Tables}
    {request : Sent} (hSent : request ∈ s.sent env name content params user options tables) :
    ∃ spec plan stored safeUrl,
      parseToolSpec s.deployment.reader content = .ok spec ∧ collectPlan spec = .ok plan ∧
        Confined s.deployment (env request.index) spec plan request.params user stored safeUrl
          request.prepared := by
  obtain ⟨spec, plan, validated, hSpec, hPlan, -, -, hPrepare⟩ := mem_sent hSent
  obtain ⟨stored, safeUrl, hConfined⟩ := confined_of_prepare hPlan hPrepare
  exact ⟨spec, plan, stored, safeUrl, hSpec, hPlan, hConfined⟩

/-- No request is sent but to the hosts of its secrets, and with each of them only where it may
go. -/
theorem sent_confined (s : Service) (env : Nat → Env) (name content : Text) (params : RawParams)
    (user : Option Text) (options : CallOptions) (tables : Tables) :
    ∀ request ∈ s.sent env name content params user options tables, ∃ spec plan stored safeUrl,
      parseToolSpec s.deployment.reader content = .ok spec ∧ collectPlan spec = .ok plan ∧
        Confined s.deployment (env request.index) spec plan request.params user stored safeUrl
          request.prepared := by
  intro request hSent
  exact confined_of_mem_sent hSent

/-- A record with a secret in its url and another one in a header. -/
def keysRecord : Json :=
  .object
    [("url_template", .string "https://api.example.com/v1/\x7bsecret.key\x7d/x"),
      ("method", .string "GET"),
      ("headers", .object [("X-Token", .string "\x7bsecret.token\x7d")])]

def keysText : Text :=
  "\x7b\"url_template\": \"https://api.example.com/v1/\x7bsecret.key\x7d/x\", ".toList ++
    "\"method\": \"GET\", \"headers\": \x7b\"X-Token\": \"\x7bsecret.token\x7d\"\x7d\x7d".toList

def keys : List SecretRow :=
  [⟨"u".toList, "key".toList, some "a/b".toList, "*.example.com".toList, some "url".toList, none⟩,
    ⟨"u".toList, "token".toList, some "t0".toList, "api.example.com".toList, none, none⟩]

theorem sent_confined_keys :
    ∃ request ∈ (smallService keysText keysRecord).sent (fun _ => smallEnv keys) "e".toList keysText
        [] (some "u".toList) {} ⟨[], 0⟩,
      request.prepared.request =
          ⟨"GET".toList, "https://api.example.com/v1/a%2Fb/x".toList,
            [("X-Token".toList, "t0".toList)], none⟩ ∧
        ∃ spec plan stored safeUrl,
          parseToolSpec (smallService keysText keysRecord).deployment.reader keysText = .ok spec ∧
            collectPlan spec = .ok plan ∧
              Confined (smallService keysText keysRecord).deployment (smallEnv keys) spec plan
                request.params (some "u".toList) stored safeUrl request.prepared := by
  have hSent : ((smallService keysText keysRecord).sent (fun _ => smallEnv keys) "e".toList keysText
      [] (some "u".toList) {} ⟨[], 0⟩).map (·.prepared.request) =
        [⟨"GET".toList, "https://api.example.com/v1/a%2Fb/x".toList,
          [("X-Token".toList, "t0".toList)], none⟩] := by
    decide +kernel
  obtain ⟨request, hMem, hRequest⟩ :=
    List.mem_map.mp (hSent.symm ▸ List.mem_singleton.mpr rfl)
  exact ⟨request, hMem, hRequest, sent_confined _ _ _ _ _ _ _ _ request hMem⟩

end External
end OctoForge
