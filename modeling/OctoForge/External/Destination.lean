import OctoForge.External.Accepted
import OctoForge.External.Confinement

/-!
# Where requests go

The part of a url template that is policed, and what follows from its being policed: the origin
of a request is decided by that part, with the values of the user and of the host params in it.
-/

namespace OctoForge
namespace External

open Collections Fallible

/-! ## What a record that is accepted is known to be -/

section Accepted

variable {reader : Reader} {content : Text} {spec : ToolSpec}

/-- What `parse_tool_spec` has checked of the params and the url. -/
structure Checked (reader : Reader) (spec : ToolSpec) : Prop where
  params : ∃ raw, parseParamsSchema reader raw = .ok spec.params
  fields : validateTemplateFields reader "url_template".toList spec.urlTemplate spec.params = .ok ()
  authority : validateUrlAuthority reader spec.urlTemplate spec.params = .ok ()

theorem checked_of_parseToolSpec (hSpec : parseToolSpec reader content = .ok spec) :
    Checked reader spec := by
  obtain ⟨data, -, hAccepted⟩ := accepted_of_parseToolSpec hSpec
  exact ⟨⟨_, hAccepted.params⟩, hAccepted.urlFields, hAccepted.authority⟩

theorem Checked.lookup_userField (hChecked : Checked reader spec) (code : Text) :
    spec.params.lookup (userField code) = none := by
  obtain ⟨raw, hParams⟩ := hChecked.params
  rw [List.lookup_eq_none_iff]
  intro param hParam
  have hDot := dotless_of_parse hParams param hParam
  rw [bne_iff_ne]
  intro hSame
  rw [← hSame] at hDot
  exact hDot (by simp [userField])

/-- Placeholders of the policed part are values of the user or host params. -/
theorem Checked.policed (hChecked : Checked reader spec) :
    ∃ refs, collectRefs (policed spec.urlTemplate).1 = .ok refs ∧ refs.secrets = [] ∧
      ∀ name ∈ refs.params, ∀ declared, spec.params.lookup name = some declared →
        declared.kind = .host := by
  have hAuthority := hChecked.authority
  unfold validateUrlAuthority at hAuthority
  cases hRefs : collectRefs (External.policed spec.urlTemplate).1 with
  | error message =>
      rw [hRefs] at hAuthority
      cases hAuthority
  | ok refs =>
      simp only [hRefs] at hAuthority
      split at hAuthority
      · rename_i hNone
        refine ⟨refs, rfl, List.isEmpty_iff.mp hNone, fun name hName declared hDeclared => ?_⟩
        have hHost := forM_eq_ok.mp hAuthority name (mem_sorted.mpr hName)
        simp only [checkHostParam, hDeclared] at hHost
        split at hHost
        · assumption
        · cases hHost
      · cases hAuthority

end Accepted

/-! ## The policed part of a url -/

theorem policed_append (urlTemplate : Text) :
    (policed urlTemplate).1 ++ (policed urlTemplate).2 = urlTemplate := by
  unfold policed
  simp only [List.append_assoc, List.takeWhile_append_dropWhile, List.take_append_drop]

/-- The rest of a url template begins with a slash, if it is there. -/
theorem policed_rest (urlTemplate : Text) :
    (policed urlTemplate).2 = [] ∨ ∃ rest, (policed urlTemplate).2 = '/' :: rest := by
  cases hRest : (policed urlTemplate).2 with
  | nil => exact .inl rfl
  | cons c rest =>
      unfold policed at hRest
      simp only at hRest
      have hSame : c = '/' := by simpa using Text.head_dropWhile hRest
      exact .inr ⟨rest, by rw [hSame]⟩

/-- The first `://` of the template is not inside of a placeholder. -/
def SchemeOutside (spec : ToolSpec) : Prop :=
  ∃ i refs, Text.find? "://".toList spec.urlTemplate = some i ∧
    collectRefs (spec.urlTemplate.take i) = .ok refs

theorem policed_of_find {urlTemplate : Text} {i : Nat}
    (hFind : Text.find? "://".toList urlTemplate = some i) :
    ∃ host, '/' ∉ host ∧
      (policed urlTemplate).1 = urlTemplate.take i ++ ("://".toList ++ host) := by
  obtain ⟨rest, hSplit⟩ := Text.eq_of_find? hFind
  have hLength : (urlTemplate.take i).length = i := by
    have hShort := congrArg List.length hSplit
    rw [List.length_append, List.length_take] at hShort
    have hThree : ("://".toList ++ rest).length = 3 + rest.length := by
      rw [List.length_append]
      rfl
    rw [List.length_take]
    omega
  have hTake : urlTemplate.take (i + 3) = urlTemplate.take i ++ "://".toList := by
    conv_lhs => rw [hSplit]
    rw [List.take_append, hLength]
    simp [List.take_take]
  refine ⟨(urlTemplate.drop (i + 3)).takeWhile (· != '/'), fun hMem => ?_, ?_⟩
  · have hOther := List.mem_takeWhile_imp hMem
    simp at hOther
  · unfold policed
    simp only [hFind, hTake, List.append_assoc]

/-- Literal text that begins with a slash is rendered to one. -/
theorem isTail_render {rest back : Text} {values : Text → Option Text}
    (hRest : rest = [] ∨ ∃ more, rest = '/' :: more)
    (hRender : renderTemplate rest values = .ok back) : Url.IsTail back := by
  rcases hRest with rfl | ⟨more, rfl⟩
  · obtain rfl := Except.ok.inj hRender
    exact Url.isTail_nil
  · have hSlash : collectRefs ['/'] = .ok {} := rfl
    change renderTemplate (['/'] ++ more) values = .ok back at hRender
    obtain ⟨before, after, hBefore, -, rfl⟩ := renderTemplate_append hSlash hRender
    obtain rfl := Except.ok.inj hBefore
    exact Url.isTail_cons rfl

/-- What the policed part is rendered to has the `://` of the template. -/
theorem render_slashes {spec : ToolSpec} {front : Text} {values : Text → Option Text}
    (hScheme : SchemeOutside spec)
    (hRender : renderTemplate (policed spec.urlTemplate).1 values = .ok front) :
    ∃ i host a b, Text.find? "://".toList spec.urlTemplate = some i ∧ '/' ∉ host ∧
      (policed spec.urlTemplate).1 = spec.urlTemplate.take i ++ ("://".toList ++ host) ∧
      renderTemplate (spec.urlTemplate.take i) values = .ok a ∧
      renderTemplate host values = .ok b ∧ front = a ++ ':' :: '/' :: '/' :: b := by
  obtain ⟨i, refs, hFind, hRefs⟩ := hScheme
  obtain ⟨host, hHost, hPoliced⟩ := policed_of_find hFind
  rw [hPoliced] at hRender
  obtain ⟨a, rest, hA, hRest, rfl⟩ := renderTemplate_append hRefs hRender
  have hSlashes : collectRefs "://".toList = .ok {} := rfl
  obtain ⟨slashes, b, hLiteral, hB, rfl⟩ := renderTemplate_append hSlashes hRest
  obtain rfl := Except.ok.inj hLiteral
  exact ⟨i, host, a, b, hFind, hHost, hPoliced, hA, hB, rfl⟩

/-! ## What decides the destination -/

/-- The values of the host params of a request. -/
def hostValues (spec : ToolSpec) (params : Params) (name : Text) : Option Text :=
  match spec.params.lookup name with
  | some declared => if declared.kind = .host then params.lookup name else none
  | none => none

/-- Stored values of the user, quoted, and host values. -/
def destinationValues (stored : Params) (hosts : Text → Option Text) (name : Text) : Option Text :=
  match stored.lookup name with
  | some value => some (Url.quote value)
  | none => hosts name

/-- The origin that the policed part of a template stands for. -/
def destination (rules : Url.Rules) (spec : ToolSpec) (stored : Params)
    (hosts : Text → Option Text) : Option Origin :=
  match renderTemplate (policed spec.urlTemplate).1 (destinationValues stored hosts) with
  | .ok front => parseOrigin rules front
  | .error _ => none

section Destination

variable {reader : Reader} {rules : Url.Rules} {spec : ToolSpec} {params stored entries : Params}
  {safeUrl : Text} {origin : Origin}

/-- The values of the policed part are quoted values of the user and host values. -/
theorem urlValues_policed (hChecked : Checked reader spec) {refs : TemplateRefs}
    (hSecrets : refs.secrets = [])
    (hHosts : ∀ name ∈ refs.params, ∀ declared, spec.params.lookup name = some declared →
      declared.kind = .host)
    {name : Text} (hName : refs.Has name) :
    urlValues spec params stored (underFields entries) name =
      destinationValues stored (hostValues spec params) name := by
  have hNoSecret : (underFields entries).lookup name = none := by
    have hMap : underFields entries =
        entries.map fun value => (secretField value.1, id value.2) := rfl
    rw [hMap]
    refine lookup_other fun code hSame => ?_
    rw [hSame] at hName
    have hCode := hName.secret
    rw [hSecrets] at hCode
    cases hCode
  have hParam : escapedParam spec params name = hostValues spec params name := by
    unfold escapedParam hostValues
    cases hDeclared : spec.params.lookup name with
    | none => cases params.lookup name <;> rfl
    | some declared =>
        have hHost : declared.kind = .host := by
          rcases hName with ⟨hMem, -⟩ | ⟨code, -, rfl⟩ | ⟨code, hCode, -⟩
          · exact hHosts name hMem declared hDeclared
          · rw [hChecked.lookup_userField] at hDeclared
            cases hDeclared
          · rw [hSecrets] at hCode
            cases hCode
        cases params.lookup name <;> simp [hHost, escapeForUrl]
  unfold urlValues destinationValues
  cases stored.lookup name with
  | none => simp only [hNoSecret, hParam]
  | some value => simp only [hNoSecret]

/-- A url that has an origin has the one that its policed part stands for. -/
theorem origin_of_renderUrl (hChecked : Checked reader spec) (hScheme : SchemeOutside spec)
    (hUrl : renderUrl spec params stored (underFields entries) = .ok safeUrl)
    (hOrigin : parseOrigin rules safeUrl = some origin) :
    parseOrigin rules safeUrl = destination rules spec stored (hostValues spec params) := by
  obtain ⟨refs, hRefs, hSecrets, hHosts⟩ := hChecked.policed
  unfold renderUrl at hUrl
  rw [← policed_append spec.urlTemplate] at hUrl
  obtain ⟨front, back, hFront, hBack, rfl⟩ := renderTemplate_append hRefs hUrl
  obtain ⟨parts, hSplit, hNetloc, -⟩ := parts_of_origin hOrigin
  obtain ⟨-, -, a, b, -, -, -, -, -, hSlashes⟩ := render_slashes hScheme hFront
  have hOpens := Url.opens_of_slashes hSlashes hSplit hNetloc
  have hTail := isTail_render (policed_rest spec.urlTemplate) hBack
  have hSame : renderTemplate (policed spec.urlTemplate).1
      (destinationValues stored (hostValues spec params)) = .ok front := by
    rw [← hFront]
    exact (renderTemplate_congr hRefs fun name hName =>
      urlValues_policed hChecked hSecrets hHosts hName).symm
  unfold destination
  rw [hSame]
  exact parseOrigin_congr (Url.authority_append hOpens hTail)

end Destination

/-! ## Host values -/

section HostValues

variable {reader : Reader} {spec : ToolSpec} {raw : RawParams} {validated params : Params}

/-- Every host value has been validated. -/
def HostsValidated (reader : Reader) (spec : ToolSpec) (params : Params) : Prop :=
  ∀ name declared value, spec.params.lookup name = some declared → declared.kind = .host →
    params.lookup name = some value → ∃ given, validateHost reader name declared given = .ok value

/-- Every host value is one that the record lists. -/
def HostsListed (lower : Text → Text) (spec : ToolSpec) (params : Params) : Prop :=
  ∀ name declared value, spec.params.lookup name = some declared → declared.kind = .host →
    params.lookup name = some value →
      declared.hosts.any (fun pattern => hostMatches lower pattern value) = true

/-- A host value is a bare hostname, and listed. -/
theorem validateHost_ok {name given value : Text} {declared : ToolParamSpec}
    (hValue : validateHost reader name declared given = .ok value) :
    (∀ c ∈ notInHost, c ∉ value) ∧
      declared.hosts.any (fun pattern => hostMatches reader.lower pattern value) = true := by
  unfold validateHost at hValue
  simp only at hValue
  split at hValue
  · cases hValue
  · rename_i hBare
    split at hValue
    · rename_i hListed
      rw [← Except.ok.inj hValue]
      simp only [Bool.or_eq_true, not_or, List.any_eq_true, List.contains_iff_mem, not_exists,
        not_and] at hBare
      exact ⟨fun c hC hMem => hBare.2 c hMem hC, hListed⟩
    · cases hValue

theorem HostsValidated.listed (hValidated : HostsValidated reader spec params) :
    HostsListed reader.lower spec params := by
  intro name declared value hDeclared hHost hValue
  obtain ⟨given, hGiven⟩ := hValidated name declared value hDeclared hHost hValue
  exact (validateHost_ok hGiven).2

theorem hostsValidated_of_validate (hValidated : validateParams reader spec raw = .ok validated) :
    HostsValidated reader spec validated := by
  intro name declared value hDeclared hHost hValue
  unfold validateParams at hValidated
  simp only at hValidated
  split at hValidated
  · cases hValidated
  · split at hValidated
    · cases hValidated
    · split at hValidated
      · cases hValidated
      · obtain ⟨param, -, hParam⟩ := item_of_mapM hValidated _ (mem_of_lookup hValue)
        unfold validateParam at hParam
        split at hParam
        · rename_i found text hFound _
          obtain ⟨other, hOther, hSame⟩ := map_eq_ok.mp hParam
          obtain ⟨rfl, rfl⟩ := Prod.mk.inj hSame
          rw [hDeclared] at hFound
          obtain rfl := Option.some.inj hFound
          rw [validateValue, hHost] at hOther
          exact ⟨text.toList, hOther⟩
        · cases hParam

/-- The walk over the pages advances a host param. -/
def PagesOverHost (spec : ToolSpec) (options : CallOptions) : Prop :=
  options.collect = true ∧ ∃ pagination declared, spec.pagination = some pagination ∧
    spec.params.lookup pagination.param = some declared ∧ declared.kind = .host

theorem hostsValidated_of_requested {options : CallOptions}
    (hValidated : validateParams reader spec raw = .ok validated)
    (hPages : ¬PagesOverHost spec options) (hRequested : Requested spec options validated params) :
    HostsValidated reader spec params := by
  have hHosts := hostsValidated_of_validate hValidated
  cases hRequested with
  | single => exact hHosts
  | @page pagination value hPagination hCollect =>
      intro name declared found hDeclared hHost hFound
      have hOther : name ≠ pagination.param := by
        rintro rfl
        exact hPages ⟨hCollect, pagination, declared, hPagination, hDeclared, hHost⟩
      rw [lookup_put_of_ne hOther] at hFound
      exact hHosts name declared found hDeclared hHost hFound

end HostValues

/-! ## Runs -/

/-- What a call of `execute` is given besides the content of the record. -/
structure Invocation where
  env : Nat → Env
  name : Text
  params : RawParams
  user : Option Text
  options : CallOptions
  tables : Tables

/-- The requests of a call. -/
def Service.sentIn (s : Service) (content : Text) (call : Invocation) : List Sent :=
  s.sent call.env call.name content call.params call.user call.options call.tables

/-- The origins of all requests of a record are decided by the stored values of the user and the
host values. -/
def DestinationDecided (s : Service) (content : Text) (spec : ToolSpec) : Prop :=
  ∃ decided : Params → (Text → Option Text) → Option Origin,
    ∀ call, ∀ request ∈ s.sentIn content call, ∀ plan stored, collectPlan spec = .ok plan →
      userValues (call.env request.index) plan call.user = .ok stored →
        parseOrigin s.deployment.rules request.prepared.request.url =
          decided stored (hostValues spec request.params)

section Runs

variable {s : Service} {content : Text} {spec : ToolSpec}

theorem origin_of_sent (hSpec : parseToolSpec s.deployment.reader content = .ok spec)
    (hScheme : SchemeOutside spec) {call : Invocation} {request : Sent}
    (hSent : request ∈ s.sentIn content call) {plan : Plan} {stored : Params}
    (hPlan : collectPlan spec = .ok plan)
    (hStored : userValues (call.env request.index) plan call.user = .ok stored) :
    parseOrigin s.deployment.rules request.prepared.request.url =
      destination s.deployment.rules spec stored (hostValues spec request.params) := by
  obtain ⟨other, found, values, safeUrl, hOther, hFound, hConfined⟩ := confined_of_mem_sent hSent
  obtain rfl : spec = other := Except.ok.inj (hSpec.symm.trans hOther)
  obtain rfl : plan = found := Except.ok.inj (hPlan.symm.trans hFound)
  obtain rfl : stored = values := Except.ok.inj (hStored.symm.trans hConfined.values)
  obtain ⟨origin, hSafe, hUrl⟩ := hConfined.origin
  rw [hUrl, ← hSafe]
  exact origin_of_renderUrl (checked_of_parseToolSpec hSpec) hScheme hConfined.rendered hSafe

theorem hostsValidated_of_sent (hSpec : parseToolSpec s.deployment.reader content = .ok spec)
    {call : Invocation} (hPages : ¬PagesOverHost spec call.options) {request : Sent}
    (hSent : request ∈ s.sentIn content call) :
    HostsValidated s.deployment.reader spec request.params := by
  obtain ⟨other, plan, validated, hOther, -, hValidated, hRequested, -⟩ := mem_sent hSent
  obtain rfl : spec = other := Except.ok.inj (hSpec.symm.trans hOther)
  exact hostsValidated_of_requested hValidated hPages hRequested

/-- The destination is decided by what is in the `://` part of a template, and host values are
listed ones where the walk over the pages leaves them alone. -/
theorem destination_decided (hSpec : parseToolSpec s.deployment.reader content = .ok spec)
    (hScheme : SchemeOutside spec) :
    DestinationDecided s content spec ∧
      ∀ call, ¬PagesOverHost spec call.options → ∀ request ∈ s.sentIn content call,
        HostsListed s.deployment.reader.lower spec request.params := by
  constructor
  · refine ⟨destination s.deployment.rules spec, ?_⟩
    intro call request hSent plan stored hPlan hStored
    exact origin_of_sent hSpec hScheme hSent hPlan hStored
  · intro call hPages request hSent
    exact (hostsValidated_of_sent hSpec hPages hSent).listed

end Runs

/-! ## A record with one slash, and one that pages over its host -/

def stringParam : Json := .object [("type", .string "string"), ("required", .bool true)]

def oneSlashRecord : Json :=
  .object
    [("method", .string "GET"), ("url_template", .string "https:/\x7bp\x7d/\x7bq\x7d/x"),
      ("params_schema", .object [("p", stringParam), ("q", stringParam)])]

def oneSlashText : Text :=
  "\x7b\"method\": \"GET\", \"url_template\": \"https:/\x7bp\x7d/\x7bq\x7d/x\", ".toList ++
    "\"params_schema\": \x7b\"p\": \x7b\"type\": \"string\", \"required\": true\x7d, ".toList ++
    "\"q\": \x7b\"type\": \"string\", \"required\": true\x7d\x7d\x7d".toList

def oneSlashSpec : ToolSpec where
  method := "GET".toList
  urlTemplate := "https:/\x7bp\x7d/\x7bq\x7d/x".toList
  params := [("p".toList, ⟨true, .string, []⟩), ("q".toList, ⟨true, .string, []⟩)]

/-- A call with an empty `p`, and a host for `q`. -/
def oneSlashCall (host : String) : Invocation where
  env := fun _ => smallEnv []
  name := "e".toList
  params := [("p".toList, .string ""), ("q".toList, .string host)]
  user := some "u".toList
  options := {}
  tables := ⟨[], 0⟩

def hostPagesRecord : Json :=
  .object
    [("method", .string "GET"), ("url_template", .string "https://\x7bh\x7d/items"),
      ("params_schema", .object [("h", .object [("type", .string "host"),
        ("required", .bool true), ("hosts", .array [.string "api.example.com"])])]),
      ("pagination", .object [("kind", .string "page"), ("param", .string "h")])]

def hostPagesText : Text :=
  "\x7b\"method\": \"GET\", \"url_template\": \"https://\x7bh\x7d/items\", ".toList ++
    "\"params_schema\": \x7b\"h\": \x7b\"type\": \"host\", \"required\": true, ".toList ++
    "\"hosts\": [\"api.example.com\"]\x7d\x7d, ".toList ++
    "\"pagination\": \x7b\"kind\": \"page\", \"param\": \"h\"\x7d\x7d".toList

def hostPagesSpec : ToolSpec where
  method := "GET".toList
  urlTemplate := "https://\x7bh\x7d/items".toList
  params := [("h".toList, ⟨true, .host, ["api.example.com".toList]⟩)]
  pagination := some { kind := .page, param := "h".toList, start := 1 }

def hostPagesCall (collect : Bool) : Invocation where
  env := fun _ => smallEnv []
  name := "e".toList
  params := [("h".toList, .string "api.example.com")]
  user := some "u".toList
  options := { collect }
  tables := ⟨[], 0⟩

theorem hostPages_parsed :
    parseToolSpec (smallService hostPagesText hostPagesRecord).deployment.reader hostPagesText =
      .ok hostPagesSpec := by
  decide +kernel

theorem oneSlashSpec_hosts (params : Params) : hostValues oneSlashSpec params = fun _ => none := by
  funext name
  unfold hostValues
  cases hDeclared : oneSlashSpec.params.lookup name with
  | none => rfl
  | some declared =>
      have hKinds : ∀ param ∈ oneSlashSpec.params, param.2.kind ≠ .host := by decide
      exact if_neg (hKinds _ (mem_of_lookup hDeclared))

theorem oneSlash_sent {host : String} {url : Text}
    (hUrls : ((smallService oneSlashText oneSlashRecord).sentIn oneSlashText
      (oneSlashCall host)).map (·.prepared.request.url) = [url]) :
    ∃ request ∈ (smallService oneSlashText oneSlashRecord).sentIn oneSlashText (oneSlashCall host),
      request.prepared.request.url = url :=
  List.mem_map.mp (hUrls.symm ▸ List.mem_singleton.mpr rfl)

/-- The second param of a template with one slash names the host, and a page number is one. -/
theorem destination_chosen :
    (parseToolSpec (smallService oneSlashText oneSlashRecord).deployment.reader oneSlashText =
        .ok oneSlashSpec ∧
      ¬DestinationDecided (smallService oneSlashText oneSlashRecord) oneSlashText oneSlashSpec) ∧
    (parseToolSpec (smallService hostPagesText hostPagesRecord).deployment.reader hostPagesText =
        .ok hostPagesSpec ∧
      ∃ request ∈ (smallService hostPagesText hostPagesRecord).sentIn hostPagesText
          (hostPagesCall true),
        ¬HostsListed (smallService hostPagesText hostPagesRecord).deployment.reader.lower
          hostPagesSpec request.params) := by
  refine ⟨⟨by decide +kernel, ?_⟩, hostPages_parsed, ?_⟩
  · rintro ⟨decided, hDecided⟩
    obtain ⟨first, hFirst, hUrl⟩ := @oneSlash_sent "evil.com" "https://evil.com/x".toList
      (by decide +kernel)
    obtain ⟨second, hSecond, hOther⟩ := @oneSlash_sent "other.com" "https://other.com/x".toList
      (by decide +kernel)
    have hPlan : collectPlan oneSlashSpec =
        .ok ⟨{ params := ["p".toList, "q".toList] }, {}, []⟩ := by decide +kernel
    have hOne := hDecided _ first hFirst _ [] hPlan rfl
    have hTwo := hDecided _ second hSecond _ [] hPlan rfl
    rw [hUrl, oneSlashSpec_hosts] at hOne
    rw [hOther, oneSlashSpec_hosts, ← hOne] at hTwo
    exact absurd hTwo (by decide +kernel)
  · have hParams : ((smallService hostPagesText hostPagesRecord).sentIn hostPagesText
        (hostPagesCall true)).map (·.params) = [[("h".toList, "1".toList)]] := by decide +kernel
    obtain ⟨request, hSent, hRequest⟩ :=
      List.mem_map.mp (hParams.symm ▸ List.mem_singleton.mpr rfl)
    refine ⟨request, hSent, fun hListed => ?_⟩
    have hOne := hListed "h".toList ⟨true, .host, ["api.example.com".toList]⟩ "1".toList rfl rfl
      (by rw [hRequest]; rfl)
    exact absurd hOne (by decide +kernel)

theorem destination_decided_hostPages :
    DestinationDecided (smallService hostPagesText hostPagesRecord) hostPagesText hostPagesSpec ∧
      ∃ request ∈ (smallService hostPagesText hostPagesRecord).sentIn hostPagesText
          (hostPagesCall false),
        HostsListed (smallService hostPagesText hostPagesRecord).deployment.reader.lower
          hostPagesSpec request.params := by
  have hScheme : SchemeOutside hostPagesSpec := ⟨5, {}, by decide +kernel, by decide +kernel⟩
  have hPages : ¬PagesOverHost hostPagesSpec (hostPagesCall false).options := fun hPages => by
    cases hPages.1
  have hUrls : ((smallService hostPagesText hostPagesRecord).sentIn hostPagesText
      (hostPagesCall false)).map (·.prepared.request.url) =
        ["https://api.example.com/items".toList] := by decide +kernel
  obtain ⟨request, hSent, -⟩ := List.mem_map.mp (hUrls.symm ▸ List.mem_singleton.mpr rfl)
  have hBoth := destination_decided hostPages_parsed hScheme
  exact ⟨hBoth.1, request, hSent, hBoth.2 _ hPages request hSent⟩

end External
end OctoForge
