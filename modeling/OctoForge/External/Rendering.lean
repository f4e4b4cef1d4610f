import OctoForge.External.Accepted
import OctoForge.External.Confinement
import OctoForge.Placeholders

/-!
# What templates are rendered to

The templates of a record are rendered with params that were validated, values of the user that were
found and secrets that were resolved.  None of them is then missing, and the text of a value is put
where its placeholder is, whatever it looks like.
-/

namespace OctoForge
namespace External

open Collections Fallible Format

/-! ## What a placeholder stands for -/

/-- A value that is stored for the user. -/
def StoredFor (env : Env) (user : Option Text) (code value : Text) : Prop :=
  ∃ stored owner, env.userParams = some stored ∧ user = some owner ∧
    (stored owner).lookup code = some value

/-- A placeholder of the url: a param escaped by its kind, a quoted value of the user, or the
sentinel of a secret. -/
inductive UrlValue (env : Env) (user : Option Text) (spec : ToolSpec) (params : Params) :
    Text → Text → Prop
  | param {name value : Text} {declared : ToolParamSpec} (hPlain : '.' ∉ name)
      (hDeclared : spec.params.lookup name = some declared)
      (hValue : params.lookup name = some value) :
      UrlValue env user spec params name (escapeForUrl declared.kind value)
  | user {code value : Text} (hStored : StoredFor env user code value) :
      UrlValue env user spec params (userField code) (Url.quote value)
  | secret (code : Text) :
      UrlValue env user spec params (secretField code) ("of-secret-".toList ++ (env.uuid code).hex)

/-- A placeholder of the body or of a header: a param, a value of the user, or a secret. -/
inductive TextValue (env : Env) (user : Option Text) (params : Params) (resolved : Resolved) :
    Text → Text → Prop
  | param {name value : Text} (hPlain : '.' ∉ name) (hValue : params.lookup name = some value) :
      TextValue env user params resolved name value
  | user {code value : Text} (hStored : StoredFor env user code value) :
      TextValue env user params resolved (userField code) value
  | secret {code : Text} {secret : ResolvedSecret} (hSecret : resolved.lookup code = some secret) :
      TextValue env user params resolved (secretField code) secret.value

/-- A template that is rendered, and to what it says. -/
def RenderedTo (Value : Text → Text → Prop) (template : Text) (result : Except Text Text) : Prop :=
  ∃ rendered, result = .ok rendered ∧ Renders Value template rendered

/-! ## No value is missing -/

theorem verbatim_of_fieldRefs {field : Field} {refs : TemplateRefs}
    (hRefs : fieldRefs field = .ok refs) : field.Verbatim := by
  unfold fieldRefs at hRefs
  simp only at hRefs
  split at hRefs
  · cases hRefs
  · split at hRefs
    · cases hRefs
    · rename_i hFormat
      simp only [Bool.or_eq_true, Bool.not_eq_true', not_or, Bool.not_eq_false,
        List.isEmpty_iff, Option.isSome_iff_ne_none, ne_eq, not_not] at hFormat
      exact ⟨hFormat.1, hFormat.2⟩

theorem verbatim_of_allRefs {all : List Field} {refs : TemplateRefs} (hRefs : allRefs all = .ok refs) :
    ∀ field ∈ all, field.Verbatim := by
  induction all generalizing refs with
  | nil => exact List.forall_mem_nil _
  | cons first rest ih =>
      obtain ⟨here, hHere, hRefs⟩ := bind_eq_ok.mp hRefs
      obtain ⟨others, hOthers, -⟩ := bind_eq_ok.mp hRefs
      exact List.forall_mem_cons.mpr ⟨verbatim_of_fieldRefs hHere, ih hOthers⟩

/-- A template all of whose names have values is rendered. -/
theorem renderedTo_of_values {Value : Text → Text → Prop} {template : Text} {refs : TemplateRefs}
    {values : Text → Option Text} (hRefs : collectRefs template = .ok refs)
    (hValues : ∀ name, refs.Has name → ∃ value, values name = some value ∧ Value name value) :
    RenderedTo Value template (renderTemplate template values) := by
  obtain ⟨pieces, hParse, hAll⟩ := collectRefs_ok hRefs
  have hHas := has_of_allRefs hAll
  have hFillable : ∃ rendered, fill values pieces = some rendered :=
    exists_fill fun field hField =>
      let ⟨value, hValue, _⟩ := hValues field.name (hHas field hField)
      ⟨value, hValue⟩
  obtain ⟨rendered, hFill⟩ := hFillable
  refine ⟨rendered, renderTemplate_ok.mpr ⟨pieces, hParse, hFill⟩, ?_⟩
  refine (renders_of_fill hParse (verbatim_of_allRefs hAll) hFill).mono fun name value hValue => ?_
  obtain ⟨⟨field, hField, rfl⟩, hValue⟩ := hValue
  obtain ⟨found, hFound, hSays⟩ := hValues field.name (hHas field hField)
  obtain rfl := Option.some.inj (hValue.symm.trans hFound)
  exact hSays

/-- A value under a name that stands for an item. -/
theorem lookup_map_self {α : Type} {f g : α → Text} (hInjective : Function.Injective f)
    {items : List α} {item : α} (hMem : item ∈ items) :
    (items.map fun item => (f item, g item)).lookup (f item) = some (g item) := by
  induction items with
  | nil => cases hMem
  | cons first rest ih =>
      rw [List.map_cons, List.lookup_cons]
      by_cases hSame : f item = f first
      · rw [hSame, beq_self_eq_true, hInjective hSame]
      · rw [beq_false_of_ne hSame]
        rcases List.mem_cons.mp hMem with rfl | hRest
        · exact absurd rfl hSame
        · exact ih hRest

theorem userField_injective : Function.Injective userField :=
  fun _ _ hSame => congrArg (fun name => (splitName name).2) hSame

/-- The values of the user have been found, and are under the names of their fields. -/
theorem stored_of_userValues {env : Env} {plan : Plan} {user : Option Text} {stored : Params}
    (hStored : userValues env plan user = .ok stored) :
    (∀ code ∈ plan.combined.userParams, ∃ value, stored.lookup (userField code) = some value) ∧
      ∀ name value, stored.lookup name = some value →
        ∃ code, name = userField code ∧ StoredFor env user code value := by
  unfold userValues at hStored
  simp only at hStored
  split at hStored
  · rename_i hEmpty
    obtain rfl := Except.ok.inj hStored
    refine ⟨fun code hCode => ?_, fun name value hValue => by cases hValue⟩
    have hMem := List.mem_dedup.mpr hCode
    rw [List.isEmpty_iff.mp hEmpty] at hMem
    cases hMem
  · split at hStored
    · cases hStored
    · cases hStored
    · rename_i stores owner hStores
      split at hStored
      · rename_i hMissing
        obtain rfl := Except.ok.inj hStored
        -- No code is missing, so there is a value for each of them.
        have hFound : ∀ code ∈ plan.combined.userParams.dedup,
            ∃ value, (stores owner).lookup code = some value := by
          intro code hCode
          rw [← Option.isSome_iff_exists, Option.isSome_iff_ne_none]
          intro hNone
          have hMem : code ∈ sorted (plan.combined.userParams.dedup.filter fun code =>
              ((stores owner).lookup code).isNone) := by
            rw [mem_sorted, List.mem_filter]
            exact ⟨hCode, by rw [hNone]; rfl⟩
          rw [List.isEmpty_iff.mp hMissing] at hMem
          cases hMem
        refine ⟨fun code hCode => ⟨_, lookup_map_self userField_injective
          (List.mem_dedup.mpr hCode)⟩, fun name value hValue => ?_⟩
        obtain ⟨code, hCode, hSame⟩ := List.mem_map.mp (mem_of_lookup hValue)
        obtain ⟨rfl, rfl⟩ := Prod.mk.inj hSame
        obtain ⟨found, hFind⟩ := hFound code hCode
        exact ⟨code, rfl, stores, owner, hStores, rfl, by rw [hFind]; rfl⟩
      · cases hStored

/-! ## The params of a request -/

/-- Params of which every one is declared, and among which every one is that has to be. -/
structure Complete (spec : ToolSpec) (params : Params) : Prop where
  declared : ∀ param ∈ params, ∃ declared, spec.params.lookup param.1 = some declared
  required : ∀ name declared, spec.params.lookup name = some declared → declared.required = true →
    ∃ value, params.lookup name = some value

section Params

variable {reader : Reader} {data : Payload} {spec : ToolSpec} {raw : RawParams}
  {validated params : Params}

theorem validateParam_ok {param : Text × Json} {result : Text × Text}
    (hParam : validateParam reader spec param = .ok result) :
    result.1 = param.1 ∧ ∃ declared, spec.params.lookup param.1 = some declared := by
  unfold validateParam at hParam
  split at hParam
  · rename_i declared _ hDeclared _
    obtain ⟨value, -, rfl⟩ := map_eq_ok.mp hParam
    exact ⟨rfl, declared, hDeclared⟩
  · cases hParam

theorem complete_of_validate (hValidated : validateParams reader spec raw = .ok validated) :
    Complete spec validated := by
  unfold validateParams at hValidated
  simp only at hValidated
  split at hValidated
  · cases hValidated
  · split at hValidated
    · cases hValidated
    · rename_i hMissing
      split at hValidated
      · cases hValidated
      · refine ⟨fun param hParam => ?_, fun name declared hDeclared hRequired => ?_⟩
        · obtain ⟨given, -, hOne⟩ := item_of_mapM hValidated param hParam
          obtain ⟨hName, hDeclared⟩ := validateParam_ok hOne
          rwa [hName]
        · have hGiven : ∃ value, raw.lookup name = some value := by
            rw [← Option.isSome_iff_exists, Option.isSome_iff_ne_none]
            intro hNone
            have hMem : name ∈ sorted ((spec.params.filter fun declared =>
                declared.2.required && (raw.lookup declared.1).isNone).map (·.1)) := by
              rw [mem_sorted, List.mem_map]
              refine ⟨(name, declared), List.mem_filter.mpr ⟨mem_of_lookup hDeclared, ?_⟩, rfl⟩
              simp [hRequired, hNone]
            simp only [Bool.not_eq_true', Bool.not_eq_false, List.isEmpty_iff] at hMissing
            rw [hMissing] at hMem
            cases hMem
          obtain ⟨value, hValue⟩ := hGiven
          obtain ⟨⟨other, text⟩, hResult, hOne⟩ :=
            result_of_mapM hValidated _ (mem_of_lookup hValue)
          obtain rfl : other = name := (validateParam_ok hOne).1
          exact exists_lookup_of_mem hResult

theorem Complete.put (hComplete : Complete spec params) {name : Text} {declared : ToolParamSpec}
    (hDeclared : spec.params.lookup name = some declared) (value : Text) :
    Complete spec (params.put name value) := by
  refine ⟨fun param hParam => ?_, fun other found hFound hRequired => ?_⟩
  · rcases List.mem_cons.mp hParam with rfl | hKept
    · exact ⟨declared, hDeclared⟩
    · exact hComplete.declared param (List.mem_of_mem_filter hKept)
  · by_cases hSame : other = name
    · exact ⟨value, hSame ▸ lookup_put_self params name value⟩
    · rw [lookup_put_of_ne hSame]
      exact hComplete.required other found hFound hRequired

/-- Every request has the params that its templates need. -/
theorem complete_of_requested (hAccepted : Accepted reader data spec) {options : CallOptions}
    (hValidated : validateParams reader spec (Service.offered spec options raw) = .ok validated)
    (hRequested : Requested spec options validated params) : Complete spec params := by
  have hComplete := complete_of_validate hValidated
  cases hRequested with
  | single => exact hComplete
  | @page pagination value hPages _ =>
      obtain ⟨declared, hDeclared⟩ := hAccepted.pageParam hPages
      exact hComplete.put hDeclared value

end Params

/-! ## The parts of a request -/

section Parts

variable {env : Env} {plan : Plan} {user : Option Text} {spec : ToolSpec}
  {params stored : Params} {refs : TemplateRefs} {template : Text}

theorem userField_dot (code : Text) : '.' ∈ userField code := by simp [userField]

theorem secretField_dot (code : Text) : '.' ∈ secretField code := by simp [secretField]

/-- A name of a param is not that of a value of the user. -/
theorem lookup_stored_plain (hStored : userValues env plan user = .ok stored) {name : Text}
    (hPlain : '.' ∉ name) : stored.lookup name = none := by
  cases hLookup : stored.lookup name with
  | none => rfl
  | some value =>
      obtain ⟨code, rfl, -⟩ := (stored_of_userValues hStored).2 name value hLookup
      exact absurd (userField_dot code) hPlain

theorem lookup_sentinel {code : Text} (hCode : code ∈ plan.urlRefs.secrets) :
    (underFields (sentinels env plan)).lookup (secretField code) =
      some ("of-secret-".toList ++ (env.uuid code).hex) := by
  rw [underFields, sentinels, List.map_map]
  exact lookup_map_self (fun _ _ => secretField_injective) (List.mem_dedup.mpr hCode)

theorem lookup_sentinel_other {name : Text} (hOther : ∀ code, name ≠ secretField code) :
    (underFields (sentinels env plan)).lookup name = none := by
  have hMap : underFields (sentinels env plan) =
      (sentinels env plan).map fun value => (secretField value.1, id value.2) := rfl
  rw [hMap]
  exact lookup_other hOther

theorem ne_secretField_of_plain {name : Text} (hPlain : '.' ∉ name) (code : Text) :
    name ≠ secretField code := by
  rintro rfl
  exact hPlain (secretField_dot code)

/-- The names of the url have their values. -/
theorem urlValues_says (hStored : userValues env plan user = .ok stored)
    (hComplete : Complete spec params) (hTemplated : Templated spec template plan.urlRefs)
    {name : Text} (hHas : plan.urlRefs.Has name) :
    ∃ value, urlValues spec params stored (underFields (sentinels env plan)) name = some value ∧
      UrlValue env user spec params name value := by
  unfold urlValues
  rcases hHas with ⟨hName, hPlain⟩ | ⟨code, hCode, rfl⟩ | ⟨code, hCode, rfl⟩
  · obtain ⟨declared, hDeclared, hRequired⟩ := hTemplated.2 name hName
    obtain ⟨value, hValue⟩ := hComplete.required name declared hDeclared hRequired
    rw [lookup_sentinel_other (ne_secretField_of_plain hPlain), lookup_stored_plain hStored hPlain]
    simp only [escapedParam, hValue, hDeclared]
    exact ⟨_, rfl, .param hPlain hDeclared hValue⟩
  · have hCombined : code ∈ plan.combined.userParams :=
      List.mem_append_left _ (List.mem_append_left _ hCode)
    obtain ⟨value, hValue⟩ := (stored_of_userValues hStored).1 code hCombined
    obtain ⟨other, hSame, hFor⟩ := (stored_of_userValues hStored).2 _ _ hValue
    obtain rfl := userField_injective hSame
    rw [lookup_sentinel_other fun other hSame => secretField_ne_userField other code hSame.symm]
    simp only [hValue]
    exact ⟨_, rfl, .user hFor⟩
  · rw [lookup_sentinel hCode]
    exact ⟨_, rfl, .secret code⟩

/-- The names of the body and of a header have their values. -/
theorem renderValues_says {d : Deployment} {url : Text} {resolved : Resolved}
    (hStored : userValues env plan user = .ok stored)
    (hResolved : resolveSecrets d env plan url user = .ok resolved)
    (hComplete : Complete spec params) (hTemplated : Templated spec template refs)
    (hUser : refs.userParams ⊆ plan.combined.userParams)
    (hSecrets : refs.secrets ⊆ plan.combined.secrets) {name : Text} (hHas : refs.Has name) :
    ∃ value, renderValues params stored resolved name = some value ∧
      TextValue env user params resolved name value := by
  unfold renderValues
  rcases hHas with ⟨hName, hPlain⟩ | ⟨code, hCode, rfl⟩ | ⟨code, hCode, rfl⟩
  · obtain ⟨declared, hDeclared, hRequired⟩ := hTemplated.2 name hName
    obtain ⟨value, hValue⟩ := hComplete.required name declared hDeclared hRequired
    rw [lookup_other (ne_secretField_of_plain hPlain), lookup_stored_plain hStored hPlain]
    exact ⟨value, hValue, .param hPlain hValue⟩
  · obtain ⟨value, hValue⟩ := (stored_of_userValues hStored).1 code (hUser hCode)
    obtain ⟨other, hSame, hFor⟩ := (stored_of_userValues hStored).2 _ _ hValue
    obtain rfl := userField_injective hSame
    rw [lookup_other fun other hSame => secretField_ne_userField other code hSame.symm]
    simp only [hValue]
    exact ⟨value, rfl, .user hFor⟩
  · obtain ⟨⟨found, secret⟩, hMem, rfl⟩ :=
      (resolvedFor_of_resolveSecrets hResolved).complete code (hSecrets hCode)
    obtain ⟨secret, hSecret⟩ := exists_lookup_of_mem hMem
    rw [lookup_secretField, hSecret]
    exact ⟨secret.value, rfl, .secret hSecret⟩

end Parts

/-! ## Requests -/

theorem Accepted.exists_plan {reader : Reader} {data : Payload} {spec : ToolSpec}
    (hAccepted : Accepted reader data spec) : ∃ plan, collectPlan spec = .ok plan := by
  obtain ⟨urlRefs, hUrl, -⟩ := templated_of_validate hAccepted.urlFields
  have hBody : ∃ refs, bodyRefs spec.bodyTemplate = .ok refs := by
    cases hTemplate : spec.bodyTemplate with
    | none => exact ⟨{}, rfl⟩
    | some body =>
        obtain ⟨refs, hRefs, -⟩ := templated_of_validate (hAccepted.bodyFields body hTemplate)
        exact ⟨refs, hRefs⟩
  have hHeaders : ∃ refs, spec.headers.mapM headerRefs = .ok refs :=
    exists_mapM fun header hHeader => by
      obtain ⟨refs, hRefs, -⟩ := templated_of_validate (hAccepted.headerFields header hHeader)
      exact ⟨(header.1, refs), map_eq_ok.mpr ⟨refs, hRefs, rfl⟩⟩
  obtain ⟨bodyRefs, hBody⟩ := hBody
  obtain ⟨headerRefs, hHeaders⟩ := hHeaders
  refine ⟨⟨urlRefs, bodyRefs, headerRefs⟩, ?_⟩
  rw [collectPlan, hUrl, hBody, hHeaders]
  rfl

/-- What the templates of a record are rendered to for a request. -/
structure TemplatesRendered (env : Env) (user : Option Text) (spec : ToolSpec) (plan : Plan)
    (params stored : Params) (resolved : Resolved) : Prop where
  /-- Each param has a declaration by which it is escaped. -/
  declared : ∀ param ∈ params, ∃ declared, spec.params.lookup param.1 = some declared
  url : RenderedTo (UrlValue env user spec params) spec.urlTemplate
    (renderUrl spec params stored (underFields (sentinels env plan)))
  body : ∀ template, spec.bodyTemplate = some template →
    RenderedTo (TextValue env user params resolved) template
      (renderTemplate template (renderValues params stored resolved))
  headers : ∀ header ∈ spec.headers, RenderedTo (TextValue env user params resolved) header.2
    (renderTemplate header.2 (renderValues params stored resolved))

/-- **Template safety.**  A record that is accepted has a plan, and whatever params are validated and
values are found for a request, its url, its body and each of its headers are rendered: every
placeholder once, by its value, and the rest as it is written. -/
theorem templates_rendered {reader : Reader} {content : Text} {spec : ToolSpec}
    (hSpec : parseToolSpec reader content = .ok spec) :
    ∃ plan, collectPlan spec = .ok plan ∧
      ∀ (options : CallOptions) (raw : RawParams) (validated params : Params),
        validateParams reader spec (Service.offered spec options raw) = .ok validated →
        Requested spec options validated params →
        ∀ (d : Deployment) (env : Env) (user : Option Text) (stored : Params) (url : Text)
          (resolved : Resolved), userValues env plan user = .ok stored →
          resolveSecrets d env plan url user = .ok resolved →
          TemplatesRendered env user spec plan params stored resolved := by
  obtain ⟨data, -, hAccepted⟩ := accepted_of_parseToolSpec hSpec
  obtain ⟨plan, hPlan⟩ := hAccepted.exists_plan
  refine ⟨plan, hPlan, fun options raw validated params hValidated hRequested d env user stored url
    resolved hStored hResolved => ?_⟩
  have hComplete := complete_of_requested hAccepted hValidated hRequested
  obtain ⟨hUrl, hBody, -⟩ := collectPlan_ok hPlan
  -- The url has sentinels where its secrets go, the body and the headers have the secrets.
  refine ⟨hComplete.declared, ?_, fun template hTemplate => ?_, fun header hHeader => ?_⟩
  · obtain ⟨refs, hTemplated⟩ := templated_of_validate hAccepted.urlFields
    obtain rfl := Except.ok.inj (hTemplated.1.symm.trans hUrl)
    exact renderedTo_of_values hUrl fun name hHas => urlValues_says hStored hComplete hTemplated hHas
  · obtain ⟨refs, hTemplated⟩ := templated_of_validate (hAccepted.bodyFields template hTemplate)
    rw [hTemplate] at hBody
    obtain rfl := Except.ok.inj (hTemplated.1.symm.trans hBody)
    refine renderedTo_of_values hBody fun name hHas => renderValues_says hStored hResolved hComplete
      hTemplated (fun code hCode => ?_) (fun code hCode => ?_) hHas
    · exact List.mem_append_left _ (List.mem_append_right _ hCode)
    · exact mem_combined.mpr (.inr (.inl hCode))
  · obtain ⟨refs, hTemplated⟩ := templated_of_validate (hAccepted.headerFields header hHeader)
    obtain ⟨others, hOthers, hSecrets, hUser⟩ := refs_of_header hPlan hHeader
    obtain rfl := Except.ok.inj (hTemplated.1.symm.trans hOthers)
    refine renderedTo_of_values hOthers fun name hHas => renderValues_says hStored hResolved
      hComplete hTemplated (fun code hCode => ?_) (fun code hCode => ?_) hHas
    · exact List.mem_append_right _ (hUser hCode)
    · exact mem_combined.mpr (.inr (.inr (hSecrets hCode)))

/-- A record with a placeholder of each kind, and braces around its body. -/
def noteRecord : Json :=
  .object
    [("method", .string "POST"),
      ("url_template", .string "https://api.example.com/\x7bcity\x7d?k=\x7bsecret.key\x7d"),
      ("params_schema", .object
        [("city", .object [("type", .string "string"), ("required", .bool true)]),
          ("text", .object [("type", .string "string"), ("required", .bool true)])]),
      ("body_template", .string "\x7b\x7b\x7btext\x7d\x7d\x7d"),
      ("headers", .object [("X-Zone", .string "\x7buser.zone\x7d")])]

def noteText : Text :=
  "\x7b\"method\": \"POST\", ".toList ++
    "\"url_template\": \"https://api.example.com/\x7bcity\x7d?k=\x7bsecret.key\x7d\", ".toList ++
    "\"params_schema\": \x7b\"city\": \x7b\"type\": \"string\", \"required\": true\x7d, ".toList ++
    "\"text\": \x7b\"type\": \"string\", \"required\": true\x7d\x7d, ".toList ++
    "\"body_template\": \"\x7b\x7b\x7btext\x7d\x7d\x7d\", ".toList ++
    "\"headers\": \x7b\"X-Zone\": \"\x7buser.zone\x7d\"\x7d\x7d".toList

def noteSpec : ToolSpec where
  method := "POST".toList
  urlTemplate := "https://api.example.com/\x7bcity\x7d?k=\x7bsecret.key\x7d".toList
  params := [("city".toList, ⟨true, .string, []⟩), ("text".toList, ⟨true, .string, []⟩)]
  bodyTemplate := some "\x7b\x7b\x7btext\x7d\x7d\x7d".toList
  headers := [("X-Zone".toList, "\x7buser.zone\x7d".toList)]
  response := none
  pagination := none

/-- A text that looks like a placeholder is a text. -/
def noteParams : Params := [("city".toList, "a b".toList), ("text".toList, "\x7bcity\x7d".toList)]

def noteEnv : Env := { smallEnv keys with userParams := some fun _ => [("zone".toList, "UTC".toList)] }

theorem templates_rendered_note :
    ∃ plan, collectPlan noteSpec = .ok plan ∧ ∃ stored resolved,
      TemplatesRendered noteEnv (some "u".toList) noteSpec plan noteParams stored resolved := by
  have hSpec : parseToolSpec (smallService noteText noteRecord).deployment.reader noteText =
      .ok noteSpec := by decide +kernel
  obtain ⟨plan, hPlan, hRendered⟩ := templates_rendered hSpec
  have hHere : collectPlan noteSpec = .ok
      ⟨{ params := ["city".toList], secrets := ["key".toList] }, { params := ["text".toList] },
        [("X-Zone".toList, { userParams := ["zone".toList] })]⟩ := by decide +kernel
  obtain rfl := Except.ok.inj (hPlan.symm.trans hHere)
  exact ⟨_, hPlan, _, _, hRendered {}
    [("city".toList, .string "a b"), ("text".toList, .string "\x7bcity\x7d")]
    noteParams noteParams (by decide +kernel) .single (smallService noteText noteRecord).deployment
    noteEnv (some "u".toList) [(userField "zone".toList, "UTC".toList)]
    "https://api.example.com/a%20b?k=of-secret-0".toList
    [("key".toList, ⟨"a/b".toList, "a/b".toList, [.url]⟩)] (by decide +kernel) (by decide +kernel)⟩

end External
end OctoForge
