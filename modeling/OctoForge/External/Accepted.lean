import OctoForge.External.Record
import OctoForge.Fallible

/-!
# Records that are accepted

What is known of a record once `parse_tool_spec` has let it through.
-/

namespace OctoForge
namespace External

open Collections Fallible

/-- Every check that `parse_tool_spec` makes of a document, with what it has read of it. -/
structure Accepted (reader : Reader) (data : Payload) (spec : ToolSpec) : Prop where
  known : rejectUnknownKeys data = .ok ()
  method : parseMethod reader (Json.lookup data "method") = .ok spec.method
  urlTemplate : parseUrlTemplate (Json.lookup data "url_template") = .ok spec.urlTemplate
  params : parseParamsSchema reader (Json.lookup data "params_schema") = .ok spec.params
  bodyTemplate : parseBodyTemplate (Json.lookup data "body_template") = .ok spec.bodyTemplate
  headers : ∃ plain, parseHeaders reader (Json.lookup data "headers") = .ok plain ∧
    parseAuth reader plain (Json.lookup data "auth") = .ok spec.headers
  urlFields : validateTemplateFields reader "url_template".toList spec.urlTemplate spec.params =
    .ok ()
  authority : validateUrlAuthority reader spec.urlTemplate spec.params = .ok ()
  bodyFields : ∀ body, spec.bodyTemplate = some body →
    validateTemplateFields reader "body_template".toList body spec.params = .ok ()
  headerFields : ∀ header ∈ spec.headers,
    validateTemplateFields reader (headerLabel reader header.1) header.2 spec.params = .ok ()
  response : parseResponseSpec reader (Json.lookup data "response") = .ok spec.response
  pagination : parsePaginationSpec spec.params (Json.lookup data "pagination") = .ok spec.pagination

variable {reader : Reader} {content : Text} {data : Payload} {spec : ToolSpec}

theorem accepted_of_parseToolSpec (hSpec : parseToolSpec reader content = .ok spec) :
    ∃ data, loadJson reader content = .ok data ∧ Accepted reader data spec := by
  obtain ⟨data, hData, hSpec⟩ := bind_eq_ok.mp hSpec
  obtain ⟨⟨⟩, hKnown, hSpec⟩ := bind_eq_ok.mp hSpec
  obtain ⟨method, hMethod, hSpec⟩ := bind_eq_ok.mp hSpec
  obtain ⟨urlTemplate, hUrl, hSpec⟩ := bind_eq_ok.mp hSpec
  obtain ⟨params, hParams, hSpec⟩ := bind_eq_ok.mp hSpec
  obtain ⟨bodyTemplate, hBody, hSpec⟩ := bind_eq_ok.mp hSpec
  obtain ⟨plain, hPlain, hSpec⟩ := bind_eq_ok.mp hSpec
  obtain ⟨headers, hHeaders, hSpec⟩ := bind_eq_ok.mp hSpec
  obtain ⟨⟨⟩, hUrlFields, hSpec⟩ := bind_eq_ok.mp hSpec
  obtain ⟨⟨⟩, hAuthority, hSpec⟩ := bind_eq_ok.mp hSpec
  obtain ⟨⟨⟩, hBodyFields, hSpec⟩ := bind_eq_ok.mp hSpec
  obtain ⟨⟨⟩, hHeaderFields, hSpec⟩ := bind_eq_ok.mp hSpec
  obtain ⟨response, hResponse, hSpec⟩ := bind_eq_ok.mp hSpec
  obtain ⟨pagination, hPagination, hSpec⟩ := bind_eq_ok.mp hSpec
  obtain rfl := Except.ok.inj hSpec
  refine ⟨data, hData, hKnown, hMethod, hUrl, hParams, hBody, ⟨plain, hPlain, hHeaders⟩, hUrlFields,
    hAuthority, fun body hSome => ?_, forM_eq_ok.mp hHeaderFields, hResponse, hPagination⟩
  obtain rfl : bodyTemplate = some body := hSome
  exact hBodyFields

/-- The names of params have no dot. -/
theorem dotless_of_parse {raw : Option Json} {params : List (Text × ToolParamSpec)}
    (hParams : parseParamsSchema reader raw = .ok params) : ∀ param ∈ params, '.' ∉ param.1 := by
  intro param hParam
  unfold parseParamsSchema at hParams
  split at hParams
  · rw [← Except.ok.inj hParams] at hParam
    cases hParam
  · rw [← Except.ok.inj hParams] at hParam
    cases hParam
  · obtain ⟨member, -, hOne⟩ := item_of_mapM hParams param hParam
    obtain ⟨declared, -, hOne⟩ := bind_eq_ok.mp hOne
    obtain ⟨name, hName, hOne⟩ := bind_eq_ok.mp hOne
    obtain rfl := Except.ok.inj hOne
    unfold parseParamName at hName
    split at hName
    · cases hName
    · split at hName
      · cases hName
      · rename_i hDot
        rwa [← Except.ok.inj hName]
  · cases hParams

/-- A template whose params are all declared, and required. -/
def Templated (spec : ToolSpec) (template : Text) (refs : TemplateRefs) : Prop :=
  collectRefs template = .ok refs ∧ ∀ name ∈ refs.params, ∃ declared,
    spec.params.lookup name = some declared ∧ declared.required = true

theorem templated_of_validate {label template : Text}
    (hValid : validateTemplateFields reader label template spec.params = .ok ()) :
    ∃ refs, Templated spec template refs := by
  unfold validateTemplateFields at hValid
  cases hRefs : collectRefs template with
  | error message =>
      rw [hRefs] at hValid
      cases hValid
  | ok refs =>
      simp only [hRefs] at hValid
      refine ⟨refs, hRefs, fun name hName => ?_⟩
      have hParam := forM_eq_ok.mp hValid name (mem_sorted.mpr hName)
      unfold checkTemplateParam at hParam
      cases hDeclared : spec.params.lookup name with
      | none => simp [hDeclared] at hParam
      | some declared =>
          simp only [hDeclared] at hParam
          split at hParam
          · rename_i hRequired
            exact ⟨declared, rfl, hRequired⟩
          · cases hParam

/-- The param that a walk over the pages advances is declared. -/
theorem Accepted.pageParam (hAccepted : Accepted reader data spec) {pagination : PaginationSpec}
    (hPages : spec.pagination = some pagination) :
    ∃ declared, spec.params.lookup pagination.param = some declared := by
  have hParsed := hAccepted.pagination
  rw [hPages] at hParsed
  unfold parsePaginationSpec at hParsed
  split at hParsed
  · cases hParsed
  · cases hParsed
  · split at hParsed
    · cases hParsed
    · obtain ⟨param, hParam, hParsed⟩ := bind_eq_ok.mp hParsed
      obtain ⟨start, -, hParsed⟩ := bind_eq_ok.mp hParsed
      obtain ⟨cursorPath, -, hParsed⟩ := bind_eq_ok.mp hParsed
      obtain ⟨totalPath, -, hParsed⟩ := bind_eq_ok.mp hParsed
      obtain ⟨⟨⟩, -, hParsed⟩ := bind_eq_ok.mp hParsed
      obtain rfl := Option.some.inj (Except.ok.inj hParsed)
      unfold parsePageParam at hParam
      split at hParam
      · split at hParam
        · rename_i hDeclared
          obtain rfl := Except.ok.inj hParam
          exact Option.isSome_iff_exists.mp hDeclared
        · cases hParam
      · cases hParam
  · cases hParsed

end External
end OctoForge
