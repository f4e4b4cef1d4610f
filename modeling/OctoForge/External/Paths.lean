import OctoForge.Dots
import OctoForge.External.Destination

/-!
# Which paths are requested

A record may begin its path with literal text.  What is requested stays below it as long as the
segments that are rendered behind it never take back more than they have added; quoting leaves
dots alone, so a value can.
-/

namespace OctoForge
namespace External

open Collections Fallible

/-! ## A literal start of the path -/

/-- The path of the template begins with literal text up to a slash. -/
structure PathPrefix (spec : ToolSpec) (literal rest : Text) : Prop where
  path : (policed spec.urlTemplate).2 = literal ++ rest
  plain : ∀ c ∈ literal, c ≠ '{' ∧ c ≠ '}' ∧ c ≠ '?' ∧ c ≠ '#'
  ends : ∃ start, literal = start ++ ['/']
  /-- What is before it is a scheme, `://` and a host. -/
  scheme : ∀ i, Text.find? "://".toList spec.urlTemplate = some i → '/' ∉ spec.urlTemplate.take i
  host : ∀ c ∈ (policed spec.urlTemplate).1, c ≠ '?' ∧ c ≠ '#'

section Prefix

variable {spec : ToolSpec} {literal rest : Text}

/-- The literal text is one slash, or stands between two. -/
theorem PathPrefix.cases (hPrefix : PathPrefix spec literal rest) :
    literal = ['/'] ∨ ∃ start, literal = '/' :: (start ++ ['/']) := by
  obtain ⟨start, hEnds⟩ := hPrefix.ends
  cases start with
  | nil => exact .inl hEnds
  | cons c more =>
      rcases policed_rest spec.urlTemplate with hNone | ⟨others, hSlash⟩
      · rw [hPrefix.path, hEnds] at hNone
        simp at hNone
      · rw [hPrefix.path, hEnds] at hSlash
        obtain ⟨rfl, -⟩ := List.cons.inj hSlash
        exact .inr ⟨more, hEnds⟩

theorem PathPrefix.isTail (hPrefix : PathPrefix spec literal rest) (after : Text) :
    Url.IsTail (literal ++ after) := by
  rcases hPrefix.cases with rfl | ⟨start, rfl⟩
  · exact Url.isTail_cons rfl
  · exact Url.isTail_cons rfl

end Prefix

/-! ## The url before its secrets are in it -/

section Rendered

variable {reader : Reader} {rules : Url.Rules} {spec : ToolSpec} {literal rest safeUrl : Text}
  {params stored entries : Params}

/-- A value in the policed part has no delimiter. -/
theorem destinationValues_bare (hHosts : HostsValidated reader spec params) {name value : Text}
    (hValue : destinationValues stored (hostValues spec params) name = some value) :
    ∀ c ∈ value, Url.isDelimiter c = false := by
  intro c hMem
  unfold destinationValues at hValue
  split at hValue
  · obtain rfl := Option.some.inj hValue
    rcases Url.mem_quote hMem with hUnreserved | rfl
    · cases hDelimiter : Url.isDelimiter c with
      | false => rfl
      | true =>
          simp only [Url.isDelimiter, Bool.or_eq_true, beq_iff_eq] at hDelimiter
          rcases hDelimiter with (rfl | rfl) | rfl <;> cases hUnreserved
    · rfl
  · unfold hostValues at hValue
    split at hValue
    · rename_i declared hDeclared
      split at hValue
      · rename_i hHost
        obtain ⟨given, hGiven⟩ := hHosts name declared value hDeclared hHost hValue
        have hBare := (validateHost_ok hGiven).1
        cases hDelimiter : Url.isDelimiter c with
        | false => rfl
        | true =>
            simp only [Url.isDelimiter, Bool.or_eq_true, beq_iff_eq] at hDelimiter
            rcases hDelimiter with (rfl | rfl) | rfl
            · exact absurd hMem (hBare '/' (by decide))
            · exact absurd hMem (hBare '?' (by decide))
            · exact absurd hMem (hBare '#' (by decide))
      · cases hValue
    · cases hValue

/-- The url is a scheme, `://` and a netloc, and then the literal text. -/
theorem rendered_cases (hChecked : Checked reader spec) (hScheme : SchemeOutside spec)
    (hPrefix : PathPrefix spec literal rest) (hHosts : HostsValidated reader spec params)
    (hUrl : renderUrl spec params stored (underFields entries) = .ok safeUrl) :
    ∃ a b after, safeUrl = (a ++ ':' :: '/' :: '/' :: b) ++ (literal ++ after) ∧ '/' ∉ a ∧
      (∀ c ∈ b, Url.isDelimiter c = false) ∧
      renderTemplate rest (urlValues spec params stored (underFields entries)) = .ok after := by
  obtain ⟨refs, hRefs, hSecrets, hHostParams⟩ := hChecked.policed
  unfold renderUrl at hUrl
  rw [← policed_append spec.urlTemplate, hPrefix.path] at hUrl
  obtain ⟨front, back, hFront, hBack, rfl⟩ := renderTemplate_append hRefs hUrl
  have hPlain : ∀ c ∈ literal, c ≠ '{' ∧ c ≠ '}' := fun c hMem =>
    ⟨(hPrefix.plain c hMem).1, (hPrefix.plain c hMem).2.1⟩
  obtain ⟨before, after, hLiteral, hAfter, rfl⟩ :=
    renderTemplate_append (collectRefs_plain hPlain) hBack
  obtain rfl : literal = before :=
    Except.ok.inj ((renderTemplate_plain hPlain).symm.trans hLiteral)
  have hSame : renderTemplate (policed spec.urlTemplate).1
      (destinationValues stored (hostValues spec params)) = .ok front := by
    rw [← hFront]
    exact (renderTemplate_congr hRefs fun name hName =>
      urlValues_policed hChecked hSecrets hHostParams hName).symm
  obtain ⟨i, host, a, b, hFind, hSlash, hPoliced, hA, hB, rfl⟩ := render_slashes hScheme hSame
  refine ⟨a, b, after, rfl, fun hMem => ?_, fun c hMem => ?_, hAfter⟩
  · rcases mem_renderTemplate hA hMem with hOwn | ⟨name, value, hValue, hIn⟩
    · exact hPrefix.scheme i hFind hOwn
    · have hNot := destinationValues_bare hHosts hValue '/' hIn
      cases hNot
  · rcases mem_renderTemplate hB hMem with hOwn | ⟨name, value, hValue, hIn⟩
    · have hHere : c ∈ (policed spec.urlTemplate).1 := by simp [hPoliced, hOwn]
      have hOther := hPrefix.host c hHere
      have hNotSlash : c ≠ '/' := by
        rintro rfl
        exact hSlash hOwn
      simp [Url.isDelimiter, hOther.1, hOther.2, hNotSlash]
    · exact destinationValues_bare hHosts hValue c hIn

end Rendered

/-! ## The url with its secrets in it -/

section Substituted

variable {sentinel value front literal after netloc url : Text} {resolved : Resolved}
  {entries : Params}

theorem IsSentinel.solid (hSentinel : IsSentinel sentinel) : 'o' ∈ sentinel := by
  obtain ⟨uuid, rfl⟩ := hSentinel
  exact List.mem_append_left _ (by decide)

/-- Replacing a sentinel leaves the delimiters where they are. -/
theorem through_sentinel (hSentinel : IsSentinel sentinel) {c : Char}
    (hDelimiter : Url.isDelimiter c = true) (value : Text) :
    Text.Through c fun t => Text.replace t sentinel (Url.quote value) := by
  refine Text.through_replace (hSentinel.delimiter hDelimiter) fun hMem => ?_
  simp only [Url.isDelimiter, Bool.or_eq_true, beq_iff_eq] at hDelimiter
  rcases hDelimiter with (rfl | rfl) | rfl <;>
    rcases Url.mem_quote hMem with hUnreserved | hPercent <;> contradiction

/-- A segment in which a sentinel has been replaced is like the one with it. -/
theorem alike_replace (hSentinel : IsSentinel sentinel) (hSolid : Dots.Solid value)
    (segment : Text) : Dots.Alike (Url.kept segment)
      (Url.kept (Text.replace segment sentinel (Url.quote value))) := by
  by_cases hInfix : sentinel <:+: segment
  · have hSome : sentinel ≠ [] := List.ne_nil_of_mem hSentinel.solid
    obtain ⟨c, hC, hOther⟩ := hSolid
    obtain ⟨d, hD, hNot⟩ := Url.exists_mem_quote hC hOther
    have hNew : Url.quote value <:+: _ := Text.infix_replace hSome hInfix
    have hKept : Url.isRemoved d = false := by
      cases hRemoved : Url.isRemoved d with
      | false => rfl
      | true =>
          simp only [Url.isRemoved, Bool.or_eq_true, beq_iff_eq] at hRemoved
          rcases hRemoved with (rfl | rfl) | rfl <;>
            rcases Url.mem_quote hD with hUnreserved | hPercent <;> contradiction
    refine .inr ⟨⟨'o', ?_, by decide⟩, ⟨d, ?_, hNot⟩⟩
    · exact List.mem_filter.mpr ⟨hInfix.subset hSentinel.solid, rfl⟩
    · exact List.mem_filter.mpr ⟨hNew.subset hD, by rw [hKept, Bool.not_false]⟩
  · rw [Text.replace_of_not_infix hInfix]
    exact .refl _

theorem segments_replace (hSentinel : IsSentinel sentinel) (hSolid : Dots.Solid value)
    (after : Text) : List.Forall₂ Dots.Alike (Url.segments after)
      (Url.segments (Text.replace after sentinel (Url.quote value))) := by
  have hPath := Url.pathPart_through (through_sentinel hSentinel rfl value)
    (through_sentinel hSentinel rfl value) after
  have hParts := (through_sentinel hSentinel (c := '/') rfl value).splitOn (Url.pathPart after)
  rw [Url.segments_eq_map, Url.segments_eq_map, hPath, hParts, List.map_map]
  refine List.forall₂_map_left_iff.mpr (List.forall₂_map_right_iff.mpr
    (List.forall₂_same.mpr fun segment _ => ?_))
  exact alike_replace hSentinel hSolid segment

/-- Literal text without the sentinel stays. -/
theorem replace_behind (hSentinel : IsSentinel sentinel) (hFront : ¬sentinel <:+: front)
    (hLiteral : ¬sentinel <:+: literal)
    (hForm : literal = ['/'] ∨ ∃ start, literal = '/' :: (start ++ ['/'])) :
    Text.replace (front ++ (literal ++ after)) sentinel value =
      front ++ (literal ++ Text.replace after sentinel value) := by
  have hSlash : '/' ∉ sentinel := hSentinel.delimiter rfl
  rcases hForm with rfl | ⟨start, rfl⟩
  · rw [List.singleton_append, Text.replace_append_cons hSlash, Text.replace_of_not_infix hFront]
    rfl
  · have hStart : ¬sentinel <:+: start := fun hInfix =>
      hLiteral (hInfix.trans ⟨['/'], ['/'], by simp⟩)
    rw [List.cons_append, List.append_assoc, List.singleton_append,
      Text.replace_append_cons hSlash, Text.replace_append_cons hSlash,
      Text.replace_of_not_infix hFront, Text.replace_of_not_infix hStart]
    simp

theorem substituteFrom_behind (hEntries : ∀ entry ∈ entries, IsSentinel entry.2)
    (hFront : ∀ sentinel, IsSentinel sentinel → Text.has netloc sentinel = false →
      ¬sentinel <:+: front)
    (hFresh : ∀ entry ∈ entries, ¬entry.2 <:+: literal)
    (hSolid : ∀ entry ∈ entries, Dots.Solid (valueOf resolved entry.1))
    (hForm : literal = ['/'] ∨ ∃ start, literal = '/' :: (start ++ ['/']))
    (hUrl : substituteFrom netloc resolved (front ++ (literal ++ after)) entries = .ok url) :
    ∃ sent, url = front ++ (literal ++ sent) ∧
      List.Forall₂ Dots.Alike (Url.segments after) (Url.segments sent) := by
  induction entries generalizing after with
  | nil => exact ⟨after, (Except.ok.inj hUrl).symm, List.forall₂_same.mpr fun _ _ => .refl _⟩
  | cons entry rest ih =>
      obtain ⟨code, sentinel⟩ := entry
      have hSentinel : IsSentinel sentinel := hEntries _ List.mem_cons_self
      rw [substituteFrom] at hUrl
      split at hUrl
      · cases hUrl
      · rename_i hHas
        have hNot := hFront sentinel hSentinel (Bool.eq_false_iff.mpr hHas)
        rw [replace_behind hSentinel hNot (hFresh _ List.mem_cons_self) hForm] at hUrl
        obtain ⟨sent, hSent, hAlike⟩ :=
          ih (fun other hOther => hEntries other (List.mem_cons_of_mem _ hOther))
            (fun other hOther => hFresh other (List.mem_cons_of_mem _ hOther))
            (fun other hOther => hSolid other (List.mem_cons_of_mem _ hOther)) hUrl
        have hOne := segments_replace hSentinel (hSolid _ List.mem_cons_self) after
        exact ⟨sent, hSent, Dots.alike_trans hOne hAlike⟩

end Substituted

/-! ## Runs -/

/-- The path of a url, without its dot segments, begins with the text. -/
def PathKept (rules : Url.Rules) (literal url : Text) : Prop :=
  ∃ parts, Url.urlsplit rules url = some parts ∧ literal <+: Dots.remove parts.path

/-- Literal text that is left as it is where a url is split and its dot segments are removed. -/
structure Lasting (literal : Text) : Prop where
  kept : ∀ c ∈ literal, Url.isRemoved c = false
  plain : ∀ segment ∈ literal.splitOn '/', Dots.Plain segment

/-- The segments that are rendered behind the literal text never take back more than is there,
and the secrets among them are not of dots only. -/
structure StaysBelow (env : Env) (spec : ToolSpec) (plan : Plan) (stored : Params)
    (literal rest : Text) (request : Sent) : Prop where
  segments : ∀ after, renderTemplate rest (urlValues spec request.params stored
    (underFields (sentinels env plan))) = .ok after →
      literal = ['/'] ∨ Dots.stays 0 (Url.segments after) = true
  secrets : ∀ code ∈ plan.urlRefs.secrets, Dots.Solid (valueOf request.prepared.resolved code)

theorem prefix_of_stays {literal path : Text} (hLasting : Lasting literal)
    (hForm : literal = ['/'] ∨ ∃ start, literal = '/' :: (start ++ ['/']))
    (hStays : literal = ['/'] ∨ Dots.stays 0 (path.splitOn '/') = true) :
    literal <+: Dots.remove (literal ++ path) := by
  have hRoot : ['/'] <+: Dots.remove (['/'] ++ path) := by
    rw [List.singleton_append, Dots.remove]
    exact List.cons_prefix_cons.mpr ⟨rfl, List.nil_prefix⟩
  rcases hForm with rfl | ⟨start, rfl⟩
  · exact hRoot
  · rcases hStays with hSame | hStays
    · rw [hSame]
      exact hRoot
    · have hPlain : ∀ segment ∈ start.splitOn '/', Dots.Plain segment := by
        intro segment hSegment
        refine hLasting.plain segment ?_
        rw [List.splitOn_cons_eq_if_modifyHead, if_pos (by rfl), List.splitOn_append_cons_self]
        exact List.mem_cons_of_mem _ (List.mem_append_left _ hSegment)
      have hPath : '/' :: (start ++ ['/']) ++ path = '/' :: (start ++ '/' :: path) := by simp
      rw [hPath]
      exact Dots.prefix_remove hPlain hStays

section Runs

variable {s : Service} {content literal rest : Text} {spec : ToolSpec} {call : Invocation}

/-- A request whose segments stay below the literal start of its path keeps it. -/
theorem pathKept_of_confined {d : Deployment} {env : Env} {plan : Plan} {user : Option Text}
    {stored : Params} {safeUrl : Text} {request : Sent} (hChecked : Checked d.reader spec)
    (hScheme : SchemeOutside spec) (hPrefix : PathPrefix spec literal rest)
    (hLasting : Lasting literal) (hHosts : HostsValidated d.reader spec request.params)
    (hFresh : ∀ entry ∈ sentinels env plan, ¬entry.2 <:+: literal)
    (hStays : StaysBelow env spec plan stored literal rest request)
    (hConfined : Confined d env spec plan request.params user stored safeUrl request.prepared) :
    PathKept d.rules literal request.prepared.request.url := by
  obtain ⟨a, b, after, rfl, hA, hB, hAfter⟩ :=
    rendered_cases hChecked hScheme hPrefix hHosts hConfined.rendered
  obtain ⟨origin, hSafe, hSent⟩ := hConfined.origin
  obtain ⟨parts, hSplit, hNetloc, hHttp⟩ := parts_of_origin hSafe
  obtain ⟨hSome, hLength⟩ := scheme_short hHttp
  obtain ⟨-, scheme, hClean, hLower⟩ :=
    Url.split_append rfl hA hB (hPrefix.isTail after) hSplit hSome hNetloc
  rw [hLower, List.length_map] at hLength
  have hUrl := hConfined.url
  have hNetlocOf : netlocOf d.rules ((a ++ ':' :: '/' :: '/' :: b) ++ (literal ++ after)) =
      parts.netloc := by
    rw [netlocOf, hSplit]
    rfl
  have hSolid : ∀ entry ∈ sentinels env plan,
      Dots.Solid (valueOf (placedIn .url request.prepared.resolved) entry.1) := by
    intro entry hEntry
    obtain ⟨code, hCode, rfl⟩ := List.mem_map.mp hEntry
    have hMem := List.mem_dedup.mp hCode
    rw [valueOf, lookup_placedIn (hConfined.secrets.inPlace.url code hMem)]
    exact hStays.secrets code hMem
  rw [substituteUrlSecrets, hNetlocOf] at hUrl
  -- The secrets are filled in behind the literal start, and change no segment that counts.
  obtain ⟨sent, hEq, hAlike⟩ := substituteFrom_behind (fun entry => isSentinel_of_mem)
    (fun sentinel hSentinel => hSentinel.not_infix_front hClean hLength) hFresh hSolid
    hPrefix.cases hUrl
  obtain ⟨found, hFound, hFoundNetloc, hFoundHttp⟩ := parts_of_origin hSent
  refine ⟨found, hFound, ?_⟩
  rw [hEq] at hFound
  obtain ⟨hPath, -⟩ := Url.split_append rfl hA hB (hPrefix.isTail sent) hFound
    (scheme_short hFoundHttp).1 hFoundNetloc
  have hKept : Url.kept (literal ++ sent) = literal ++ Url.kept sent := by
    rw [Url.kept, List.filter_append, List.filter_eq_self.mpr fun c hMem => by
      rw [hLasting.kept c hMem, Bool.not_false]]
    rfl
  have hNoQuery : ∀ c ∈ literal, c ≠ '?' ∧ c ≠ '#' := fun c hMem => (hPrefix.plain c hMem).2.2
  rw [hPath, hKept, Url.pathPart_append hNoQuery]
  refine prefix_of_stays hLasting hPrefix.cases ?_
  exact (hStays.segments after hAfter).imp_right fun hSegments =>
    (Dots.stays_alike hAlike).symm.trans hSegments

/-- In a call whose requests stay below the literal start of the path, each of them keeps it. -/
theorem paths_kept (hSpec : parseToolSpec s.deployment.reader content = .ok spec)
    (hScheme : SchemeOutside spec) (hPrefix : PathPrefix spec literal rest)
    (hLasting : Lasting literal) (hPages : ¬PagesOverHost spec call.options)
    (hFresh : ∀ i code, ¬"of-secret-".toList ++ ((call.env i).uuid code).hex <:+: literal)
    (hStays : ∀ request ∈ s.sentIn content call, ∀ plan stored, collectPlan spec = .ok plan →
      userValues (call.env request.index) plan call.user = .ok stored →
        StaysBelow (call.env request.index) spec plan stored literal rest request) :
    ∀ request ∈ s.sentIn content call,
      PathKept s.deployment.rules literal request.prepared.request.url := by
  intro request hSent
  obtain ⟨other, plan, stored, safeUrl, hOther, hPlan, hConfined⟩ := confined_of_mem_sent hSent
  obtain rfl : spec = other := Except.ok.inj (hSpec.symm.trans hOther)
  have hEntries : ∀ entry ∈ sentinels (call.env request.index) plan, ¬entry.2 <:+: literal := by
    intro entry hEntry
    obtain ⟨code, -, rfl⟩ := List.mem_map.mp hEntry
    exact hFresh request.index code
  exact pathKept_of_confined (checked_of_parseToolSpec hSpec) hScheme hPrefix hLasting
    (hostsValidated_of_sent hSpec hPages hSent) hEntries
    (hStays request hSent plan stored hPlan hConfined.values) hConfined

end Runs

/-! ## A record with one segment behind a version -/

def versionRecord : Json :=
  .object
    [("method", .string "GET"), ("url_template", .string "https://api.example.com/v1/\x7bx\x7d"),
      ("params_schema", .object [("x", stringParam)])]

def versionText : Text :=
  "\x7b\"method\": \"GET\", \"url_template\": \"https://api.example.com/v1/\x7bx\x7d\", ".toList ++
    "\"params_schema\": \x7b\"x\": \x7b\"type\": \"string\", \"required\": true\x7d\x7d\x7d".toList

def versionSpec : ToolSpec where
  method := "GET".toList
  urlTemplate := "https://api.example.com/v1/\x7bx\x7d".toList
  params := [("x".toList, ⟨true, .string, []⟩)]

def versionCall (x : String) : Invocation where
  env := fun _ => smallEnv []
  name := "e".toList
  params := [("x".toList, .string x)]
  user := some "u".toList
  options := {}
  tables := ⟨[], 0⟩

theorem version_parsed :
    parseToolSpec (smallService versionText versionRecord).deployment.reader versionText =
      .ok versionSpec := by
  decide +kernel

theorem version_scheme : SchemeOutside versionSpec := ⟨5, {}, by decide +kernel, by decide +kernel⟩

theorem version_prefix : PathPrefix versionSpec "/v1/".toList "\x7bx\x7d".toList where
  path := by decide +kernel
  plain := Text.forall_mem_of_all (by decide)
  ends := ⟨"/v1".toList, by decide⟩
  scheme := by
    intro i hFind
    have hFive : Text.find? "://".toList versionSpec.urlTemplate = some 5 := by decide +kernel
    obtain rfl : i = 5 := Option.some.inj (hFind.symm.trans hFive)
    decide +kernel
  host := Text.forall_mem_of_all (by decide +kernel)

theorem version_lasting : Lasting "/v1/".toList where
  kept := Text.forall_mem_of_all (by decide)
  plain := by decide

/-- Two dots are one segment to the validation, and quoted they are two dots. -/
theorem path_left :
    parseToolSpec (smallService versionText versionRecord).deployment.reader versionText =
        .ok versionSpec ∧
      PathPrefix versionSpec "/v1/".toList "\x7bx\x7d".toList ∧ Lasting "/v1/".toList ∧
      ∃ request ∈ (smallService versionText versionRecord).sentIn versionText (versionCall ".."),
        ¬PathKept (smallService versionText versionRecord).deployment.rules "/v1/".toList
          request.prepared.request.url := by
  refine ⟨version_parsed, version_prefix, version_lasting, ?_⟩
  have hUrls : ((smallService versionText versionRecord).sentIn versionText
      (versionCall "..")).map (·.prepared.request.url) =
        ["https://api.example.com/v1/..".toList] := by decide +kernel
  obtain ⟨request, hSent, hUrl⟩ := List.mem_map.mp (hUrls.symm ▸ List.mem_singleton.mpr rfl)
  refine ⟨request, hSent, ?_⟩
  rintro ⟨parts, hSplit, hKept⟩
  have hParts : Url.urlsplit (smallService versionText versionRecord).deployment.rules
      "https://api.example.com/v1/..".toList =
        some ⟨"https".toList, "api.example.com".toList, "/v1/..".toList, [], []⟩ := by
    decide +kernel
  rw [hUrl, hParts] at hSplit
  rw [← Option.some.inj hSplit] at hKept
  exact absurd hKept (by decide)

theorem paths_kept_version :
    ∃ request ∈ (smallService versionText versionRecord).sentIn versionText (versionCall "a"),
      PathKept (smallService versionText versionRecord).deployment.rules "/v1/".toList
        request.prepared.request.url := by
  have hParams : ((smallService versionText versionRecord).sentIn versionText
      (versionCall "a")).map (·.params) = [[("x".toList, "a".toList)]] := by decide +kernel
  have hPages : ¬PagesOverHost versionSpec (versionCall "a").options := fun hPages => by
    cases hPages.1
  obtain ⟨request, hSent, -⟩ := List.mem_map.mp (hParams.symm ▸ List.mem_singleton.mpr rfl)
  have hFresh : ¬"of-secret-0123456789abcdef0123456789abcdef".toList <:+: "/v1/".toList := by decide
  refine ⟨request, hSent, paths_kept version_parsed version_scheme version_prefix version_lasting
    hPages (fun _ _ => hFresh) ?_ request hSent⟩
  intro other hOther plan stored hPlan hStored
  have hOne : collectPlan versionSpec = .ok ⟨{ params := ["x".toList] }, {}, []⟩ := by
    decide +kernel
  obtain rfl := Except.ok.inj (hOne.symm.trans hPlan)
  obtain rfl : [] = stored := Except.ok.inj hStored
  have hMem : other.params ∈ [[("x".toList, "a".toList)]] :=
    hParams ▸ List.mem_map_of_mem hOther
  refine ⟨fun after hAfter => .inr ?_, fun code hCode => by cases hCode⟩
  rw [List.mem_singleton.mp hMem] at hAfter
  obtain rfl : "a".toList = after := Except.ok.inj hAfter
  decide

end External
end OctoForge
