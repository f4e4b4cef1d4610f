import Mathlib.Data.List.Pairwise
import OctoForge.External.Rendering
import OctoForge.Sequence.Dict

/-!
# The headers of a request

Headers come from the record, from its `auth` object and from the whitelist of the installation, and
are kept under their names as they are written.  Servers do not tell the case of letters apart, and
so a name that is written in two ways is sent twice.
-/

namespace OctoForge
namespace External

open Collections Fallible

/-- Names of headers, to a server. -/
def SameName (name other : Text) : Prop := name.map Char.toLower = other.map Char.toLower

instance (name other : Text) : Decidable (SameName name other) :=
  inferInstanceAs (Decidable (_ = _))

theorem SameName.symm {name other : Text} (hSame : SameName name other) : SameName other name :=
  Eq.symm hSame

/-- A template with a secret in it. -/
def Bears (template : Text) : Prop := ∃ refs, collectRefs template = .ok refs ∧ refs.secrets ≠ []

/-- The header of the `auth` object of a document. -/
def ownHeader (reader : Reader) (data : Payload) : Option (Text × Text) :=
  match Json.lookup data "auth" with
  | some (.object raw) => (expandSecretAuth reader raw).toOption
  | _ => none

/-- Where the headers of a request come from: the templates of the record, the one of its `auth`
object among them, and what the whitelist has for the url. -/
structure Sources where
  record : List (Text × Text)
  own : Option (Text × Text)
  whitelist : List (Text × Text)
  values : Text → Option Text

namespace Sources

variable (s : Sources)

/-- The names of all headers. -/
def names : List Text := s.record.map (·.1) ++ s.whitelist.map (·.1)

/-- The `auth` object of a record goes before its other headers. -/
def Owned (header : Text × Text) : Prop :=
  ∀ own, s.own = some own → SameName own.1 header.1 → header = own

/-- The header that is to be sent under a name. -/
inductive Survivor (name value : Text) : Prop
  | bearing {header : Text × Text} (hRecord : header ∈ s.record) (hSame : SameName header.1 name)
      (hBears : Bears header.2) (hOwned : s.Owned header)
      (hValue : renderTemplate header.2 s.values = .ok value)
  | whitelist {entry : Text × Text} (hListed : entry ∈ s.whitelist) (hSame : SameName entry.1 name)
      (hNone : ∀ header ∈ s.record, SameName header.1 name → ¬Bears header.2)
      (hValue : entry.2 = value)
  | plain {header : Text × Text} (hRecord : header ∈ s.record) (hSame : SameName header.1 name)
      (hNone : ∀ header ∈ s.record, SameName header.1 name → ¬Bears header.2)
      (hUnlisted : ∀ entry ∈ s.whitelist, ¬SameName entry.1 name) (hOwned : s.Owned header)
      (hValue : renderTemplate header.2 s.values = .ok value)

/-- One header for each name, and it is the one that goes before the others. -/
structure Precedence (sent : List (Text × Text)) : Prop where
  single : sent.Pairwise fun header other => ¬SameName header.1 other.1
  complete : ∀ name ∈ s.names, ∃ header ∈ sent, SameName header.1 name
  survivor : ∀ header ∈ sent, s.Survivor header.1 header.2

/-- No name is written in two ways. -/
def OneSpelling : Prop := ∀ name ∈ s.names, ∀ other ∈ s.names, SameName name other → name = other

instance : Decidable s.OneSpelling :=
  inferInstanceAs (Decidable (∀ name ∈ s.names, ∀ other ∈ s.names, SameName name other → name = other))

end Sources

/-- What the headers of a request are made of. -/
def sourcesOf (d : Deployment) (data : Payload) (spec : ToolSpec) (url : Text) (user : Option Text)
    (values : Text → Option Text) : Sources where
  record := spec.headers
  own := ownHeader d.reader data
  whitelist := authHeadersFor d url user
  values := values

/-- `json.loads` makes a dictionary of an object: a name is in it once. -/
def Reader.Dictionaries (reader : Reader) : Prop :=
  ∀ content members, reader.loads content = .ok (some (.object members)) →
    ∀ name inner, Json.lookup members name = some (.object inner) → (inner.map (·.1)).Nodup

/-! ## The headers of a record -/

section Record

variable {reader : Reader} {data : Payload} {spec : ToolSpec} {plan : Plan}
  {headers : List (Text × Text)}

theorem putHeader_eq_put (hNodup : (headers.map (·.1)).Nodup) (header : Text × Text) :
    putHeader headers header = Dict.put header.1 header.2 headers := by
  induction headers with
  | nil => rfl
  | cons first rest ih =>
      obtain ⟨hFirst, hRest⟩ := List.nodup_cons.mp hNodup
      rw [Dict.put]
      by_cases hSame : first.1 = header.1
      · have hOthers : rest.map (fun kept => if kept.1 == header.1 then header else kept) = rest := by
          conv_rhs => rw [← List.map_id rest]
          refine List.map_congr_left fun kept hKept => ?_
          rw [beq_false_of_ne fun hOther => hFirst (List.mem_map.mpr ⟨kept, hKept, ?_⟩)]
          · rfl
          · exact hOther.trans hSame.symm
        rw [if_pos hSame, putHeader, if_pos (by simp [hSame]), List.map_cons, hOthers,
          if_pos (beq_iff_eq.mpr hSame)]
      · rw [if_neg hSame, ← ih hRest, putHeader, putHeader, List.any_cons,
          beq_false_of_ne hSame, Bool.false_or]
        split
        · rw [List.map_cons, beq_false_of_ne hSame]
          rfl
        · rfl

theorem foldl_putHeader {pairs : List (Text × Text)} (hNodup : (headers.map (·.1)).Nodup) :
    pairs.foldl putHeader headers = Dict.update headers pairs := by
  induction pairs generalizing headers with
  | nil => rfl
  | cons pair rest ih =>
      rw [List.foldl_cons, putHeader_eq_put hNodup, ih (Dict.nodup_put hNodup)]
      rfl

theorem name_of_parseHeader {member : String × Json} {header : Text × Text}
    (hHeader : parseHeader reader member = .ok header) : header.1 = member.1.toList := by
  unfold parseHeader at hHeader
  split at hHeader
  · cases hHeader
  · split at hHeader
    · rw [← Except.ok.inj hHeader]
    · cases hHeader

/-- A record has each name once. -/
theorem Accepted.headers_nodup (hAccepted : Accepted reader data spec)
    (hDict : ∀ name inner, Json.lookup data name = some (.object inner) →
      (inner.map (·.1)).Nodup) : (spec.headers.map (·.1)).Nodup := by
  obtain ⟨plain, hPlain, hAuth⟩ := hAccepted.headers
  have hNodup : (plain.map (·.1)).Nodup := by
    unfold parseHeaders at hPlain
    split at hPlain
    · rw [← Except.ok.inj hPlain]
      exact List.nodup_nil
    · rw [← Except.ok.inj hPlain]
      exact List.nodup_nil
    · rename_i members hHeaders
      have hNames : plain.map (·.1) = members.map (·.1.toList) :=
        map_of_mapM (fun member header hHeader => name_of_parseHeader hHeader) hPlain
      have hTexts : members.map (·.1.toList) = (members.map (·.1)).map String.toList := by simp
      rw [hNames, hTexts]
      exact (hDict "headers" members hHeaders).map fun _ _ => String.toList_inj.mp
    · cases hPlain
  unfold parseAuth at hAuth
  split at hAuth
  · rwa [← Except.ok.inj hAuth]
  · obtain ⟨header, -, hAuth⟩ := bind_eq_ok.mp hAuth
    rw [← Except.ok.inj hAuth, putHeader_eq_put hNodup]
    exact Dict.nodup_put hNodup
  · split at hAuth
    · rwa [← Except.ok.inj hAuth]
    · cases hAuth
  · cases hAuth

theorem Accepted.own_mem (hAccepted : Accepted reader data spec) {own : Text × Text}
    (hOwn : ownHeader reader data = some own) : own ∈ spec.headers := by
  obtain ⟨plain, -, hAuth⟩ := hAccepted.headers
  unfold ownHeader at hOwn
  split at hOwn
  · rename_i raw hObject
    rw [hObject] at hAuth
    obtain ⟨header, hHeader, hAuth⟩ := bind_eq_ok.mp hAuth
    rw [hHeader] at hOwn
    obtain rfl := Option.some.inj hOwn
    rw [← Except.ok.inj hAuth, putHeader]
    split
    · rename_i hAny
      obtain ⟨kept, hKept, hSame⟩ := List.any_eq_true.mp hAny
      exact List.mem_map.mpr ⟨kept, hKept, if_pos hSame⟩
    · exact List.mem_append_right _ (List.mem_singleton_self _)
  · cases hOwn

theorem value_unique {β : Type} {entries : List (Text × β)} (hNodup : (entries.map (·.1)).Nodup)
    {entry other : Text × β} (hEntry : entry ∈ entries) (hOther : other ∈ entries)
    (hSame : entry.1 = other.1) : entry = other :=
  List.inj_on_of_nodup_map hNodup hEntry hOther hSame

/-- Whether a header has a secret in it is asked by its name. -/
theorem bearsSecret_iff (hNodup : (spec.headers.map (·.1)).Nodup)
    (hPlan : collectPlan spec = .ok plan) {header : Text × Text} (hHeader : header ∈ spec.headers) :
    bearsSecret plan header.1 = true ↔ Bears header.2 := by
  obtain ⟨-, -, hRefs⟩ := collectPlan_ok hPlan
  have hNames : plan.headerRefs.map (·.1) = spec.headers.map (·.1) :=
    map_of_mapM (fun header entry hEntry => by
      obtain ⟨refs, -, rfl⟩ := map_eq_ok.mp hEntry
      rfl) hRefs
  obtain ⟨entry, hEntry, hOne⟩ := result_of_mapM hRefs header hHeader
  obtain ⟨refs, hCollect, rfl⟩ := map_eq_ok.mp hOne
  have hLookup : plan.headerRefs.lookup header.1 = some refs := by
    obtain ⟨found, hFound⟩ := exists_lookup_of_mem hEntry
    have hSame := value_unique (hNames ▸ hNodup) (mem_of_lookup hFound) hEntry rfl
    rw [hFound, (Prod.mk.inj hSame).2]
  rw [bearsSecret, hLookup]
  constructor
  · intro hBears
    exact ⟨refs, hCollect, by simpa using hBears⟩
  · rintro ⟨others, hOthers, hSecrets⟩
    obtain rfl := Except.ok.inj (hCollect.symm.trans hOthers)
    simpa using hSecrets

end Record

/-! ## What is built -/

section Built

variable {d : Deployment} {spec : ToolSpec} {plan : Plan} {url : Text} {user : Option Text}
  {values : Text → Option Text} {built : List (Text × Text)}

theorem renderHeader_ok {header rendered : Text × Text}
    (hRender : renderHeader d.reader values header = .ok rendered) :
    rendered.1 = header.1 ∧ renderTemplate header.2 values = .ok rendered.2 := by
  obtain ⟨value, hValue, hRender⟩ := bind_eq_ok.mp hRender
  split at hRender
  · rw [← Except.ok.inj hRender]
    exact ⟨rfl, hValue⟩
  · cases hRender

theorem authHeadersFor_nodup : ((authHeadersFor d url user).map (·.1)).Nodup := by
  unfold authHeadersFor
  split
  · unfold renderAuthHeader
    split
    · split
      · exact List.nodup_nil
      · exact List.nodup_singleton _
    · exact List.nodup_singleton _
  · exact List.nodup_nil

/-- A header of the record, and its value. -/
def RenderedFrom (values : Text → Option Text) (header rendered : Text × Text) : Prop :=
  rendered.1 = header.1 ∧ renderTemplate header.2 values = .ok rendered.2

/-- What is sent: a header of the record with a secret in it, one of the whitelist that no such
header has the name of, or a plain one that neither has the name of. -/
structure BuiltFrom (s : Sources) (built : List (Text × Text)) : Prop where
  nodup : (built.map (·.1)).Nodup
  names : ∀ name, name ∈ built.map (·.1) ↔ name ∈ s.names
  cases : ∀ sent ∈ built,
    (∃ header ∈ s.record, Bears header.2 ∧ RenderedFrom s.values header sent) ∨
      (∀ header ∈ s.record, header.1 = sent.1 → ¬Bears header.2) ∧
        (sent ∈ s.whitelist ∨ (∀ entry ∈ s.whitelist, entry.1 ≠ sent.1) ∧
          ∃ header ∈ s.record, RenderedFrom s.values header sent)

theorem builtFrom_of_buildHeaders (data : Payload) (hNodup : (spec.headers.map (·.1)).Nodup)
    (hPlan : collectPlan spec = .ok plan)
    (hBuilt : buildHeaders d spec plan url user values = .ok built) :
    BuiltFrom (sourcesOf d data spec url user values) built := by
  obtain ⟨rendered, hRendered, hBuilt⟩ := bind_eq_ok.mp hBuilt
  obtain rfl := Except.ok.inj hBuilt
  have hNames : rendered.map (·.1) = spec.headers.map (·.1) :=
    map_of_mapM (fun header sent hSent => (renderHeader_ok hSent).1) hRendered
  have hRenderedNodup : (rendered.map (·.1)).Nodup := hNames ▸ hNodup
  have hPlain : ((rendered.filter fun header => !bearsSecret plan header.1).map (·.1)).Nodup :=
    hRenderedNodup.sublist (List.filter_sublist.map _)
  have hBearing : ((rendered.filter fun header => bearsSecret plan header.1).map (·.1)).Nodup :=
    hRenderedNodup.sublist (List.filter_sublist.map _)
  have hMiddle := Dict.nodup_update hPlain (authHeadersFor d url user)
  have hSource : ∀ sent ∈ rendered, ∃ header ∈ spec.headers, RenderedFrom values header sent ∧
      (bearsSecret plan sent.1 = true ↔ Bears header.2) := by
    intro sent hSent
    obtain ⟨header, hHeader, hOne⟩ := item_of_mapM hRendered sent hSent
    obtain ⟨hName, hValue⟩ := renderHeader_ok hOne
    exact ⟨header, hHeader, ⟨hName, hValue⟩, hName ▸ bearsSecret_iff hNodup hPlan hHeader⟩
  -- The plain headers, the whitelist over them, and what bears a secret over both.
  rw [foldl_putHeader hPlain, foldl_putHeader hMiddle]
  refine ⟨Dict.nodup_update hMiddle _, fun name => ?_, fun sent hSent => ?_⟩
  · rw [Dict.mem_keys_update hMiddle hBearing, Dict.mem_keys_update hPlain authHeadersFor_nodup,
      Sources.names, List.mem_append]
    change _ ↔ name ∈ spec.headers.map (·.1) ∨ name ∈ (authHeadersFor d url user).map (·.1)
    rw [← hNames]
    simp only [List.mem_map, List.mem_filter]
    constructor
    · rintro (⟨sent, ⟨hSent, -⟩, rfl⟩ | hListed | ⟨sent, ⟨hSent, -⟩, rfl⟩)
      · exact .inl ⟨sent, hSent, rfl⟩
      · exact .inr hListed
      · exact .inl ⟨sent, hSent, rfl⟩
    · rintro (⟨sent, hSent, rfl⟩ | hListed)
      · cases hBears : bearsSecret plan sent.1 with
        | true => exact .inl ⟨sent, ⟨hSent, hBears⟩, rfl⟩
        | false => exact .inr (.inr ⟨sent, ⟨hSent, by rw [hBears]; rfl⟩, rfl⟩)
      · exact .inr (.inl hListed)
  · rw [Dict.mem_update hMiddle hBearing, Dict.mem_update hPlain authHeadersFor_nodup] at hSent
    rcases hSent with hBears | ⟨hRest, hNone⟩
    · obtain ⟨hMem, hBears⟩ := List.mem_filter.mp hBears
      obtain ⟨header, hHeader, hFrom, hIff⟩ := hSource sent hMem
      exact .inl ⟨header, hHeader, hIff.mp hBears, hFrom⟩
    · refine .inr ⟨fun header hHeader hSame hBears => ?_, ?_⟩
      · obtain ⟨other, hOther, hOne⟩ := result_of_mapM hRendered header hHeader
        have hName := (renderHeader_ok hOne).1
        refine hNone other (List.mem_filter.mpr ⟨hOther, ?_⟩) (hName.trans hSame)
        rw [hName]
        exact (bearsSecret_iff hNodup hPlan hHeader).mpr hBears
      · rcases hRest with hListed | ⟨hPlainSent, hUnlisted⟩
        · exact .inl hListed
        · obtain ⟨header, hHeader, hFrom, -⟩ := hSource sent (List.mem_of_mem_filter hPlainSent)
          exact .inr ⟨hUnlisted, header, hHeader, hFrom⟩

/-- The headers of one spelling are told apart by servers too. -/
theorem BuiltFrom.precedence_iff {s : Sources} (hFrom : BuiltFrom s built)
    (hNodup : (s.record.map (·.1)).Nodup) (hOwn : ∀ own, s.own = some own → own ∈ s.record) :
    s.Precedence built ↔ s.OneSpelling := by
  constructor
  · intro hPrecedence name hName other hOther hSame
    obtain ⟨header, hHeader, rfl⟩ := List.mem_map.mp ((hFrom.names name).mpr hName)
    obtain ⟨sent, hSent, rfl⟩ := List.mem_map.mp ((hFrom.names other).mpr hOther)
    have hSymm : Std.Symm fun header other : Text × Text => ¬SameName header.1 other.1 :=
      ⟨fun _ _ hNot hSame => hNot hSame.symm⟩
    by_contra hTwice
    exact hPrecedence.single.forall hHeader hSent (fun hEq => hTwice (congrArg (·.1) hEq)) hSame
  · intro hOne
    -- With one spelling a name, headers of the same name are one header.
    have hRecord : ∀ {header : Text × Text}, header ∈ s.record → header.1 ∈ s.names :=
      fun hHeader => List.mem_append_left _ (List.mem_map_of_mem hHeader)
    have hListed : ∀ {entry : Text × Text}, entry ∈ s.whitelist → entry.1 ∈ s.names :=
      fun hEntry => List.mem_append_right _ (List.mem_map_of_mem hEntry)
    have hOwned : ∀ header ∈ s.record, s.Owned header := fun header hHeader own hSome hSame =>
      value_unique hNodup hHeader (hOwn own hSome)
        (hOne _ (hRecord (hOwn own hSome)) _ (hRecord hHeader) hSame).symm
    refine ⟨?_, fun name hName => ?_, fun sent hSent => ?_⟩
    · refine (List.pairwise_map.mp hFrom.nodup).imp_of_mem fun {header other} hHeader hOther hNe => ?_
      exact fun hSame => hNe (hOne _ ((hFrom.names _).mp (List.mem_map_of_mem hHeader)) _
        ((hFrom.names _).mp (List.mem_map_of_mem hOther)) hSame)
    · obtain ⟨sent, hSent, rfl⟩ := List.mem_map.mp ((hFrom.names name).mpr hName)
      exact ⟨sent, hSent, rfl⟩
    · have hName : sent.1 ∈ s.names := (hFrom.names _).mp (List.mem_map_of_mem hSent)
      rcases hFrom.cases sent hSent with ⟨header, hHeader, hBears, hSame, hValue⟩ |
        ⟨hNone, hEntry | ⟨hUnlisted, header, hHeader, hSame, hValue⟩⟩
      · exact .bearing hHeader (congrArg _ hSame.symm) hBears (hOwned header hHeader) hValue
      · exact .whitelist hEntry rfl
          (fun header hHeader hSame => hNone header hHeader (hOne _ (hRecord hHeader) _ hName hSame))
          rfl
      · exact .plain hHeader (congrArg _ hSame.symm)
          (fun header hHeader hSame => hNone header hHeader (hOne _ (hRecord hHeader) _ hName hSame))
          (fun entry hEntry hSame => hUnlisted entry hEntry (hOne _ (hListed hEntry) _ hName hSame))
          (hOwned header hHeader) hValue

end Built

/-- **The headers of a request** are one for each name, the one that goes before the others, exactly
when no name among those of the record and of the whitelist is spelled in two ways. -/
theorem headers_precedence_iff {d : Deployment} {content : Text} {data : Payload} {spec : ToolSpec}
    {plan : Plan} {url : Text} {user : Option Text} {values : Text → Option Text}
    {built : List (Text × Text)} (hDict : d.reader.Dictionaries)
    (hData : loadJson d.reader content = .ok data)
    (hSpec : parseToolSpec d.reader content = .ok spec) (hPlan : collectPlan spec = .ok plan)
    (hBuilt : buildHeaders d spec plan url user values = .ok built) :
    (sourcesOf d data spec url user values).Precedence built ↔
      (sourcesOf d data spec url user values).OneSpelling := by
  obtain ⟨found, hFound, hAccepted⟩ := accepted_of_parseToolSpec hSpec
  obtain rfl := Except.ok.inj (hData.symm.trans hFound)
  have hObjects : ∀ name inner, Json.lookup data name = some (.object inner) →
      (inner.map (·.1)).Nodup := by
    refine hDict content data ?_
    unfold loadJson at hData
    split at hData
    · cases hData
    · cases hData
    · rename_i hLoads
      rw [hLoads, Except.ok.inj hData]
    · cases hData
  have hNodup := hAccepted.headers_nodup hObjects
  exact (builtFrom_of_buildHeaders data hNodup hPlan hBuilt).precedence_iff hNodup
    fun own => hAccepted.own_mem

/-- A record with a header of its own beside the one of its `auth` object. -/
def authRecord (name : String) : Payload :=
  [("method", .string "GET"), ("url_template", .string "https://api.example.com/me"),
    ("headers", .object [(name, .string "anonymous")]),
    ("auth", .object [("secret", .string "token")])]

def authText (name : String) : Text :=
  "\x7b\"method\": \"GET\", \"url_template\": \"https://api.example.com/me\", ".toList ++
    "\"headers\": \x7b\"".toList ++ name.toList ++ "\": \"anonymous\"\x7d, ".toList ++
    "\"auth\": \x7b\"secret\": \"token\"\x7d\x7d".toList

/-- An installation that reads that record. -/
def authDeployment (name : String) : Deployment :=
  (smallService (authText name) (.object (authRecord name))).deployment

def authSpec (name : String) : ToolSpec where
  method := "GET".toList
  urlTemplate := "https://api.example.com/me".toList
  params := []
  bodyTemplate := none
  headers :=
    [(name.toList, "anonymous".toList), ("Authorization".toList, "Bearer \x7bsecret.token\x7d".toList)]
  response := none
  pagination := none

def authPlan (name : String) : Plan where
  urlRefs := {}
  bodyRefs := {}
  headerRefs := [(name.toList, {}), ("Authorization".toList, { secrets := ["token".toList] })]

/-- The values of a request with the secret. -/
def authValues : Text → Option Text :=
  renderValues [] [] [("token".toList, ⟨"t0".toList, "t0".toList, [.header]⟩)]

def authSources (name : String) : Sources :=
  sourcesOf (authDeployment name) (authRecord name) (authSpec name)
    "https://api.example.com/me".toList (some "u".toList) authValues

/-- A header of the record in other letters is sent beside the credential. -/
theorem authorization_sent_twice :
    parseToolSpec (authDeployment "authorization").reader (authText "authorization") =
        .ok (authSpec "authorization") ∧
      collectPlan (authSpec "authorization") = .ok (authPlan "authorization") ∧
      buildHeaders (authDeployment "authorization") (authSpec "authorization")
          (authPlan "authorization") "https://api.example.com/me".toList (some "u".toList)
          authValues =
        .ok [("authorization".toList, "anonymous".toList),
          ("Authorization".toList, "Bearer t0".toList)] ∧
      ¬(authSources "authorization").Precedence
        [("authorization".toList, "anonymous".toList),
          ("Authorization".toList, "Bearer t0".toList)] := by
  refine ⟨by decide +kernel, by decide +kernel, by decide +kernel, fun hPrecedence => ?_⟩
  exact absurd hPrecedence.single (by decide +kernel)

theorem authDeployment_dictionaries (name : String) :
    (authDeployment name).reader.Dictionaries := by
  intro content members hLoads key inner hLookup
  have hMembers : members = authRecord name := by
    change (if content = authText name then Except.ok (some (Json.object (authRecord name)))
      else .ok none) = Except.ok (some (Json.object members)) at hLoads
    split at hLoads
    · exact (Json.object.inj (Option.some.inj (Except.ok.inj hLoads))).symm
    · cases hLoads
  subst hMembers
  obtain ⟨⟨_, _⟩, hFind, rfl⟩ := Option.map_eq_some_iff.mp hLookup
  have hMem := List.mem_of_find?_eq_some hFind
  simp only [authRecord, List.mem_cons, List.not_mem_nil, or_false, Prod.mk.injEq, reduceCtorEq,
    and_false, false_or, Json.object.injEq] at hMem
  rcases hMem with ⟨-, rfl⟩ | ⟨-, rfl⟩
  · exact List.nodup_singleton _
  · exact List.nodup_singleton _

theorem headers_precedence_trace :
    (authSources "X-Trace").Precedence
      [("X-Trace".toList, "anonymous".toList), ("Authorization".toList, "Bearer t0".toList)] := by
  have hData : loadJson (authDeployment "X-Trace").reader (authText "X-Trace") =
      .ok (authRecord "X-Trace") := rfl
  have hSpec : parseToolSpec (authDeployment "X-Trace").reader (authText "X-Trace") =
      .ok (authSpec "X-Trace") := by decide +kernel
  have hPlan : collectPlan (authSpec "X-Trace") = .ok (authPlan "X-Trace") := by decide +kernel
  have hBuilt : buildHeaders (authDeployment "X-Trace") (authSpec "X-Trace") (authPlan "X-Trace")
      "https://api.example.com/me".toList (some "u".toList) authValues =
        .ok [("X-Trace".toList, "anonymous".toList),
          ("Authorization".toList, "Bearer t0".toList)] := by decide +kernel
  exact (headers_precedence_iff (authDeployment_dictionaries "X-Trace") hData hSpec hPlan
    hBuilt).mpr (by decide +kernel)

end External
end OctoForge
