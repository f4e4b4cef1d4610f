import Mathlib.Data.List.Nodup
import OctoForge.External.Passports

/-!
# The paths of a passport

A passport lists the large texts of a document with the paths to them: the keys, with a dot between
two of them.  Whoever reads a text passes its path as a key; it is stripped and split at its dots.
-/

namespace OctoForge
namespace Documents

open Collections (dottedGet)
open External (largeTexts largeMembers largeTextChars longerFirst StoredDocument)

/-- `_parse_optional_str`; an argument that is left out is `none`. -/
def parseOptionalStr (raw : Option Json) (name : Text) : Except Text (Option Text) :=
  match raw with
  | none | some .null => .ok none
  | some (.string value) =>
      if Text.strip value.toList = [] then .error (name ++ " must be a non-empty string".toList)
      else .ok (some (Text.strip value.toList))
  | some _ => .error (name ++ " must be a non-empty string".toList)

/-- `TEXT_HAS_NO_KEYS`. -/
def textHasNoKeys : Text := "this response is plain text; call without a key".toList

/-- `NO_KEY_TEMPLATE`. -/
def noKey (key : Text) (document : Option Json) : Text :=
  let known :=
    match document with
    | some (.object members) =>
        Text.join ", ".toList (((members.map (·.1)).mergeSort (· ≤ ·)).map String.toList)
    | _ => "(no keys)".toList
  "key '".toList ++ key ++ "' is not in this response; it has: ".toList ++ known

/-- A value as a tool shows it. -/
def shown : Json → Text
  | .string value => value.toList
  | value => value.dumps

/-- `_target`. -/
def target (item : StoredDocument) (key : Option Text) : Except Text Text :=
  match key with
  | none => .ok item.body
  | some key =>
      if item.parked then
        match item.document.bind fun document => dottedGet document key with
        | none => .error (noKey key item.document)
        | some value => .ok (shown value)
      else .error textHasNoKeys

/-- What a tool reads that is passed a key. -/
def readKey (item : StoredDocument) (key : Text) : Except Text Text := do
  let key ← parseOptionalStr (some (.string (String.ofList key))) "key".toList
  target item key

/-! ## Keys and paths -/

/-- What `_large_texts` makes of a path and the next key. -/
def nextPath (path : Text) (key : String) : Text :=
  if path.isEmpty then key.toList else path ++ ['.'] ++ key.toList

/-- The path to a text from the keys to it. -/
def pathOf (keys : List String) : Text := keys.foldl nextPath []

/-- The keys lead to a large text. -/
def LargeAt (document : Json) (keys : List String) (text : String) : Prop :=
  keys ≠ [] ∧ document.at? keys = some (.string text) ∧ largeTextChars < text.length

/-- The path can be split into the keys again. -/
structure Plain (keys : List String) : Prop where
  dotless : ∀ key ∈ keys, '.' ∉ key.toList
  named : keys.head? ≠ some ""
  trimmed : Text.strip (pathOf keys) = pathOf keys

/-- The path leads to another place of the document, which happens to read the same, and no other
large text has the path. -/
structure Twin (document : Json) (keys : List String) (text : String) : Prop where
  elsewhere : ∃ others value, others ≠ keys ∧
    others = ((Text.strip (pathOf keys)).splitOn '.').map String.ofList ∧
    document.at? others = some value ∧ shown value = text.toList
  filled : Text.strip (pathOf keys) ≠ []
  alone : ∀ others other, LargeAt document others other → pathOf others = pathOf keys → others = keys

/-- Every large text that is listed can be read by its path, and no path is listed twice. -/
structure Readable (item : StoredDocument) (document : Json) : Prop where
  reads : ∀ path text, (path, text) ∈ largeTexts [] document → readKey item path = .ok text
  once : ((largeTexts [] document).map (·.1)).Nodup

/-- No object that can be reached has a name twice: a `dict` has not. -/
def Dicts (document : Json) : Prop :=
  ∀ keys members, document.at? keys = some (.object members) → (members.map (·.1)).Nodup

/-! ## What is listed -/

mutual

/-- The keys to the large texts, with the texts, in the order of the document. -/
def largeKeys : Json → List (List String × String)
  | .object members => largeMemberKeys members
  | _ => []

def largeMemberKeys : List (String × Json) → List (List String × String)
  | [] => []
  | (name, value) :: rest =>
      (match value with
        | .string text => if largeTextChars < text.length then [([name], text)] else []
        | .object _ => (largeKeys value).map fun found => (name :: found.1, found.2)
        | _ => []) ++
        largeMemberKeys rest

end

/-- An entry of the list: the path from a start, and the text. -/
def entry (start : Text) (found : List String × String) : Text × Text :=
  (found.1.foldl nextPath start, found.2.toList)

mutual

theorem perm_largeTexts (start : Text) : ∀ value : Json,
    (largeTexts start value).Perm ((largeKeys value).map (entry start))
  | .object members => by
      rw [largeTexts, largeKeys]
      exact (List.mergeSort_perm _ _).trans (perm_largeMembers start members)
  | .null | .bool _ | .number _ | .float _ | .string _ | .array _ => by
      simp [largeTexts, largeKeys]

theorem perm_largeMembers (start : Text) : ∀ members : List (String × Json),
    (largeMembers start members).Perm ((largeMemberKeys members).map (entry start))
  | [] => by simp [largeMembers, largeMemberKeys]
  | (name, .string text) :: rest => by
      have hRest := perm_largeMembers start rest
      simp only [largeMembers, largeMemberKeys, List.map_append]
      refine List.Perm.append ?_ hRest
      split <;> simp [entry, nextPath]
  | (name, .object members) :: rest => by
      have hRest := perm_largeMembers start rest
      have hInner := perm_largeTexts (nextPath start name) (.object members)
      simp only [largeMembers, largeMemberKeys, List.map_append, List.map_map]
      exact List.Perm.append hInner hRest
  | (_, .null) :: rest | (_, .bool _) :: rest | (_, .number _) :: rest | (_, .float _) :: rest
  | (_, .array _) :: rest => by
      simpa [largeMembers, largeMemberKeys] using perm_largeMembers start rest

end

section Listing

variable {document value found : Json} {keys : List String} {text : String}
  {members : List (String × Json)}

theorem Dicts.member (hDicts : Dicts (.object members)) {name : String}
    (hMember : (name, value) ∈ members) : Dicts value := by
  intro keys inner hInner
  refine hDicts (name :: keys) inner ?_
  have hFound : (Json.object members).member name = some value :=
    (Json.lookup_eq_some (hDicts [] members rfl)).mpr hMember
  rw [Json.at?_cons, hFound, Option.bind_some, hInner]

/-- The keys to a text in one of the members. -/
def AmongMembers (members : List (String × Json)) (keys : List String) (text : String) : Prop :=
  ∃ name rest value, keys = name :: rest ∧ (name, value) ∈ members ∧
    value.at? rest = some (.string text) ∧ largeTextChars < text.length

theorem largeAt_object (hNames : (members.map (·.1)).Nodup) :
    LargeAt (.object members) keys text ↔ AmongMembers members keys text := by
  cases keys with
  | nil => simp [LargeAt, AmongMembers]
  | cons name rest =>
      have hMember : (Json.object members).member name = Json.lookup members name := rfl
      rw [LargeAt, Json.at?_cons, hMember, Option.bind_eq_some_iff]
      simp only [Json.lookup_eq_some hNames]
      constructor
      · rintro ⟨-, ⟨value, hIn, hText⟩, hLarge⟩
        exact ⟨name, rest, value, rfl, hIn, hText, hLarge⟩
      · rintro ⟨_, _, value, hKeys, hIn, hText, hLarge⟩
        obtain ⟨rfl, rfl⟩ := List.cons.inj hKeys
        exact ⟨List.cons_ne_nil _ _, ⟨value, hIn, hText⟩, hLarge⟩

theorem amongMembers_cons {name : String} {rest : List (String × Json)} :
    AmongMembers ((name, value) :: rest) keys text ↔
      (∃ more, keys = name :: more ∧ value.at? more = some (.string text) ∧
        largeTextChars < text.length) ∨ AmongMembers rest keys text := by
  simp only [AmongMembers, List.mem_cons, Prod.mk.injEq]
  constructor
  · rintro ⟨_, more, _, hKeys, ⟨rfl, rfl⟩ | hIn, hText⟩
    · exact .inl ⟨more, hKeys, hText⟩
    · exact .inr ⟨_, more, _, hKeys, hIn, hText⟩
  · rintro (⟨more, hKeys, hText⟩ | ⟨_, more, _, hKeys, hIn, hText⟩)
    · exact ⟨_, more, _, hKeys, .inl ⟨rfl, rfl⟩, hText⟩
    · exact ⟨_, more, _, hKeys, .inr hIn, hText⟩

end Listing

mutual

theorem mem_largeKeys {keys : List String} {text : String} : ∀ {value : Json}, Dicts value →
    ((keys, text) ∈ largeKeys value ↔ LargeAt value keys text)
  | .object members, hDicts => by
      rw [largeKeys, largeAt_object (hDicts [] members rfl)]
      exact mem_largeMemberKeys fun member hMember => hDicts.member hMember
  | .null, _ | .bool _, _ | .number _, _ | .float _, _ | .string _, _ | .array _, _ => by
      rw [LargeAt, Json.at?_of_leaf (by simp)]
      simp only [largeKeys, List.not_mem_nil, false_iff]
      rintro ⟨hSome, ⟨hNone, -⟩, -⟩
      exact hSome hNone

theorem mem_largeMemberKeys {keys : List String} {text : String} :
    ∀ {members : List (String × Json)}, (∀ member ∈ members, Dicts member.2) →
      ((keys, text) ∈ largeMemberKeys members ↔ AmongMembers members keys text)
  | [], _ => by simp [largeMemberKeys, AmongMembers]
  | (name, .object inner) :: rest, hDicts => by
      have hRest : (keys, text) ∈ largeMemberKeys rest ↔ AmongMembers rest keys text :=
        mem_largeMemberKeys fun member hMember => hDicts member (List.mem_cons_of_mem _ hMember)
      have hInner : ∀ more, (more, text) ∈ largeKeys (.object inner) ↔
          LargeAt (.object inner) more text := fun more =>
        mem_largeKeys (hDicts (name, .object inner) List.mem_cons_self)
      simp only [largeMemberKeys]
      rw [List.mem_append, hRest, amongMembers_cons]
      refine or_congr ?_ Iff.rfl
      rw [List.mem_map]
      constructor
      · rintro ⟨found, hFound, hEntry⟩
        obtain ⟨rfl, rfl⟩ := Prod.mk.inj hEntry
        exact ⟨found.1, rfl, ((hInner found.1).mp hFound).2⟩
      -- Below an object the path goes on: the object itself is no text.
      · rintro ⟨more, rfl, hText, hLarge⟩
        refine ⟨(more, text), (hInner more).mpr ⟨?_, hText, hLarge⟩, rfl⟩
        rintro rfl
        cases hText
  | (name, .string found) :: rest, hDicts => by
      have hRest : (keys, text) ∈ largeMemberKeys rest ↔ AmongMembers rest keys text :=
        mem_largeMemberKeys fun member hMember => hDicts member (List.mem_cons_of_mem _ hMember)
      simp only [largeMemberKeys]
      rw [List.mem_append, hRest, amongMembers_cons]
      refine or_congr ?_ Iff.rfl
      have hLeaf : ∀ members, Json.string found ≠ .object members := by simp
      simp only [Json.at?_of_leaf hLeaf]
      constructor
      · intro hListed
        split at hListed
        · rename_i hLarge
          obtain ⟨rfl, rfl⟩ := Prod.mk.inj (List.mem_singleton.mp hListed)
          exact ⟨[], rfl, ⟨rfl, rfl⟩, hLarge⟩
        · cases hListed
      · rintro ⟨more, rfl, ⟨rfl, hSame⟩, hLarge⟩
        obtain rfl := Json.string.inj hSame
        rw [if_pos hLarge]
        exact List.mem_singleton_self _
  | (_, .null) :: rest, hDicts | (_, .bool _) :: rest, hDicts | (_, .number _) :: rest, hDicts
  | (_, .float _) :: rest, hDicts | (_, .array _) :: rest, hDicts => by
      have hRest : (keys, text) ∈ largeMemberKeys rest ↔ AmongMembers rest keys text :=
        mem_largeMemberKeys fun member hMember => hDicts member (List.mem_cons_of_mem _ hMember)
      simp only [largeMemberKeys, List.nil_append]
      rw [hRest, amongMembers_cons, or_iff_right]
      rintro ⟨more, -, hText, -⟩
      rw [Json.at?_of_leaf (by simp)] at hText
      cases hText.2

end

/-- The keys of the texts in one member are not those of texts in another. -/
theorem nodup_keys_append {name : String} {value : Json} {rest : List (String × Json)}
    {here : List (List String × String)}
    (hNames : (((name, value) :: rest).map (·.1)).Nodup)
    (hDicts : ∀ member ∈ rest, Dicts member.2) (hHere : (here.map (·.1)).Nodup)
    (hHead : ∀ found ∈ here, ∃ more, found.1 = name :: more)
    (hRest : ((largeMemberKeys rest).map (·.1)).Nodup) :
    ((here ++ largeMemberKeys rest).map (·.1)).Nodup := by
  rw [List.map_append, List.nodup_append]
  refine ⟨hHere, hRest, ?_⟩
  -- Keys in both would begin with one name, which another member has too.
  rintro keys hKeys _ hOthers rfl
  obtain ⟨found, hFound, rfl⟩ := List.mem_map.mp hKeys
  obtain ⟨more, hMore⟩ := hHead found hFound
  obtain ⟨other, hOther, hSame⟩ := List.mem_map.mp hOthers
  obtain ⟨name', _, value', hKeys', hIn, -⟩ := (mem_largeMemberKeys hDicts).mp hOther
  rw [hSame, hMore] at hKeys'
  obtain ⟨rfl, -⟩ := List.cons.inj hKeys'
  rw [List.map_cons, List.nodup_cons] at hNames
  exact hNames.1 (List.mem_map.mpr ⟨_, hIn, rfl⟩)

mutual

theorem nodup_largeKeys : ∀ {value : Json}, Dicts value → ((largeKeys value).map (·.1)).Nodup
  | .object members, hDicts => by
      rw [largeKeys]
      exact nodup_largeMemberKeys (hDicts [] members rfl) fun member hMember =>
        hDicts.member hMember
  | .null, _ | .bool _, _ | .number _, _ | .float _, _ | .string _, _ | .array _, _ =>
      List.nodup_nil

theorem nodup_largeMemberKeys : ∀ {members : List (String × Json)}, (members.map (·.1)).Nodup →
    (∀ member ∈ members, Dicts member.2) → ((largeMemberKeys members).map (·.1)).Nodup
  | [], _, _ => List.nodup_nil
  | (name, .object inner) :: rest, hNames, hDicts => by
      have hOthers := fun member hMember => hDicts member (List.mem_cons_of_mem _ hMember)
      have hInner : ((largeKeys (.object inner)).map (·.1)).Nodup :=
        nodup_largeKeys (hDicts (name, .object inner) List.mem_cons_self)
      simp only [largeMemberKeys]
      refine nodup_keys_append hNames hOthers ?_ ?_
        (nodup_largeMemberKeys (List.nodup_cons.mp hNames).2 hOthers)
      · rw [List.map_map]
        have hMap := hInner.map (List.cons_injective (a := name))
        rwa [List.map_map] at hMap
      · intro found hFound
        obtain ⟨inner, -, rfl⟩ := List.mem_map.mp hFound
        exact ⟨inner.1, rfl⟩
  | (name, .string found) :: rest, hNames, hDicts => by
      have hOthers := fun member hMember => hDicts member (List.mem_cons_of_mem _ hMember)
      simp only [largeMemberKeys]
      refine nodup_keys_append hNames hOthers ?_ ?_
        (nodup_largeMemberKeys (List.nodup_cons.mp hNames).2 hOthers)
      · split <;> simp
      · intro entry hEntry
        split at hEntry
        · obtain rfl := List.mem_singleton.mp hEntry
          exact ⟨[], rfl⟩
        · cases hEntry
  | (_, .null) :: rest, hNames, hDicts | (_, .bool _) :: rest, hNames, hDicts
  | (_, .number _) :: rest, hNames, hDicts | (_, .float _) :: rest, hNames, hDicts
  | (_, .array _) :: rest, hNames, hDicts => by
      simp only [largeMemberKeys, List.nil_append]
      exact nodup_largeMemberKeys (List.nodup_cons.mp hNames).2
        fun member hMember => hDicts member (List.mem_cons_of_mem _ hMember)

end

section Listed

variable {document : Json}

theorem mem_largeTexts (hDicts : Dicts document) {path text : Text} :
    (path, text) ∈ largeTexts [] document ↔
      ∃ keys found, LargeAt document keys found ∧ path = pathOf keys ∧ text = found.toList := by
  rw [(perm_largeTexts [] document).mem_iff, List.mem_map]
  constructor
  · rintro ⟨⟨keys, found⟩, hFound, hEntry⟩
    obtain ⟨rfl, rfl⟩ := Prod.mk.inj hEntry
    exact ⟨keys, found, (mem_largeKeys hDicts).mp hFound, rfl, rfl⟩
  · rintro ⟨keys, found, hLarge, rfl, rfl⟩
    exact ⟨(keys, found), (mem_largeKeys hDicts).mpr hLarge, rfl⟩

/-- No path is listed twice exactly if different keys have different paths. -/
theorem once_iff (hDicts : Dicts document) :
    ((largeTexts [] document).map (·.1)).Nodup ↔
      ∀ keys text others other, LargeAt document keys text → LargeAt document others other →
        pathOf others = pathOf keys → others = keys := by
  have hPaths : ((largeTexts [] document).map (·.1)).Perm
      (((largeKeys document).map (·.1)).map pathOf) := by
    have hMap := (perm_largeTexts [] document).map (·.1)
    rw [List.map_map] at hMap ⊢
    exact hMap
  rw [hPaths.nodup_iff, List.nodup_map_iff_inj_on (nodup_largeKeys hDicts)]
  constructor
  · intro hInj keys text others other hKeys hOthers hSame
    exact hInj others (List.mem_map_of_mem ((mem_largeKeys hDicts).mpr hOthers)) keys
      (List.mem_map_of_mem ((mem_largeKeys hDicts).mpr hKeys)) hSame
  · intro hAll others hOthers keys hKeys hSame
    obtain ⟨⟨others, other⟩, hOther, rfl⟩ := List.mem_map.mp hOthers
    obtain ⟨⟨keys, text⟩, hText, rfl⟩ := List.mem_map.mp hKeys
    exact hAll keys text others other ((mem_largeKeys hDicts).mp hText)
      ((mem_largeKeys hDicts).mp hOther) hSame

end Listed

/-! ## Splitting a path -/

section Splitting

variable {keys : List String}

/-- The keys with a dot between two of them. -/
def joined (keys : List String) : Text := ['.'].intercalate (keys.map String.toList)

theorem foldl_nextPath {start : Text} (hStart : start ≠ []) (keys : List String) :
    keys.foldl nextPath start = ['.'].intercalate (start :: keys.map String.toList) := by
  induction keys generalizing start with
  | nil => simp
  | cons key rest ih =>
      have hNext : nextPath start key = start ++ ['.'] ++ key.toList := by
        rw [nextPath, if_neg (by simpa using hStart)]
      have hSome : start ++ ['.'] ++ key.toList ≠ [] := by simp
      rw [List.foldl_cons, hNext, ih hSome, List.map_cons, List.intercalate_cons_cons]
      cases rest with
      | nil => simp
      | cons other rest => simp [List.intercalate_cons_cons]

theorem pathOf_cons {key : String} (hKey : key ≠ "") (rest : List String) :
    pathOf (key :: rest) = joined (key :: rest) := by
  have hSome : key.toList ≠ [] := fun hNil => hKey (String.toList_eq_nil_iff.mp hNil)
  rw [pathOf, List.foldl_cons]
  exact foldl_nextPath hSome rest

theorem pathOf_of_named (hNamed : keys.head? ≠ some "") : pathOf keys = joined keys := by
  cases keys with
  | nil => rfl
  | cons key rest => exact pathOf_cons (fun hKey => hNamed (congrArg some hKey)) rest

/-- A path leaves out the keys without a name that it begins with. -/
theorem length_pathOf (keys : List String) : (pathOf keys).length ≤ (joined keys).length := by
  induction keys with
  | nil => exact Nat.le_refl _
  | cons key rest ih =>
      by_cases hKey : key = ""
      · subst hKey
        refine Nat.le_trans (show (pathOf rest).length ≤ (joined rest).length from ih) ?_
        cases rest with
        | nil => exact Nat.zero_le _
        | cons other rest =>
            simp only [joined, List.map_cons, List.intercalate_cons_cons, List.length_append]
            omega
      · rw [pathOf_cons hKey]

/-- Splitting a path gives the keys back, if they are plain. -/
theorem split_of_plain (hPlain : Plain keys) (hSome : keys ≠ []) :
    Text.strip (pathOf keys) ≠ [] ∧
      ((Text.strip (pathOf keys)).splitOn '.').map String.ofList = keys := by
  rw [hPlain.trimmed, pathOf_of_named hPlain.named, joined]
  constructor
  · cases keys with
    | nil => exact absurd rfl hSome
    | cons key rest =>
        have hKey : key.toList ≠ [] := fun hNil =>
          hPlain.named (congrArg some (String.toList_eq_nil_iff.mp hNil))
        cases rest with
        | nil => simpa using hKey
        | cons other rest => simp [List.intercalate_cons_cons]
  · rw [List.splitOn_intercalate '.' ?_ (by simpa using hSome), List.map_map]
    · simp [Function.comp_def]
    · intro part hPart
      obtain ⟨key, hKey, rfl⟩ := List.mem_map.mp hPart
      exact hPlain.dotless key hKey

/-- A path that is as long as its keys leaves out none of them. -/
theorem named_of_strip (hFilled : Text.strip (pathOf keys) ≠ [])
    (hJoined : Text.strip (pathOf keys) = joined keys) : keys.head? ≠ some "" := by
  intro hHead
  obtain ⟨rest, rfl⟩ : ∃ rest, keys = "" :: rest := by
    cases keys with
    | nil => cases hHead
    | cons key rest => exact ⟨rest, by rw [Option.some.inj hHead]⟩
  cases rest with
  | nil => exact hFilled hJoined
  | cons other rest =>
      -- The first key is left out, and the dot behind it is missing.
      have hShort := length_pathOf (other :: rest)
      have hStrip := Text.length_strip_le (pathOf ("" :: other :: rest))
      have hPath : pathOf ("" :: other :: rest) = pathOf (other :: rest) := rfl
      rw [hJoined, hPath] at hStrip
      simp only [joined, List.map_cons, List.intercalate_cons_cons, List.length_append,
        List.length_singleton] at hStrip hShort
      omega

/-- Keys that come out of their path are plain. -/
theorem plain_of_split (hFilled : Text.strip (pathOf keys) ≠ [])
    (hSplit : ((Text.strip (pathOf keys)).splitOn '.').map String.ofList = keys) : Plain keys := by
  have hParts : keys.map String.toList = (Text.strip (pathOf keys)).splitOn '.' := by
    have hMapped := congrArg (List.map String.toList) hSplit
    rw [List.map_map] at hMapped
    simpa [Function.comp_def] using hMapped.symm
  -- What the path was split into makes it up again.
  have hJoined : Text.strip (pathOf keys) = joined keys := by
    rw [joined, hParts, List.intercalate_splitOn]
  have hNamed := named_of_strip hFilled hJoined
  refine ⟨fun key hKey => ?_, hNamed, ?_⟩
  · have hPart : key.toList ∈ (Text.strip (pathOf keys)).splitOn '.' :=
      hParts ▸ List.mem_map_of_mem hKey
    exact Text.not_mem_of_mem_splitOn hPart
  · rw [hJoined, pathOf_of_named hNamed]

end Splitting

/-! ## Reading -/

section Reading

variable {item : StoredDocument} {document : Json} {keys : List String} {text : String}

/-- What a path reads: the value at the keys it is split into. -/
theorem readKey_eq_ok (hParked : item.parked = true) (hDocument : item.document = some document)
    {path shownText : Text} (hLong : largeTextChars < shownText.length) :
    readKey item path = .ok shownText ↔ Text.strip path ≠ [] ∧
      ∃ value, document.at? (((Text.strip path).splitOn '.').map String.ofList) = some value ∧
        shown value = shownText := by
  have hText : (String.ofList path).toList = path := String.toList_ofList
  by_cases hBlank : Text.strip path = []
  · refine iff_of_false ?_ fun hFilled => hFilled.1 hBlank
    simp [readKey, parseOptionalStr, hText, hBlank, bind, Except.bind]
  · have hRead : readKey item path = target item (some (Text.strip path)) := by
      simp [readKey, parseOptionalStr, hText, hBlank, bind, Except.bind]
    rw [hRead, target, if_pos hParked, hDocument, Option.bind_some, dottedGet, and_iff_right hBlank]
    cases hFound : document.at? (((Text.strip path).splitOn '.').map String.ofList) with
    | none => simp
    | some value =>
        cases value with
        | null =>
            -- A null counts as no value, and its text would be too short.
            refine iff_of_false (by simp) ?_
            rintro ⟨value, hValue, rfl⟩
            obtain rfl := Option.some.inj hValue
            exact absurd hLong (by decide)
        | _ => simp

/-- A text is read back if its keys are plain or it has a twin. -/
theorem reads_iff (hParked : item.parked = true) (hDocument : item.document = some document)
    (hLarge : LargeAt document keys text) :
    readKey item (pathOf keys) = .ok text.toList ↔ Plain keys ∨
      (Text.strip (pathOf keys) ≠ [] ∧ ∃ others value, others ≠ keys ∧
        others = ((Text.strip (pathOf keys)).splitOn '.').map String.ofList ∧
        document.at? others = some value ∧ shown value = text.toList) := by
  obtain ⟨hSome, hAt, hLong⟩ := hLarge
  rw [readKey_eq_ok hParked hDocument (by rw [String.length_toList]; exact hLong)]
  constructor
  · -- The keys that the path is split into are its own, or they lead to a twin.
    rintro ⟨hFilled, value, hValue, hShown⟩
    by_cases hSplit : ((Text.strip (pathOf keys)).splitOn '.').map String.ofList = keys
    · exact .inl (plain_of_split hFilled hSplit)
    · exact .inr ⟨hFilled, _, value, hSplit, rfl, hValue, hShown⟩
  · rintro (hPlain | ⟨hFilled, _, value, -, rfl, hValue, hShown⟩)
    · obtain ⟨hFilled, hSplit⟩ := split_of_plain hPlain hSome
      exact ⟨hFilled, _, by rw [hSplit]; exact hAt, rfl⟩
    · exact ⟨hFilled, value, hValue, hShown⟩

/-- The paths of a passport can be read, each for the text it is listed with, exactly if the keys
to every large text are plain, or the text has a twin. -/
theorem readable_iff {item : StoredDocument} {document : Json} (hParked : item.parked = true)
    (hDocument : item.document = some document) (hDicts : Dicts document) :
    Readable item document ↔
      ∀ keys text, LargeAt document keys text → Plain keys ∨ Twin document keys text := by
  constructor
  · rintro ⟨hReads, hOnce⟩ keys text hLarge
    have hRead := hReads _ _ ((mem_largeTexts hDicts).mpr ⟨keys, text, hLarge, rfl, rfl⟩)
    rcases (reads_iff hParked hDocument hLarge).mp hRead with hPlain | ⟨hFilled, hElsewhere⟩
    · exact .inl hPlain
    · refine .inr ⟨hElsewhere, hFilled, fun others other hOther hSame => ?_⟩
      exact (once_iff hDicts).mp hOnce keys text others other hLarge hOther hSame
  · intro hEach
    refine ⟨fun path text hListed => ?_, (once_iff hDicts).mpr ?_⟩
    · obtain ⟨keys, found, hLarge, rfl, rfl⟩ := (mem_largeTexts hDicts).mp hListed
      refine (reads_iff hParked hDocument hLarge).mpr ?_
      exact (hEach keys found hLarge).imp_right fun hTwin => ⟨hTwin.filled, hTwin.elsewhere⟩
    · intro keys text others other hLarge hOther hSame
      -- Plain keys come out of their path, and a twin is alone with its path.
      rcases hEach keys text hLarge with hPlain | hTwin
      · rcases hEach others other hOther with hPlain' | hTwin
        · rw [← (split_of_plain hPlain' hOther.1).2, hSame, (split_of_plain hPlain hLarge.1).2]
        · exact (hTwin.alone keys text hLarge hSame.symm).symm
      · exact hTwin.alone others other hOther hSame

end Reading

/-- A text that is just large enough to be listed. -/
def longText : String := String.ofList (List.replicate (largeTextChars + 1) 'x')

theorem length_longText : longText.length = largeTextChars + 1 := by
  rw [longText, String.length_ofList, List.length_replicate]

/-- A document with one large text. -/
def letter (name : String) : Json := .object [(name, .string longText)]

def stored (document : Json) : StoredDocument where
  ref := "resp:1".toList
  parked := true
  source := []
  body := document.dumps
  document := some document

theorem dicts_letter (name : String) : Dicts (letter name) := by
  have hNames : (([(name, Json.string longText)] : List (String × Json)).map (·.1)).Nodup :=
    List.nodup_singleton name
  rintro (_ | ⟨key, rest⟩) members hFound
  · obtain rfl := Json.object.inj (Option.some.inj hFound)
    exact hNames
  · rw [letter, Json.at?_cons] at hFound
    obtain ⟨value, hValue, hRest⟩ := Option.bind_eq_some_iff.mp hFound
    have hIn := (Json.lookup_eq_some hNames).mp hValue
    obtain ⟨rfl, rfl⟩ := Prod.mk.inj (List.mem_singleton.mp hIn)
    rw [Json.at?_of_leaf (fun members hObject => by cases hObject)] at hRest
    cases hRest.2

theorem readable_letter : Readable (stored (letter "body")) (letter "body") ↔
    ∀ keys text, LargeAt (letter "body") keys text →
      Plain keys ∨ Twin (letter "body") keys text :=
  readable_iff rfl rfl (dicts_letter "body")

/-- A key with a dot in it: the passport lists a path that nothing is read by. -/
theorem dotted_key_not_readable : ¬Readable (stored (letter "a.b")) (letter "a.b") := by
  intro hReadable
  have hLarge : LargeAt (letter "a.b") ["a.b"] longText :=
    ⟨List.cons_ne_nil _ _, rfl, by rw [length_longText]; exact Nat.lt_succ_self _⟩
  have hRead := hReadable.reads _ _
    ((mem_largeTexts (dicts_letter "a.b")).mpr ⟨_, _, hLarge, rfl, rfl⟩)
  rw [readKey_eq_ok rfl rfl (by rw [String.length_toList]; exact hLarge.2.2)] at hRead
  obtain ⟨-, value, hValue, -⟩ := hRead
  have hSplit : ((Text.strip (pathOf ["a.b"])).splitOn '.').map String.ofList = ["a", "b"] := by
    decide
  rw [hSplit] at hValue
  cases hValue

end Documents
end OctoForge
