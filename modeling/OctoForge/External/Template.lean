import OctoForge.External.Contract
import OctoForge.Fallible
import OctoForge.Format

/-!
# Templates

The url, the body and every header of a record are templates in one language of placeholders:
`{city}` is a param of the model, `{user.zone}` a stored value of the user, and `{secret.token}`
a secret.
-/

namespace OctoForge
namespace External

open Format

/-- `TemplateRefs`: the names that a template has placeholders for. -/
structure TemplateRefs where
  params : List Text := []
  userParams : List Text := []
  secrets : List Text := []
  deriving DecidableEq, Repr

/-- `TemplateRefs.__or__`. -/
def TemplateRefs.union (refs other : TemplateRefs) : TemplateRefs where
  params := refs.params ++ other.params
  userParams := refs.userParams ++ other.userParams
  secrets := refs.secrets ++ other.secrets

def userNamespace : Text := "user".toList

def secretNamespace : Text := "secret".toList

/-- `user.code`. -/
def userField (code : Text) : Text := userNamespace ++ ['.'] ++ code

/-- `secret.code`. -/
def secretField (code : Text) : Text := secretNamespace ++ ['.'] ++ code

def isCodeChar (c : Char) : Bool := c.isLower || c.isDigit || c == '_'

/-- `REF_CODE_PATTERN.match`; a line break may follow what it matches. -/
def isCode (code : Text) : Bool :=
  let stem := if code.getLast? = some '\n' then code.dropLast else code
  decide (1 ≤ stem.length) && decide (stem.length ≤ 64) && stem.all isCodeChar

/-- The part before the first `.`, and the part after it. -/
def splitName (name : Text) : Text × Text :=
  (name.takeWhile (· != '.'), (name.dropWhile (· != '.')).drop 1)

/-- The text of a placeholder. -/
def braced (name : Text) : Text := ['{'] ++ name ++ ['}']

/-- `_validate_ref_code`. -/
def badCode (name : Text) : Text :=
  "placeholder ".toList ++ braced name ++
    " must reference a code of 1-64 characters of [a-z0-9_]".toList

/-- One placeholder of `collect_refs`. -/
def fieldRefs (field : Field) : Except Text TemplateRefs :=
  let name := field.name
  if name.isEmpty then .error "empty placeholder \x7b\x7d is not allowed in templates".toList
  else if !field.spec.isEmpty || field.conversion.isSome then
    .error ("placeholder ".toList ++ braced name ++
      " carries a format spec or conversion; substitution is verbatim — remove it".toList)
  else if '.' ∉ name then .ok { params := [name] }
  else
    let (space, code) := splitName name
    if space = userNamespace then
      if isCode code then .ok { userParams := [code] } else .error (badCode name)
    else if space = secretNamespace then
      if isCode code then .ok { secrets := [code] } else .error (badCode name)
    else
      .error ("unknown namespace in placeholder ".toList ++ braced name ++
        ": only 'user.' and 'secret.' exist".toList)

/-- The placeholders of a template, one after the other. -/
def allRefs : List Field → Except Text TemplateRefs
  | [] => .ok {}
  | field :: rest => do
      let refs ← fieldRefs field
      let others ← allRefs rest
      return refs.union others

/-- `collect_refs`. -/
def collectRefs (template : Text) : Except Text TemplateRefs :=
  match parse template with
  | .error message => .error ("malformed template: ".toList ++ message)
  | .ok pieces => allRefs (fields pieces)

/-- `render_template`; the error is the text of an exception. -/
def renderTemplate (template : Text) (values : Text → Option Text) : Except Text Text :=
  match parse template with
  | .error message => .error message
  | .ok pieces =>
      match fill values pieces with
      | none => .error "a field of the template has no value".toList
      | some rendered => .ok rendered

/-! ## The names of the fields -/

theorem secretField_injective {code other : Text} (hSame : secretField code = secretField other) :
    code = other := congrArg (fun name => (splitName name).2) hSame

theorem secretField_ne_userField (code other : Text) : secretField code ≠ userField other := by
  intro hSame
  have hSpace : secretNamespace = userNamespace := congrArg (fun name => (splitName name).1) hSame
  exact absurd hSpace (by decide)

theorem eq_of_splitName {name : Text} (hDot : '.' ∈ name) :
    name = (splitName name).1 ++ ['.'] ++ (splitName name).2 := by
  have hRest : name.dropWhile (· != '.') = '.' :: (splitName name).2 := by
    unfold splitName
    cases hDrop : name.dropWhile (· != '.') with
    | nil =>
        have hNone := List.dropWhile_eq_nil_iff.mp hDrop '.' hDot
        simp at hNone
    | cons c rest =>
        have hSame : c = '.' := by simpa using Text.head_dropWhile hDrop
        rw [hSame, List.drop_one, List.tail_cons]
  calc
    name = name.takeWhile (· != '.') ++ name.dropWhile (· != '.') :=
      (List.takeWhile_append_dropWhile).symm
    _ = (splitName name).1 ++ ['.'] ++ (splitName name).2 := by
      rw [hRest, splitName, List.append_assoc]
      rfl

/-- Values under the fields of secrets are under no other name. -/
theorem lookup_other {β γ : Type} {f : β → γ} {values : List (Text × β)} {name : Text}
    (hOther : ∀ code, name ≠ secretField code) :
    (values.map fun value => (secretField value.1, f value.2)).lookup name = none := by
  induction values with
  | nil => rfl
  | cons first rest ih =>
      rw [List.map_cons, List.lookup_cons, beq_false_of_ne (hOther first.1)]
      exact ih

/-- What one placeholder refers to. -/
theorem fieldRefs_cases {field : Field} {refs : TemplateRefs} (hRefs : fieldRefs field = .ok refs) :
    ('.' ∉ field.name ∧ refs = { params := [field.name] }) ∨
      (∃ code, field.name = userField code ∧ refs = { userParams := [code] }) ∨
      ∃ code, field.name = secretField code ∧ refs = { secrets := [code] } := by
  unfold fieldRefs at hRefs
  simp only at hRefs
  split at hRefs
  · cases hRefs
  · split at hRefs
    · cases hRefs
    · split at hRefs
      · rename_i hPlain
        exact .inl ⟨hPlain, (Except.ok.inj hRefs).symm⟩
      · rename_i hDot
        have hName := eq_of_splitName (not_not.mp hDot)
        split at hRefs
        · rename_i hUser
          rw [hUser] at hName
          split at hRefs
          · exact .inr (.inl ⟨_, hName, (Except.ok.inj hRefs).symm⟩)
          · cases hRefs
        · split at hRefs
          · rename_i hSecret
            rw [hSecret] at hName
            split at hRefs
            · exact .inr (.inr ⟨_, hName, (Except.ok.inj hRefs).symm⟩)
            · cases hRefs
          · cases hRefs

/-- A name of a template, in full. -/
def TemplateRefs.Has (refs : TemplateRefs) (name : Text) : Prop :=
  (name ∈ refs.params ∧ '.' ∉ name) ∨ (∃ code ∈ refs.userParams, name = userField code) ∨
    ∃ code ∈ refs.secrets, name = secretField code

theorem TemplateRefs.Has.secret {refs : TemplateRefs} {code : Text}
    (hHas : refs.Has (secretField code)) : code ∈ refs.secrets := by
  rcases hHas with ⟨-, hPlain⟩ | ⟨other, -, hUser⟩ | ⟨other, hOther, hSecret⟩
  · exact absurd (by simp [secretField]) hPlain
  · exact absurd hUser (secretField_ne_userField code other)
  · rwa [secretField_injective hSecret]

theorem TemplateRefs.Has.mono {refs others : TemplateRefs} {name : Text} (hHas : refs.Has name)
    (hParams : refs.params ⊆ others.params) (hUser : refs.userParams ⊆ others.userParams)
    (hSecrets : refs.secrets ⊆ others.secrets) : others.Has name := by
  rcases hHas with ⟨hName, hPlain⟩ | ⟨code, hCode, hName⟩ | ⟨code, hCode, hName⟩
  · exact .inl ⟨hParams hName, hPlain⟩
  · exact .inr (.inl ⟨code, hUser hCode, hName⟩)
  · exact .inr (.inr ⟨code, hSecrets hCode, hName⟩)

theorem has_of_fieldRefs {field : Field} {refs : TemplateRefs}
    (hRefs : fieldRefs field = .ok refs) : refs.Has field.name := by
  rcases fieldRefs_cases hRefs with ⟨hPlain, rfl⟩ | ⟨code, hName, rfl⟩ | ⟨code, hName, rfl⟩
  · exact .inl ⟨List.mem_singleton_self _, hPlain⟩
  · exact .inr (.inl ⟨code, List.mem_singleton_self _, hName⟩)
  · exact .inr (.inr ⟨code, List.mem_singleton_self _, hName⟩)

theorem has_of_allRefs : ∀ {all : List Field} {refs : TemplateRefs}, allRefs all = .ok refs →
    ∀ field ∈ all, refs.Has field.name
  | [], _, _, _, hField => absurd hField List.not_mem_nil
  | first :: rest, refs, hRefs, field, hField => by
      obtain ⟨here, hHere, hRefs⟩ := Fallible.bind_eq_ok.mp hRefs
      obtain ⟨others, hOthers, hRefs⟩ := Fallible.bind_eq_ok.mp hRefs
      obtain rfl := Except.ok.inj hRefs
      rcases List.mem_cons.mp hField with rfl | hRest
      · exact (has_of_fieldRefs hHere).mono (List.subset_append_left _ _)
          (List.subset_append_left _ _) (List.subset_append_left _ _)
      · exact (has_of_allRefs hOthers field hRest).mono (List.subset_append_right _ _)
          (List.subset_append_right _ _) (List.subset_append_right _ _)

/-! ## Two parts of one template -/

variable {start rest : Text} {values values' : Text → Option Text} {refs : TemplateRefs}

theorem collectRefs_ok {template : Text} (hRefs : collectRefs template = .ok refs) :
    ∃ pieces, parse template = .ok pieces ∧ allRefs (fields pieces) = .ok refs := by
  unfold collectRefs at hRefs
  cases hParse : parse template with
  | error message => simp [hParse] at hRefs
  | ok pieces => exact ⟨pieces, rfl, by simpa [hParse] using hRefs⟩

theorem renderTemplate_ok {template rendered : Text} :
    renderTemplate template values = .ok rendered ↔
      ∃ pieces, parse template = .ok pieces ∧ fill values pieces = some rendered := by
  unfold renderTemplate
  cases hParse : parse template with
  | error message => simp
  | ok pieces => cases hFill : fill values pieces <;> simp [hFill]

/-- A template is rendered with the values of the names it has. -/
theorem renderTemplate_congr {template : Text} (hRefs : collectRefs template = .ok refs)
    (hSame : ∀ name, refs.Has name → values name = values' name) :
    renderTemplate template values = renderTemplate template values' := by
  obtain ⟨pieces, hParse, hAll⟩ := collectRefs_ok hRefs
  have hFill : fill values pieces = fill values' pieces :=
    fill_congr fun field hField => hSame field.name (has_of_allRefs hAll field hField)
  unfold renderTemplate
  simp only [hParse, hFill]

/-- The characters of what a template is rendered to. -/
theorem mem_renderTemplate {template rendered : Text}
    (hRender : renderTemplate template values = .ok rendered) {c : Char} (hMem : c ∈ rendered) :
    c ∈ template ∨ ∃ name value, values name = some value ∧ c ∈ value := by
  obtain ⟨pieces, hParse, hFill⟩ := renderTemplate_ok.mp hRender
  rcases mem_filled hParse hFill hMem with hOwn | ⟨field, -, value, hValue, hIn⟩
  · exact .inl hOwn
  · exact .inr ⟨field.name, value, hValue, hIn⟩

/-- A template without braces is rendered to itself. -/
theorem renderTemplate_plain {template : Text} (hPlain : ∀ c ∈ template, c ≠ '{' ∧ c ≠ '}') :
    renderTemplate template values = .ok template := by
  refine renderTemplate_ok.mpr ⟨_, parse_plain hPlain, ?_⟩
  cases template <;> simp [fill, Piece.fill]

theorem collectRefs_plain {template : Text} (hPlain : ∀ c ∈ template, c ≠ '{' ∧ c ≠ '}') :
    collectRefs template = .ok {} := by
  unfold collectRefs
  rw [parse_plain hPlain]
  cases template <;> rfl

/-- A template that is cut outside its placeholders is rendered side by side. -/
theorem renderTemplate_append {rendered : Text} (hStart : collectRefs start = .ok refs)
    (hRender : renderTemplate (start ++ rest) values = .ok rendered) :
    ∃ before after, renderTemplate start values = .ok before ∧
      renderTemplate rest values = .ok after ∧ rendered = before ++ after := by
  obtain ⟨pieces, hParse, -⟩ := collectRefs_ok hStart
  obtain ⟨glue, hGlue, hParts⟩ := parse_append hParse rest
  obtain ⟨all, hAll, hFill⟩ := renderTemplate_ok.mp hRender
  rw [hGlue] at hAll
  cases hRest : parse rest with
  | error message => simp [hRest, Except.map] at hAll
  | ok others =>
      obtain rfl : glue others = all := by simpa [hRest, Except.map] using hAll
      rw [(hParts others).2] at hFill
      obtain ⟨before, hBefore, hFill⟩ := Option.bind_eq_some_iff.mp hFill
      obtain ⟨after, hAfter, rfl⟩ := Option.map_eq_some_iff.mp hFill
      exact ⟨before, after, renderTemplate_ok.mpr ⟨pieces, hParse, hBefore⟩,
        renderTemplate_ok.mpr ⟨others, hRest, hAfter⟩, rfl⟩

end External
end OctoForge
