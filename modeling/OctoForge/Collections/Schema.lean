import OctoForge.Json

/-!
# Derived schemas

The schema of a collection is folded out of its records.  A node of it is a dictionary, and
the order of its fields is not observable, so `fields` is a function of the name.

A node covers a value when it says of the value, and of what is below it, nothing that is
wrong, and leaves nothing out.  Merging keeps what either side covers.
-/

namespace OctoForge
namespace Collections

/-- The values of `node["type"]`. -/
inductive Kind where
  | object
  | array
  | string
  | number
  | boolean
  | null
  deriving DecidableEq, Repr

/-- `SchemaNode`. -/
inductive Node where
  | mk (kind : Kind) (element : Option Node) (fields : String → Option Node)
      (nullable optional : Bool)

namespace Node

def kind : Node → Kind
  | .mk kind _ _ _ _ => kind

def element : Node → Option Node
  | .mk _ element _ _ _ => element

def fields : Node → String → Option Node
  | .mk _ _ fields _ _ => fields

def nullable : Node → Bool
  | .mk _ _ _ nullable _ => nullable

def optional : Node → Bool
  | .mk _ _ _ _ optional => optional

/-- A node with nothing below it. -/
def leaf (kind : Kind) : Node := .mk kind none (fun _ => none) false false

def object (fields : String → Option Node) : Node := .mk .object none fields false false

def array (element : Option Node) : Node := .mk .array element (fun _ => none) false false

/-- `{**node, "nullable": True}`. -/
def asNullable : Node → Node
  | .mk kind element fields _ optional => .mk kind element fields true optional

/-- `{**node, "optional": True}`. -/
def asOptional : Node → Node
  | .mk kind element fields nullable _ => .mk kind element fields nullable true

end Node

/-! ## Merging -/

mutual

/-- `merge_nodes` of two nodes. -/
def Node.merge : Node → Node → Node
  | .mk kind element fields nullable optional,
    .mk kind' element' fields' nullable' optional' =>
      if kind = .null then
        if kind' = .null then .mk kind' element' fields' nullable' optional'
        else .mk kind' element' fields' true optional'
      else if kind' = .null then .mk kind element fields true optional
      else if kind ≠ kind' then
        .mk .string none (fun _ => none) (nullable || nullable') (optional || optional')
      else
        match kind' with
        | .object =>
            .mk .object none (fun name => mergeField (fields name) (fields' name))
              (nullable || nullable') (optional || optional')
        | .array =>
            .mk .array (mergeElement element element') (fun _ => none) (nullable || nullable')
              (optional || optional')
        | scalar => .mk scalar element' fields' (nullable || nullable') (optional || optional')

/-- `merge_nodes`, with nothing observed yet or nothing to add. -/
def mergeElement : Option Node → Option Node → Option Node
  | none, incoming => incoming
  | some current, none => some current
  | some current, some incoming => some (current.merge incoming)

/-- One field of `_merge_objects`. -/
def mergeField : Option Node → Option Node → Option Node
  | none, none => none
  | none, some right => some right.asOptional
  | some left, none => some left.asOptional
  | some left, some right => some (left.merge right)

end

mutual

/-- `infer_value`. -/
def inferValue : Json → Node
  | .null => .leaf .null
  | .bool _ => .leaf .boolean
  | .number _ => .leaf .number
  | .float _ => .leaf .number
  | .string _ => .leaf .string
  | .array items => .array (inferItems none items)
  | .object members => .object (inferMembers members)

/-- The loop over the items of an array. -/
def inferItems : Option Node → List Json → Option Node
  | element, [] => element
  | element, item :: rest => inferItems (mergeElement element (some (inferValue item))) rest

def inferMembers : List (String × Json) → String → Option Node
  | [], _ => none
  | (name, value) :: rest, wanted =>
      if name = wanted then some (inferValue value) else inferMembers rest wanted

end

/-- A record is an object. -/
abbrev Payload := List (String × Json)

/-- `merge_nodes`, where `current` may be `None`. -/
def mergeNodes : Option Node → Node → Node
  | none, incoming => incoming
  | some current, incoming => current.merge incoming

/-- One turn of the loop of `infer_records`. -/
def observe (node : Option Node) (payload : Payload) : Option Node :=
  some (mergeNodes node (inferValue (.object payload)))

/-- `infer_records`. -/
def inferRecords (payloads : List Payload) : Node :=
  (payloads.foldl observe none).getD (.object fun _ => none)

/-- `field_node`, with the path split at its dots. -/
def fieldNode (schema : Node) : (path : List String) → Option Node
  | [] => some schema
  | part :: rest =>
      if schema.kind = .object then (schema.fields part).bind fun found => fieldNode found rest
      else none

/-! ## Covering -/

/-- The kind of node a value gives. -/
def kindOf : Json → Kind
  | .null => .null
  | .bool _ => .boolean
  | .number _ => .number
  | .float _ => .number
  | .string _ => .string
  | .array _ => .array
  | .object _ => .object

/-- A string covers everything, and everything covers null. -/
def Node.fits (node : Node) (value : Json) : Prop :=
  kindOf value = .null ∨ node.kind = .string ∨ node.kind = kindOf value

/-- The node covers the value along a path. -/
def CoversAt : (path : List String) → Node → Json → Prop
  | [], node, value => node.fits value
  | name :: rest, node, value =>
      node.fits value ∧ (node.kind = .object → ∀ inner, value.member name = some inner →
        ∃ found, node.fields name = some found ∧ CoversAt rest found inner)

def Covers (node : Node) (value : Json) : Prop := ∀ path, CoversAt path node value

variable {node current incoming : Node} {value : Json} {path : List String}

theorem CoversAt.fits (hCovers : CoversAt path node value) : node.fits value := by
  cases path with
  | nil => exact hCovers
  | cons name rest => exact hCovers.1

theorem member_eq_none_of_kind (hKind : kindOf value ≠ .object) (name : String) :
    value.member name = none := by
  cases value with
  | object members => exact absurd rfl hKind
  | _ => rfl

/-- A node that fits covers whatever has nothing below it. -/
theorem coversAt_of_kind (hFits : node.fits value)
    (hKind : node.kind ≠ .object ∨ kindOf value ≠ .object) : CoversAt path node value := by
  cases path with
  | nil => exact hFits
  | cons name rest =>
      refine ⟨hFits, fun hObject inner hInner => ?_⟩
      rcases hKind with hNode | hValue
      · exact absurd hObject hNode
      · rw [member_eq_none_of_kind hValue] at hInner
        cases hInner

/-- The flags of a node are not looked at. -/
theorem coversAt_congr {other : Node} (hKind : other.kind = node.kind)
    (hFields : other.fields = node.fields) (hCovers : CoversAt path node value) :
    CoversAt path other value := by
  cases path with
  | nil => rwa [CoversAt, Node.fits, hKind]
  | cons name rest =>
      rw [CoversAt, Node.fits, hKind, hFields]
      exact hCovers

theorem coversAt_asOptional (hCovers : CoversAt path node value) :
    CoversAt path node.asOptional value := by
  refine coversAt_congr ?_ ?_ hCovers <;> cases node <;> rfl

/-! ## What merging keeps -/

/-- What a merged node is, as far as covering goes. -/
theorem merge_cases (current incoming : Node) :
    (current.kind = .null ∧ (current.merge incoming).kind = incoming.kind ∧
        (current.merge incoming).fields = incoming.fields) ∨
      (incoming.kind = .null ∧ (current.merge incoming).kind = current.kind ∧
        (current.merge incoming).fields = current.fields) ∨
      (current.merge incoming).kind = .string ∨
      (current.kind = incoming.kind ∧ (current.merge incoming).kind = incoming.kind ∧
        (incoming.kind = .object → (current.merge incoming).fields =
          fun name => mergeField (current.fields name) (incoming.fields name))) := by
  obtain ⟨kind, element, fields, nullable, optional⟩ := current
  obtain ⟨kind', element', fields', nullable', optional'⟩ := incoming
  unfold Node.merge
  split
  · rename_i hNull
    left
    split
    · exact ⟨hNull, rfl, rfl⟩
    · exact ⟨hNull, rfl, rfl⟩
  · right
    split
    · rename_i hNull
      exact .inl ⟨hNull, rfl, rfl⟩
    · right
      split
      · exact .inl rfl
      · rename_i hSame
        right
        have hKind : kind = kind' := not_not.mp hSame
        cases kind' with
        | object => exact ⟨hKind, rfl, fun _ => rfl⟩
        | _ => exact ⟨hKind, rfl, fun hObject => by cases hObject⟩

theorem fits_of_null (hFits : node.fits value) (hNull : node.kind = .null) :
    kindOf value = .null := by
  rcases hFits with hValue | hString | hKind
  · exact hValue
  · exact absurd (hNull.symm.trans hString) (by decide)
  · exact hKind.symm.trans hNull

theorem coversAt_of_null (hNull : kindOf value = .null) : CoversAt path node value :=
  coversAt_of_kind (.inl hNull) (.inr (by rw [hNull]; decide))

theorem coversAt_of_string (hString : node.kind = .string) : CoversAt path node value :=
  coversAt_of_kind (.inr (.inl hString)) (.inl (by rw [hString]; decide))

theorem coversAt_merge_left (path : List String) {current incoming : Node} {value : Json}
    (hCovers : CoversAt path current value) : CoversAt path (current.merge incoming) value := by
  induction path generalizing current incoming value with
  | nil =>
      rcases merge_cases current incoming with ⟨hNull, -⟩ | ⟨-, hKind, hFields⟩ | hString |
        ⟨hSame, hKind, -⟩
      · exact coversAt_of_null (fits_of_null hCovers.fits hNull)
      · exact coversAt_congr hKind hFields hCovers
      · exact coversAt_of_string hString
      · rw [CoversAt, Node.fits, hKind, ← hSame]
        exact hCovers
  | cons name rest ih =>
      rcases merge_cases current incoming with ⟨hNull, -⟩ | ⟨-, hKind, hFields⟩ | hString |
        ⟨hSame, hKind, hFields⟩
      · exact coversAt_of_null (fits_of_null hCovers.fits hNull)
      · exact coversAt_congr hKind hFields hCovers
      · exact coversAt_of_string hString
      · refine ⟨?_, fun hObject inner hInner => ?_⟩
        · rw [Node.fits, hKind, ← hSame]
          exact hCovers.fits
        · have hIncoming : incoming.kind = .object := hKind.symm.trans hObject
          obtain ⟨found, hFound, hBelow⟩ := hCovers.2 (hSame.trans hIncoming) inner hInner
          simp only [hFields hIncoming, hFound]
          cases incoming.fields name with
          | none => exact ⟨found.asOptional, by rw [mergeField], coversAt_asOptional hBelow⟩
          | some right => exact ⟨found.merge right, by rw [mergeField], ih hBelow⟩

theorem coversAt_merge_right (path : List String) {current incoming : Node} {value : Json}
    (hCovers : CoversAt path incoming value) : CoversAt path (current.merge incoming) value := by
  induction path generalizing current incoming value with
  | nil =>
      rcases merge_cases current incoming with ⟨-, hKind, hFields⟩ | ⟨hNull, -⟩ | hString |
        ⟨-, hKind, -⟩
      · exact coversAt_congr hKind hFields hCovers
      · exact coversAt_of_null (fits_of_null hCovers.fits hNull)
      · exact coversAt_of_string hString
      · rw [CoversAt, Node.fits, hKind]
        exact hCovers
  | cons name rest ih =>
      rcases merge_cases current incoming with ⟨-, hKind, hFields⟩ | ⟨hNull, -⟩ | hString |
        ⟨-, hKind, hFields⟩
      · exact coversAt_congr hKind hFields hCovers
      · exact coversAt_of_null (fits_of_null hCovers.fits hNull)
      · exact coversAt_of_string hString
      · refine ⟨?_, fun hObject inner hInner => ?_⟩
        · rw [Node.fits, hKind]
          exact hCovers.fits
        · have hIncoming : incoming.kind = .object := hKind.symm.trans hObject
          obtain ⟨found, hFound, hBelow⟩ := hCovers.2 hIncoming inner hInner
          simp only [hFields hIncoming, hFound]
          cases current.fields name with
          | none => exact ⟨found.asOptional, by rw [mergeField], coversAt_asOptional hBelow⟩
          | some left => exact ⟨left.merge found, by rw [mergeField], ih hBelow⟩

/-! ## Inference -/

theorem inferMembers_eq (members : List (String × Json)) (name : String) :
    inferMembers members name = (Json.lookup members name).map inferValue := by
  induction members with
  | nil => rfl
  | cons member rest ih =>
      rw [inferMembers, Json.lookup_cons, ih]
      split <;> rfl

theorem kind_inferValue (value : Json) : (inferValue value).kind = kindOf value := by
  cases value <;> rfl

theorem covers_inferValue (value : Json) : Covers (inferValue value) value := by
  intro path
  induction path generalizing value with
  | nil => exact .inr (.inr (kind_inferValue value))
  | cons name rest ih =>
      refine ⟨.inr (.inr (kind_inferValue value)), fun hObject inner hInner => ?_⟩
      cases value with
      | object members =>
          refine ⟨inferValue inner, ?_, ih inner⟩
          have hLookup : Json.lookup members name = some inner := hInner
          change inferMembers members name = _
          rw [inferMembers_eq, hLookup]
          rfl
      | _ => cases hInner

theorem Covers.merge_left (hCovers : Covers current value) (incoming : Node) :
    Covers (current.merge incoming) value := fun path => coversAt_merge_left path (hCovers path)

theorem Covers.merge_right (hCovers : Covers incoming value) (current : Node) :
    Covers (current.merge incoming) value := fun path => coversAt_merge_right path (hCovers path)

theorem covers_mergeNodes_right (hCovers : Covers incoming value) (current : Option Node) :
    Covers (mergeNodes current incoming) value := by
  cases current with
  | none => exact hCovers
  | some current => exact hCovers.merge_right current

theorem covers_observe_keeps {payloads : List Payload} (hCovers : Covers node value) :
    ∃ final, payloads.foldl observe (some node) = some final ∧ Covers final value := by
  induction payloads generalizing node with
  | nil => exact ⟨node, rfl, hCovers⟩
  | cons payload rest ih => exact ih (hCovers.merge_left _)

theorem covers_observe {payloads : List Payload} {payload : Payload} (hMem : payload ∈ payloads)
    (node : Option Node) :
    ∃ final, payloads.foldl observe node = some final ∧ Covers final (.object payload) := by
  induction payloads generalizing node with
  | nil => cases hMem
  | cons first rest ih =>
      rcases List.mem_cons.mp hMem with rfl | hRest
      · exact covers_observe_keeps (covers_mergeNodes_right (covers_inferValue _) node)
      · exact ih hRest (observe node first)

/-- The schema of a batch covers every record of it. -/
theorem covers_inferRecords {payloads : List Payload} {payload : Payload}
    (hMem : payload ∈ payloads) : Covers (inferRecords payloads) (.object payload) := by
  obtain ⟨final, hFinal, hCovers⟩ := covers_observe hMem none
  rw [inferRecords, hFinal]
  exact hCovers

/-! ## What a covering schema says of a record -/

/-- A field that the schema calls a number is one wherever it is anything. -/
theorem Covers.number (hCovers : Covers node value) {path : List String} {found : Node}
    (hField : fieldNode node path = some found) (hNumber : found.kind = .number) {inner : Json}
    (hInner : value.at? path = some inner) : kindOf inner = .null ∨ kindOf inner = .number := by
  induction path generalizing node value with
  | nil =>
      obtain rfl := Option.some.inj hField
      obtain rfl := Option.some.inj hInner
      rcases (hCovers []).fits with hNull | hString | hKind
      · exact .inl hNull
      · exact absurd (hNumber.symm.trans hString) (by decide)
      · exact .inr (hKind.symm.trans hNumber)
  | cons name rest ih =>
      rw [fieldNode] at hField
      obtain ⟨hObject, hField⟩ := Option.ite_none_right_eq_some.mp hField
      obtain ⟨below, hBelow, hField⟩ := Option.bind_eq_some_iff.mp hField
      rw [Json.at?_cons] at hInner
      obtain ⟨next, hNext, hInner⟩ := Option.bind_eq_some_iff.mp hInner
      refine ih (fun path => ?_) hField hInner
      obtain ⟨found', hFound', hCoversBelow⟩ := (hCovers (name :: path)).2 hObject next hNext
      obtain rfl := Option.some.inj (hBelow.symm.trans hFound')
      exact hCoversBelow

/-- A field of a record is in the schema, or below a node that has become a string. -/
theorem Covers.resolves (hCovers : Covers node value) {path : List String} {inner : Json}
    (hInner : value.at? path = some inner) :
    (∃ found, fieldNode node path = some found) ∨
      ∃ above below found, path = above ++ below ∧ below ≠ [] ∧
        fieldNode node above = some found ∧ found.kind = .string := by
  induction path generalizing node value with
  | nil => exact .inl ⟨node, rfl⟩
  | cons name rest ih =>
      rw [Json.at?_cons] at hInner
      obtain ⟨next, hNext, hInner⟩ := Option.bind_eq_some_iff.mp hInner
      have hValue : kindOf value = .object := by
        by_contra hNot
        rw [member_eq_none_of_kind hNot] at hNext
        cases hNext
      -- The value is an object, so the node is one, or has become a string.
      rcases (hCovers []).fits with hNull | hString | hKind
      · exact absurd (hNull.symm.trans hValue) (by decide)
      · exact .inr ⟨[], name :: rest, node, rfl, by simp, rfl, hString⟩
      · have hObject : node.kind = .object := hKind.trans hValue
        obtain ⟨below, hBelow, -⟩ := (hCovers [name]).2 hObject next hNext
        have hRest : Covers below next := by
          intro path
          obtain ⟨found, hFound, hCoversBelow⟩ := (hCovers (name :: path)).2 hObject next hNext
          obtain rfl := Option.some.inj (hBelow.symm.trans hFound)
          exact hCoversBelow
        have hStep : ∀ more, fieldNode node (name :: more) = fieldNode below more := by
          intro more
          rw [fieldNode, if_pos hObject, hBelow]
          rfl
        rcases ih hRest hInner with
          ⟨found, hFound⟩ | ⟨above, under, found, rfl, hUnder, hFound, hKind⟩
        · exact .inl ⟨found, (hStep rest).trans hFound⟩
        · exact .inr ⟨name :: above, under, found, rfl, hUnder, (hStep above).trans hFound, hKind⟩

end Collections
end OctoForge
