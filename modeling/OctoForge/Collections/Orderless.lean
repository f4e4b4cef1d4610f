import OctoForge.Collections.Inference

/-!
# Inference without an order

A node is told by what it sums up, so where every mark is spoken for, records give one schema in
whatever order and in whatever batches they come.  Where a field is null in one object and
missing from another, the order can be told from the mark.
-/

namespace OctoForge
namespace Collections

/-! ## The values at a place of the schema -/

/-- What is below the values along a path. -/
def reach : List Step → List Json → List Json
  | [], values => values
  | step :: path, values => reach path (values.flatMap step.below)

/-- Where the schema has a node, no field that two objects have is null in one of them and missing
from another. -/
def Tame (values : List Json) : Prop :=
  ∀ path, (∀ above, above <+: path → ¬Mixed (reach above values)) →
    ∀ step : Step, step.Tame (reach path values)

section Places

variable {values others whole whole' : List Json} {path : List Step} {step : Step} {node : Node}

theorem Tame.below (hTame : Tame values) (hMixed : ¬Mixed values) (step : Step) :
    Tame (values.flatMap step.below) := by
  intro path hAbove
  refine hTame (step :: path) fun above hPrefix => ?_
  rcases List.prefix_cons_iff.mp hPrefix with rfl | ⟨rest, rfl, hRest⟩
  · exact hMixed
  · exact hAbove rest hRest

theorem Tame.here (hTame : Tame values) (hMixed : ¬Mixed values) (step : Step) :
    step.Tame values := by
  refine hTame [] (fun above hPrefix => ?_) step
  rw [List.prefix_nil.mp hPrefix]
  exact hMixed

/-! ## A node is told by what it sums up -/

mutual

/-- Two nodes that sum the same values up. -/
theorem eq_of_describes : ∀ {node other : Node} {whole : List Json}, Tame whole →
    (∀ path, DescribesAt path whole node whole) → (∀ path, DescribesAt path whole other whole) →
    node.optional = other.optional → node = other
  | .mk kind element fields nullable optional, .mk kind' element' fields' nullable' optional',
    whole, hTame, hNode, hOther, hMark => by
      have hSums := (hNode []).sums
      have hSums' := (hOther []).sums
      have hSame : ∀ step : Step, (step.child (.mk kind element fields nullable optional)).isSome =
          (step.child (.mk kind' element' fields' nullable' optional')).isSome := fun step =>
        Bool.eq_iff_iff.mpr ((hSums.child step).trans (hSums'.child step).symm)
      have hBelow : ∀ (step : Step) (left right : Node),
          step.child (.mk kind element fields nullable optional) = some left →
          step.child (.mk kind' element' fields' nullable' optional') = some right →
          Tame (whole.flatMap step.below) ∧
            (∀ path, DescribesAt path (whole.flatMap step.below) left (whole.flatMap step.below)) ∧
            (∀ path, DescribesAt path (whole.flatMap step.below) right (whole.flatMap step.below)) ∧
            left.optional = right.optional := by
        intro step left right hLeft hRight
        have hMixed : ¬Mixed whole := by
          refine not_mixed_of_kindOver ?_
          rw [((hSums.child step).mp (by rw [hLeft]; rfl)).1]
          exact step.kind_ne_string
        refine ⟨hTame.below hMixed step, fun path => ?_, fun path => ?_, ?_⟩
        · exact ((hNode (step :: path)).2 hMixed left hLeft).2
        · exact ((hOther (step :: path)).2 hMixed right hRight).2
        · have hFlag := ((hNode [step]).2 hMixed left hLeft).1 (hTame.here hMixed step)
          have hFlag' := ((hOther [step]).2 hMixed right hRight).1 (hTame.here hMixed step)
          exact Bool.eq_iff_iff.mpr (hFlag.trans hFlag'.symm)
      obtain rfl : kind = kind' := hSums.kind.trans hSums'.kind.symm
      obtain rfl : nullable = nullable' :=
        Bool.eq_iff_iff.mpr (hSums.nullable.trans hSums'.nullable.symm)
      obtain rfl : optional = optional' := hMark
      obtain rfl : element = element' := eq_of_children (hSame .item) (hBelow .item)
      obtain rfl : fields = fields' :=
        funext fun name => eq_of_children (hSame (.member name)) (hBelow (.member name))
      rfl

theorem eq_of_children : ∀ {left right : Option Node} {below : List Json},
    left.isSome = right.isSome →
    (∀ node other, left = some node → right = some other → Tame below ∧
      (∀ path, DescribesAt path below node below) ∧
      (∀ path, DescribesAt path below other below) ∧ node.optional = other.optional) →
    left = right
  | none, none, _, _, _ => rfl
  | none, some _, _, hSame, _ => by cases hSame
  | some _, none, _, hSame, _ => by cases hSame
  | some node, some other, _, _, hBoth => by
      obtain ⟨hTame, hNode, hOther, hMark⟩ := hBoth node other rfl rfl
      rw [eq_of_describes hTame hNode hOther hMark]

end

/-! ## Permutations -/

theorem mixed_perm (hPerm : values.Perm others) : Mixed values ↔ Mixed others := by
  simp only [Mixed, hPerm.mem_iff]

theorem leavesOut_perm (hPerm : values.Perm others) :
    step.leavesOut values ↔ step.leavesOut others :=
  ⟨Step.leavesOut_mono hPerm.subset, Step.leavesOut_mono hPerm.symm.subset⟩

theorem below_perm (hPerm : values.Perm others) (step : Step) :
    (values.flatMap step.below).Perm (others.flatMap step.below) :=
  hPerm.flatMap_right step.below

theorem stepTame_perm (hPerm : values.Perm others) : step.Tame values ↔ step.Tame others := by
  simp only [Step.Tame, leavesOut_perm hPerm, (below_perm hPerm step).mem_iff,
    (below_perm hPerm step).length_eq]

theorem sums_perm (hPerm : values.Perm others) (hSums : Sums node values) : Sums node others := by
  obtain ⟨hKind, hNullable, hChild⟩ := hSums
  refine ⟨by rw [hKind, kindOver_perm hPerm], ?_, fun step => ?_⟩
  · simp only [hNullable, hPerm.mem_iff, kindOver_perm hPerm]
  · have hNil : values.flatMap step.below = [] ↔ others.flatMap step.below = [] := by
      rw [← List.length_eq_zero_iff, ← List.length_eq_zero_iff, (below_perm hPerm step).length_eq]
    rw [hChild, kindOver_perm hPerm, ne_eq, ne_eq, hNil]

theorem describesAt_perm (path : List Step) {whole whole' values others : List Json} {node : Node}
    (hWhole : whole.Perm whole') (hPerm : values.Perm others)
    (hDescribes : DescribesAt path whole node values) : DescribesAt path whole' node others := by
  induction path generalizing whole whole' values others node with
  | nil => exact sums_perm hPerm hDescribes
  | cons step path ih =>
      refine ⟨sums_perm hPerm hDescribes.1, fun hMixed child hChild => ?_⟩
      obtain ⟨hFlag, hBelow⟩ := hDescribes.2 ((mixed_perm hWhole).not.mpr hMixed) child hChild
      refine ⟨fun hTame => ?_, ih (below_perm hWhole step) (below_perm hPerm step) hBelow⟩
      rw [hFlag ((stepTame_perm hWhole).mpr hTame), leavesOut_perm hPerm]

/-! ## The fields of a schema -/

/-- The places of the fields. -/
def places (path : List String) : List Step := path.map .member

theorem reach_append (path rest : List Step) (values : List Json) :
    reach (path ++ rest) values = reach rest (reach path values) := by
  induction path generalizing values with
  | nil => rfl
  | cons step path ih => exact ih _

theorem reach_places (path : List String) (values : List Json) :
    reach (places path) values = values.filterMap fun value => value.at? path := by
  induction path generalizing values with
  | nil => simp [places, reach]
  | cons name rest ih =>
      have hBelow : values.flatMap (Step.member name).below =
          values.filterMap fun value => value.member name := by
        rw [List.filterMap_eq_flatMap_toList]
        rfl
      change reach (places rest) _ = _
      rw [ih, hBelow, List.filterMap_filterMap]
      rfl

theorem mem_reach_places {path : List String} {value : Json} :
    value ∈ reach (places path) values ↔ ∃ whole ∈ values, whole.at? path = some value := by
  rw [reach_places, List.mem_filterMap]

end Places

theorem fieldNode_append (node : Node) (path rest : List String) :
    fieldNode node (path ++ rest) =
      (fieldNode node path).bind fun found => fieldNode found rest := by
  induction path generalizing node with
  | nil => rfl
  | cons name path ih =>
      rw [List.cons_append, fieldNode, fieldNode]
      split
      · rw [Option.bind_assoc]
        exact congrArg _ (funext fun found => ih found)
      · rfl

theorem fieldNode_singleton {node found : Node} {name : String} :
    fieldNode node [name] = some found ↔ node.kind = .object ∧ node.fields name = some found := by
  rw [fieldNode, Option.ite_none_right_eq_some, Option.bind_eq_some_iff]
  simp [fieldNode]

/-! ## The claim of the fold -/

/-- The node of a place. -/
def nodeAt : Node → List Step → Option Node
  | node, [] => some node
  | node, step :: path => (step.child node).bind fun child => nodeAt child path

/-- The place, or one above it, has values of two kinds that make a string of its node. -/
def Degraded (records : List Payload) (path : List Step) : Prop :=
  ∃ above, above <+: path ∧ Mixed (reach above (records.map .object))

/-- The schema of the records does not depend on their order or on how they are batched, and its
marks say what some object leaves out and what is null in some record.  A field that is null
wherever it is has the type null, which says so without the mark. -/
structure Orderless (records : List Payload) : Prop where
  permuted : ∀ others : List Payload, others.Perm records →
    inferRecords others = inferRecords records
  batched : ∀ first second, first ≠ [] → second ≠ [] → first ++ second = records →
    (inferRecords first).merge (inferRecords second) = inferRecords records
  optional : ∀ path name node,
    nodeAt (inferRecords records) (path ++ [.member name]) = some node →
    ¬Degraded records (path ++ [.member name]) →
    (node.optional = true ↔ ∃ members, .object members ∈ reach path (records.map .object) ∧
      Json.lookup members name = none)
  nullable : ∀ path name node,
    nodeAt (inferRecords records) (path ++ [.member name]) = some node →
    ¬Degraded records (path ++ [.member name]) →
    (node.nullable = true ∨ node.kind = .null ↔
      .null ∈ reach (path ++ [.member name]) (records.map .object))

/-- The fields of the objects of the records are tame. -/
def TameFields (records : List Payload) : Prop :=
  ∀ path name, ¬Degraded records (places path) →
    (Step.member name).Tame (reach (places path) (records.map .object))

section Sufficient

variable {records : List Payload} {values whole : List Json} {path : List Step} {name : String}
  {node found : Node}

theorem nodeAt_concat {step : Step} :
    nodeAt node (path ++ [step]) = some found ↔
      ∃ above, nodeAt node path = some above ∧ step.child above = some found := by
  induction path generalizing node with
  | nil => simp [nodeAt]
  | cons first path ih =>
      simp only [List.cons_append, nodeAt, Option.bind_eq_some_iff, ih]
      constructor
      · rintro ⟨child, hChild, above, hAbove, hFound⟩
        exact ⟨above, ⟨child, hChild, hAbove⟩, hFound⟩
      · rintro ⟨above, ⟨child, hChild, hAbove⟩, hFound⟩
        exact ⟨child, hChild, above, hAbove, hFound⟩

theorem not_mixed_of_child {step : Step} (hSums : Sums node values)
    (hChild : step.child node = some found) : ¬Mixed values := by
  refine not_mixed_of_kindOver ?_
  rw [((hSums.child step).mp (by rw [hChild]; rfl)).1]
  exact step.kind_ne_string

/-- What a schema says at the places it has. -/
theorem describes_nodeAt (hTame : Tame whole) (hNode : ∀ rest, DescribesAt rest whole node whole)
    (hFound : nodeAt node path = some found) :
    Tame (reach path whole) ∧
      ∀ rest, DescribesAt rest (reach path whole) found (reach path whole) := by
  induction path generalizing whole node with
  | nil =>
      obtain rfl := Option.some.inj hFound
      exact ⟨hTame, hNode⟩
  | cons step path ih =>
      obtain ⟨child, hChild, hFound⟩ := Option.bind_eq_some_iff.mp hFound
      have hMixed := not_mixed_of_child (hNode []).sums hChild
      exact ih (hTame.below hMixed step)
        (fun rest => ((hNode (step :: rest)).2 hMixed child hChild).2) hFound

theorem leavesOut_member :
    (Step.member name).leavesOut values ↔
      ∃ members, .object members ∈ values ∧ Json.lookup members name = none := by
  constructor
  · rintro ⟨value, hValue, hKind, hNone⟩
    cases value with
    | object members => exact ⟨members, hValue, hNone⟩
    | _ => cases hKind
  · rintro ⟨members, hValue, hNone⟩
    exact ⟨_, hValue, rfl, hNone⟩

theorem exists_null : (∃ value ∈ values, kindOf value = .null) ↔ .null ∈ values := by
  constructor
  · rintro ⟨value, hValue, hKind⟩
    cases value with
    | null => exact hValue
    | _ => cases hKind
  · intro hValue
    exact ⟨_, hValue, rfl⟩

/-- A schema that is described whole sums itself up. -/
theorem describes_inferRecords (hSome : records ≠ []) (rest : List Step) :
    DescribesAt rest (records.map .object) (inferRecords records) (records.map .object) :=
  (describesAt_inferRecords rest hSome (List.Sublist.refl _)).1

theorem eq_inferRecords (hTame : Tame (records.map .object)) (hSome : records ≠ [])
    (hNode : ∀ rest, DescribesAt rest (records.map .object) node (records.map .object))
    (hMark : node.optional = false) : node = inferRecords records :=
  eq_of_describes hTame hNode (describes_inferRecords hSome)
    (hMark.trans (describesAt_inferRecords [] hSome (List.Sublist.refl _)).2.symm)

theorem orderless_of_tame (hTame : Tame (records.map .object)) : Orderless records := by
  by_cases hSome : records = []
  · subst hSome
    have hNone : ∀ (path : List Step) (name : String),
        nodeAt (inferRecords []) (path ++ [.member name]) = none := by
      intro path name
      cases path with
      | nil => rfl
      | cons step path => cases step <;> rfl
    refine ⟨fun others hPerm => by rw [List.perm_nil.mp hPerm], ?_, ?_, ?_⟩
    · intro first second hFirst _ hBoth
      exact absurd (List.append_eq_nil_iff.mp hBoth).1 hFirst
    · intro path name node hNode
      rw [hNone] at hNode
      cases hNode
    · intro path name node hNode
      rw [hNone] at hNode
      cases hNode
  refine ⟨fun others hPerm => ?_, fun first second hFirst hSecond hBoth => ?_,
    fun path name node hNode _ => ?_, fun path name node hNode _ => ?_⟩
  -- A schema is decided by what it describes, which does not depend on the order.
  · have hOthers : others ≠ [] := fun hNil => hSome (List.perm_nil.mp (hNil ▸ hPerm).symm)
    have hMap := hPerm.map Json.object
    exact eq_inferRecords hTame hSome
      (fun rest => describesAt_perm rest hMap hMap (describes_inferRecords hOthers rest))
      (describesAt_inferRecords [] hOthers (List.Sublist.refl _)).2
  · have hMap : first.map Json.object ++ second.map Json.object = records.map Json.object := by
      rw [← List.map_append, hBoth]
    have hSub : (first.map Json.object ++ second.map Json.object).Sublist
        (records.map Json.object) := by rw [hMap]
    have hLeft := fun rest => describesAt_inferRecords rest hFirst
      ((List.sublist_append_left _ _).trans hSub)
    have hRight := fun rest => describesAt_inferRecords rest hSecond
      ((List.sublist_append_right _ _).trans hSub)
    refine eq_inferRecords hTame hSome (fun rest => ?_) ?_
    · have hMerged := describesAt_merge rest (by simpa using hFirst) (by simpa using hSecond) hSub
        (hLeft rest).1 (hRight rest).1
      rwa [hMap] at hMerged
    · rw [optional_merge, (hLeft []).2, (hRight []).2]
      simp
  · -- The mark says what the values of the node above leave out.
    obtain ⟨above, hAbove, hField⟩ := nodeAt_concat.mp hNode
    obtain ⟨hTameAbove, hDescribes⟩ := describes_nodeAt hTame (describes_inferRecords hSome) hAbove
    have hMixed := not_mixed_of_child (hDescribes []).sums hField
    rw [((hDescribes [.member name]).2 hMixed node hField).1 (hTameAbove.here hMixed _),
      leavesOut_member]
  -- A schema says null by its mark, or by its kind where nothing but null is there.
  · have hSums := ((describes_nodeAt hTame (describes_inferRecords hSome) hNode).2 []).sums
    have hBelow : reach (path ++ [.member name]) (records.map .object) ≠ [] := by
      obtain ⟨above, hAbove, hField⟩ := nodeAt_concat.mp hNode
      have hAll := (describes_nodeAt hTame (describes_inferRecords hSome) hAbove).2
      rw [reach_append]
      exact (((hAll []).sums.child (.member name)).mp (by rw [hField]; rfl)).2
    rw [hSums.nullable, hSums.kind, ← exists_null]
    constructor
    · rintro (⟨hThere, -⟩ | hNull)
      · exact hThere
      · exact exists_null_of_all hBelow (kindOver_eq_null.mp hNull)
    · intro hThere
      by_cases hNull : kindOver (reach (path ++ [.member name]) (records.map .object)) = .null
      · exact .inr hNull
      · exact .inl ⟨hThere, hNull⟩

end Sufficient

/-! ## An order that loses the mark -/

theorem merge_object {current incoming : Node} (hObject : current.kind = .object)
    (hObject' : incoming.kind = .object) (name : String) :
    (current.merge incoming).kind = .object ∧ (current.merge incoming).fields name =
      mergeField (current.fields name) (incoming.fields name) := by
  obtain ⟨kind, element, fields, nullable, optional⟩ := current
  obtain ⟨kind', element', fields', nullable', optional'⟩ := incoming
  obtain rfl : kind = .object := hObject
  obtain rfl : kind' = .object := hObject'
  exact ⟨rfl, rfl⟩

/-- A field that both sides have is merged. -/
theorem fieldNode_merge {current incoming left right : Node} {path : List String}
    (hLeft : fieldNode current path = some left) (hRight : fieldNode incoming path = some right) :
    fieldNode (current.merge incoming) path = some (left.merge right) := by
  induction path generalizing current incoming with
  | nil =>
      obtain rfl := Option.some.inj hLeft
      obtain rfl := Option.some.inj hRight
      rfl
  | cons name path ih =>
      rw [fieldNode, Option.ite_none_right_eq_some, Option.bind_eq_some_iff] at hLeft hRight
      obtain ⟨hObject, below, hBelow, hLeft⟩ := hLeft
      obtain ⟨hObject', below', hBelow', hRight⟩ := hRight
      obtain ⟨hMerged, hField⟩ := merge_object hObject hObject' name
      rw [fieldNode, if_pos hMerged, hField, hBelow, hBelow']
      exact ih hLeft hRight

/-- A field that one side is without gets the mark. -/
theorem fieldNode_merge_left {current incoming left right child : Node} {path : List String}
    {name : String} (hLeft : fieldNode current path = some left) (hObject : left.kind = .object)
    (hChild : left.fields name = some child) (hRight : fieldNode incoming path = some right)
    (hObject' : right.kind = .object) (hNone : right.fields name = none) :
    fieldNode (current.merge incoming) (path ++ [name]) = some child.asOptional := by
  obtain ⟨hMerged, hField⟩ := merge_object hObject hObject' name
  rw [fieldNode_append, fieldNode_merge hLeft hRight]
  refine fieldNode_singleton.mpr ⟨hMerged, ?_⟩
  rw [hField, hChild, hNone]
  rfl

theorem fieldNode_merge_right {current incoming left right child : Node} {path : List String}
    {name : String} (hLeft : fieldNode current path = some left) (hObject : left.kind = .object)
    (hNone : left.fields name = none) (hRight : fieldNode incoming path = some right)
    (hObject' : right.kind = .object) (hChild : right.fields name = some child) :
    fieldNode (current.merge incoming) (path ++ [name]) = some child.asOptional := by
  obtain ⟨hMerged, hField⟩ := merge_object hObject hObject' name
  rw [fieldNode_append, fieldNode_merge hLeft hRight]
  refine fieldNode_singleton.mpr ⟨hMerged, ?_⟩
  rw [hField, hNone, hChild]
  rfl

/-- The field of one record. -/
theorem fieldNode_inferValue (value : Json) (path : List String) :
    fieldNode (inferValue value) path = (value.at? path).map inferValue := by
  induction path generalizing value with
  | nil => rfl
  | cons name path ih =>
      rw [fieldNode, Json.at?_cons]
      cases value with
      | object members =>
          have hFields : (inferValue (.object members)).fields name =
              ((Json.object members).member name).map inferValue := inferMembers_eq members name
          have hKind : (inferValue (.object members)).kind = .object := rfl
          rw [if_pos hKind, hFields]
          cases (Json.object members).member name with
          | none => rfl
          | some inner => exact ih inner
      | _ => rfl

theorem inferRecords_concat {records : List Payload} (hSome : records ≠ []) (record : Payload) :
    inferRecords (records ++ [record]) =
      (inferRecords records).merge (inferValue (.object record)) := by
  obtain ⟨first, rest, rfl⟩ := List.exists_cons_of_ne_nil hSome
  have hFold : ∃ node, (first :: rest).foldl observe none = some node := by
    rw [foldl_observe]
    exact Option.isSome_iff_exists.mp (isSome_gather _ _)
  obtain ⟨node, hNode⟩ := hFold
  rw [inferRecords, inferRecords, List.foldl_append, hNode]
  rfl

section Necessary

variable {records rest : List Payload} {record : Payload} {path : List String} {name : String}
  {node : Node}

/-- Where nothing is degraded, the schema of values of which one has an object there has a node
there, with the fields of the objects. -/
theorem exists_fieldNode {whole values : List Json} {value : Json}
    {members : List (String × Json)}
    (hMixed : ∀ above, above <+: path → ¬Mixed (reach (places above) whole))
    (hSub : values.Sublist whole) (hNode : ∀ rest, DescribesAt rest whole node values)
    (hValue : value ∈ values) (hAt : value.at? path = some (.object members)) :
    ∃ found, fieldNode node path = some found ∧ found.kind = .object ∧
      ∀ name, (found.fields name).isSome ↔ reach (places (path ++ [name])) values ≠ [] := by
  have hHere : ¬Mixed whole := hMixed [] List.nil_prefix
  induction path generalizing whole values node value with
  | nil =>
      obtain rfl := Option.some.inj hAt
      have hSums := (hNode []).sums
      have hKind : kindOver values = .object :=
        kindOver_of_not_mixed hHere hSub.subset hValue (by simp [kindOf])
      refine ⟨node, rfl, hSums.kind.trans hKind, fun name => ?_⟩
      exact (hSums.child (.member name)).trans (and_iff_right hKind)
  | cons part path ih =>
      rw [Json.at?_cons, Option.bind_eq_some_iff] at hAt
      obtain ⟨inner, hInner, hAt⟩ := hAt
      -- The path goes on, so the value has members.
      have hObject : kindOf value = .object := by
        by_contra hNot
        rw [member_eq_none_of_kind hNot] at hInner
        cases hInner
      have hSums := (hNode []).sums
      have hKind : kindOver values = .object :=
        (kindOver_of_not_mixed hHere hSub.subset hValue (by simp [hObject])).trans hObject
      have hBelow : inner ∈ values.flatMap (Step.member part).below :=
        List.mem_flatMap.mpr ⟨value, hValue, by simp [Step.below, hInner]⟩
      obtain ⟨child, hChild⟩ := Option.isSome_iff_exists.mp
        ((hSums.child (.member part)).mpr ⟨hKind, List.ne_nil_of_mem hBelow⟩)
      have hAbove : ∀ above, above <+: path →
          ¬Mixed (reach (places above) (whole.flatMap (Step.member part).below)) :=
        fun above hPrefix => hMixed (part :: above) (List.prefix_cons_inj part |>.mpr hPrefix)
      -- One step down, with what the values have under the name.
      obtain ⟨found, hFound, hRest⟩ := ih hAbove (hSub.flatMap _)
        (fun rest => ((hNode (.member part :: rest)).2 hHere child hChild).2) hBelow hAt
        (hAbove [] List.nil_prefix)
      refine ⟨found, ?_, hRest⟩
      have hFields : node.fields part = some child := hChild
      rw [fieldNode, if_pos (hSums.kind.trans hKind), hFields]
      exact hFound

/-- The record has the field. -/
def has (path : List String) (record : Payload) : Bool := ((Json.object record).at? path).isSome

/-- From a null on, a field that every record has does not get the mark. -/
theorem fold_has {child : Node} (hField : fieldNode (inferRecords records) path = some child)
    (hSome : records ≠ []) (hUnmarked : child.kind = .null ∨ child.optional = false)
    (hHas : ∀ record ∈ rest, has path record = true) (hRest : rest ≠ []) :
    ∃ final, fieldNode (inferRecords (records ++ rest)) path = some final ∧
      final.optional = false := by
  induction rest generalizing records child with
  | nil => exact absurd rfl hRest
  | cons record rest ih =>
      obtain ⟨value, hValue⟩ := Option.isSome_iff_exists.mp (hHas record List.mem_cons_self)
      have hRecord : fieldNode (inferValue (.object record)) path = some (inferValue value) := by
        rw [fieldNode_inferValue, hValue]
        rfl
      have hMerged := fieldNode_merge hField hRecord
      rw [← inferRecords_concat hSome] at hMerged
      have hMark : (child.merge (inferValue value)).optional = false := by
        rw [optional_merge, optional_inferValue]
        rcases hUnmarked with hNull | hMark
        · rw [if_pos hNull]
        · rw [hMark]
          simp
      have hSplit : records ++ record :: rest = (records ++ [record]) ++ rest := by simp
      rw [hSplit]
      by_cases hMore : rest = []
      · rw [hMore, List.append_nil]
        exact ⟨_, hMerged, hMark⟩
      · exact ih hMerged (by simp) (.inr hMark)
          (fun other hOther => hHas other (List.mem_cons_of_mem _ hOther)) hMore

theorem reach_places_concat (path : List String) (name : String) (values : List Json) :
    (reach (places path) values).flatMap (Step.member name).below =
      reach (places (path ++ [name])) values := by
  rw [places, places, List.map_append, reach_append]
  rfl

/-- So many records have the field. -/
theorem length_reach_places (field : List String) (records : List Payload) :
    (reach (places field) (records.map .object)).length = (records.filter (has field)).length := by
  rw [reach_places, List.filterMap_map, List.length_filterMap_eq_countP,
    List.countP_eq_length_filter]
  rfl

theorem at?_concat {value inner : Json} (hAt : value.at? (path ++ [name]) = some inner) :
    ∃ members, value.at? path = some (.object members) ∧
      Json.lookup members name = some inner := by
  induction path generalizing value with
  | nil =>
      rw [List.nil_append, Json.at?_cons, Option.bind_eq_some_iff] at hAt
      obtain ⟨found, hFound, hAt⟩ := hAt
      obtain rfl := Option.some.inj hAt
      cases value with
      | object members => exact ⟨members, rfl, hFound⟩
      | _ => cases hFound
  | cons part path ih =>
      rw [List.cons_append, Json.at?_cons, Option.bind_eq_some_iff] at hAt
      obtain ⟨next, hNext, hAt⟩ := hAt
      obtain ⟨members, hMembers, hLookup⟩ := ih hAt
      exact ⟨members, by rw [Json.at?_cons, hNext]; exact hMembers, hLookup⟩

/-- The field of an object. -/
theorem fieldNode_object (name : String) {value : Json} {members : List (String × Json)}
    (hAt : value.at? path = some (.object members)) :
    fieldNode (inferValue value) path = some (inferValue (.object members)) ∧
      (inferValue (.object members)).fields name = (Json.lookup members name).map inferValue :=
  ⟨by rw [fieldNode_inferValue, hAt]; rfl, inferMembers_eq members name⟩

/-- The objects that are without the field come first, then a null, then what else there is: the
mark is lost. -/
theorem unmarked_order {missing nothing : Payload} {members : List (String × Json)}
    (hMixed : ∀ above, above <+: path → ¬Mixed (reach (places above) (records.map .object)))
    (hMissing : missing ∈ records) (hAt : (Json.object missing).at? path = some (.object members))
    (hNone : Json.lookup members name = none) (hNothing : nothing ∈ records)
    (hNull : (Json.object nothing).at? (path ++ [name]) = some .null)
    (hMany : 1 < (records.filter (has (path ++ [name]))).length) :
    ∃ others final, others.Perm records ∧
      fieldNode (inferRecords others) (path ++ [name]) = some final ∧ final.optional = false := by
  have hMissingHas : has (path ++ [name]) missing = false := by
    by_contra hHas
    obtain ⟨inner, hInner⟩ := Option.isSome_iff_exists.mp (Bool.not_eq_false _ ▸ hHas)
    obtain ⟨members', hAt', hLookup⟩ := at?_concat hInner
    obtain rfl : members = members' := by simpa using hAt.symm.trans hAt'
    rw [hNone] at hLookup
    cases hLookup
  have hFirst : missing ∈ records.filter fun record => !has (path ++ [name]) record :=
    List.mem_filter.mpr ⟨hMissing, by simp [hMissingHas]⟩
  have hThere : nothing ∈ records.filter (has (path ++ [name])) :=
    List.mem_filter.mpr ⟨hNothing, by rw [has, hNull]; rfl⟩
  obtain ⟨above, below, hSplit⟩ := List.append_of_mem hThere
  have hRest : above ++ below ≠ [] := by
    intro hNil
    rw [hSplit, List.length_append, List.length_cons] at hMany
    have hZero := congrArg List.length hNil
    rw [List.length_append, List.length_nil] at hZero
    omega
  have hHas : ∀ record ∈ above ++ below, has (path ++ [name]) record = true := by
    intro record hRecord
    have hMem : record ∈ records.filter (has (path ++ [name])) := by
      rw [hSplit]
      rcases List.mem_append.mp hRecord with hAbove | hBelow
      · exact List.mem_append_left _ hAbove
      · exact List.mem_append_right _ (List.mem_cons_of_mem _ hBelow)
    exact (List.mem_filter.mp hMem).2
  -- What the objects without the field leave.
  have hSub := (List.filter_sublist (l := records)
    (p := fun record => !has (path ++ [name]) record)).map Json.object
  obtain ⟨left, hLeft, hObject, hFields⟩ := exists_fieldNode hMixed hSub
    (fun rest => (describesAt_inferRecords rest (List.ne_nil_of_mem hFirst) hSub).1)
    (List.mem_map_of_mem hFirst) hAt
  have hLeftNone : left.fields name = none := by
    rw [← Option.not_isSome_iff_eq_none, hFields, not_not, ← List.length_eq_zero_iff,
      length_reach_places, List.length_eq_zero_iff, List.filter_filter]
    simp
  obtain ⟨members', hAt', hLookup⟩ := at?_concat hNull
  obtain ⟨hRight, hChild⟩ := fieldNode_object name hAt'
  rw [hLookup] at hChild
  have hMerged := fieldNode_merge_right hLeft hObject hLeftNone hRight rfl hChild
  rw [← inferRecords_concat (List.ne_nil_of_mem hFirst)] at hMerged
  obtain ⟨final, hFinal, hMark⟩ := fold_has hMerged (by simp)
    (.inl (kind_asOptional (inferValue .null))) hHas hRest
  refine ⟨_, final, ?_, hFinal, hMark⟩
  have hPerm := List.filter_append_perm (has (path ++ [name])) records
  rw [hSplit] at hPerm
  refine List.Perm.trans ?_ (List.perm_append_comm.trans hPerm)
  rw [List.append_assoc, List.singleton_append]
  exact List.perm_middle.symm.append_left _

/-- An object that is without the field comes last: the mark is there. -/
theorem marked_order {missing nothing : Payload} {members : List (String × Json)}
    (hMixed : ∀ above, above <+: path → ¬Mixed (reach (places above) (records.map .object)))
    (hMissing : missing ∈ records) (hAt : (Json.object missing).at? path = some (.object members))
    (hNone : Json.lookup members name = none) (hNothing : nothing ∈ records)
    (hNull : (Json.object nothing).at? (path ++ [name]) = some .null) :
    ∃ others final, others.Perm records ∧
      fieldNode (inferRecords others) (path ++ [name]) = some final ∧ final.optional = true := by
  obtain ⟨above, below, rfl⟩ := List.append_of_mem hMissing
  obtain ⟨members', hAt', hLookup⟩ := at?_concat hNull
  have hThere : nothing ∈ above ++ below := by
    rcases List.mem_append.mp hNothing with hAbove | hBelow
    · exact List.mem_append_left _ hAbove
    · rcases List.mem_cons.mp hBelow with rfl | hBelow
      · obtain rfl : members = members' := by simpa using hAt.symm.trans hAt'
        rw [hNone] at hLookup
        cases hLookup
      · exact List.mem_append_right _ hBelow
  have hSub : ((above ++ below).map Json.object).Sublist
      ((above ++ missing :: below).map Json.object) :=
    (List.Sublist.append_left (List.sublist_cons_self missing below) above).map Json.object
  obtain ⟨left, hLeft, hObject, hFields⟩ := exists_fieldNode hMixed hSub
    (fun rest => (describesAt_inferRecords rest (List.ne_nil_of_mem hThere) hSub).1)
    (List.mem_map_of_mem hThere) hAt'
  have hReach : Json.null ∈ reach (places (path ++ [name])) ((above ++ below).map .object) :=
    mem_reach_places.mpr ⟨_, List.mem_map_of_mem hThere, hNull⟩
  obtain ⟨child, hChild⟩ := Option.isSome_iff_exists.mp
    ((hFields name).mpr (List.ne_nil_of_mem hReach))
  obtain ⟨hRight, hRightNone⟩ := fieldNode_object name hAt
  rw [hNone] at hRightNone
  have hMerged := fieldNode_merge_left hLeft hObject hChild hRight rfl hRightNone
  rw [← inferRecords_concat (List.ne_nil_of_mem hThere)] at hMerged
  refine ⟨_, _, ?_, hMerged, optional_asOptional child⟩
  rw [List.append_assoc]
  exact (List.perm_append_comm.append_left above).trans (List.Perm.refl _)

theorem tameFields_of_permuted
    (hPermuted : ∀ others : List Payload, others.Perm records →
      inferRecords others = inferRecords records) : TameFields records := by
  intro path name hClean hLeaves hNull
  by_contra hMany
  have hMixed : ∀ above, above <+: path → ¬Mixed (reach (places above) (records.map .object)) :=
    fun above hPrefix hMixed => hClean ⟨places above, hPrefix.map _, hMixed⟩
  rw [reach_places_concat, length_reach_places, not_le] at hMany
  rw [reach_places_concat, exists_null, mem_reach_places] at hNull
  obtain ⟨members, hThere, hNone⟩ := leavesOut_member.mp hLeaves
  obtain ⟨value, hValue, hAt⟩ := mem_reach_places.mp hThere
  obtain ⟨missing, hMissing, rfl⟩ := List.mem_map.mp hValue
  obtain ⟨value', hValue', hNullAt⟩ := hNull
  obtain ⟨nothing, hNothing, rfl⟩ := List.mem_map.mp hValue'
  obtain ⟨first, unmarked, hFirst, hUnmarked, hFalse⟩ :=
    unmarked_order hMixed hMissing hAt hNone hNothing hNullAt hMany
  obtain ⟨second, marked, hSecond, hMarked, hTrue⟩ :=
    marked_order hMixed hMissing hAt hNone hNothing hNullAt
  rw [hPermuted first hFirst] at hUnmarked
  rw [hPermuted second hSecond, hUnmarked] at hMarked
  obtain rfl := Option.some.inj hMarked
  rw [hFalse] at hTrue
  cases hTrue

end Necessary

/-- Tame records have an orderless schema, and only records whose fields are tame have one.  What
is below an array is folded in the order of its items, whatever the order of the records. -/
theorem inference_orderless (records : List Payload) :
    (Tame (records.map .object) → Orderless records) ∧ (Orderless records → TameFields records) :=
  ⟨orderless_of_tame, fun hOrderless => tameFields_of_permuted hOrderless.permuted⟩

/-- A field that is missing, then null and then a number is a number that is never missing. -/
theorem mark_lost :
    ¬∀ records others : List Payload, others.Perm records →
      inferRecords others = inferRecords records := by
  intro hAll
  have hPerm : ([[], [("a", .null)]] ++ [[("a", .number 1)]] : List Payload).Perm
      ([[("a", .number 1)]] ++ [[], [("a", .null)]]) := List.perm_append_comm
  have hMark := congrArg (fun schema => (schema.fields "a").map Node.optional) (hAll _ _ hPerm)
  revert hMark
  decide

end Collections
end OctoForge
