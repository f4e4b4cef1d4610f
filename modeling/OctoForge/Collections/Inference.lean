import Mathlib.Data.List.Basic
import Mathlib.Data.List.Flatten
import Mathlib.Data.List.Perm.Basic
import OctoForge.Collections.Schema

/-!
# What a schema says of the values it was inferred from

A node that was folded out of some values has the join of their kinds, and a node below it for
what is below the values.  None of this depends on the order of the fold.  The mark `optional`
does: a null that carries it loses it to the next value that is there.
-/

namespace OctoForge
namespace Collections

/-! ## The kinds of some values -/

/-- Null is below every kind, and two kinds that differ make a string. -/
def Kind.join (a b : Kind) : Kind :=
  if a = .null then b else if b = .null then a else if a = b then a else .string

theorem Kind.join_assoc (a b c : Kind) : (a.join b).join c = a.join (b.join c) := by
  cases a <;> cases b <;> cases c <;> rfl

theorem Kind.join_comm (a b : Kind) : a.join b = b.join a := by
  cases a <;> cases b <;> rfl

theorem Kind.null_join (a : Kind) : Kind.null.join a = a := rfl

theorem Kind.join_null (a : Kind) : a.join .null = a := by
  cases a <;> rfl

theorem Kind.join_self (a : Kind) : a.join a = a := by
  cases a <;> rfl

/-- The join of the kinds of the values. -/
def kindOver (values : List Json) : Kind :=
  values.foldr (fun value kind => (kindOf value).join kind) .null

/-- Two of the values are of kinds that make a string of the node. -/
def Mixed (values : List Json) : Prop :=
  ∃ v ∈ values, ∃ w ∈ values, kindOf v ≠ .null ∧ kindOf w ≠ .null ∧ kindOf v ≠ kindOf w

section Kinds

variable {values others : List Json} {value : Json} {kind : Kind}

theorem kindOver_cons (value : Json) (values : List Json) :
    kindOver (value :: values) = (kindOf value).join (kindOver values) := rfl

theorem kindOver_singleton (value : Json) : kindOver [value] = kindOf value :=
  Kind.join_null _

theorem kindOver_append (values others : List Json) :
    kindOver (values ++ others) = (kindOver values).join (kindOver others) := by
  induction values with
  | nil => exact (Kind.null_join _).symm
  | cons value values ih => rw [List.cons_append, kindOver_cons, kindOver_cons, ih, Kind.join_assoc]

theorem kindOver_perm (hPerm : values.Perm others) : kindOver values = kindOver others := by
  induction hPerm with
  | nil => rfl
  | cons value _ ih => rw [kindOver_cons, kindOver_cons, ih]
  | swap v w rest =>
      rw [kindOver_cons, kindOver_cons, kindOver_cons, kindOver_cons, ← Kind.join_assoc,
        Kind.join_comm (kindOf w), Kind.join_assoc]
  | trans _ _ ih ih' => exact ih.trans ih'

/-- A value that is there counts. -/
theorem join_kindOver (hValue : value ∈ values) :
    (kindOf value).join (kindOver values) = kindOver values := by
  induction values with
  | nil => cases hValue
  | cons first rest ih =>
      rw [kindOver_cons]
      rcases List.mem_cons.mp hValue with rfl | hRest
      · rw [← Kind.join_assoc, Kind.join_self]
      · rw [← Kind.join_assoc, Kind.join_comm (kindOf value), Kind.join_assoc, ih hRest]

theorem kindOver_eq_null : kindOver values = .null ↔ ∀ value ∈ values, kindOf value = .null := by
  induction values with
  | nil => simp [kindOver]
  | cons value values ih =>
      rw [kindOver_cons, List.forall_mem_cons, ← ih]
      cases kindOf value <;> cases kindOver values <;> decide

theorem exists_of_kindOver_ne (hKind : kindOver values ≠ .null) :
    ∃ value ∈ values, kindOf value ≠ .null := by
  by_contra hNone
  push Not at hNone
  exact hKind (kindOver_eq_null.mpr hNone)

/-- The values of a node that is not a string are of its kind or null. -/
theorem kindOf_of_kindOver (hKind : kindOver values ≠ .string) (hValue : value ∈ values) :
    kindOf value = .null ∨ kindOf value = kindOver values := by
  have hJoin := join_kindOver hValue
  revert hJoin hKind
  cases kindOf value <;> cases kindOver values <;> decide

theorem not_mixed_of_kindOver (hKind : kindOver values ≠ .string) : ¬Mixed values := by
  rintro ⟨v, hV, w, hW, hVNull, hWNull, hNe⟩
  have hSameV := (kindOf_of_kindOver hKind hV).resolve_left hVNull
  have hSameW := (kindOf_of_kindOver hKind hW).resolve_left hWNull
  exact hNe (hSameV.trans hSameW.symm)

/-- Where nothing is mixed, some of the values have the kind of any that is not null. -/
theorem kindOver_of_not_mixed (hMixed : ¬Mixed others) (hSub : values ⊆ others)
    (hValue : value ∈ values) (hKind : kindOf value ≠ .null) : kindOver values = kindOf value := by
  have hAll : ∀ v ∈ values, kindOf v = .null ∨ kindOf v = kindOf value := by
    intro v hV
    by_contra hNot
    push Not at hNot
    exact hMixed ⟨v, hSub hV, value, hSub hValue, hNot.1, hKind, hNot.2⟩
  have hJoin : (kindOver values).join (kindOf value) = kindOf value := by
    clear hValue hSub hMixed
    induction values with
    | nil => exact Kind.null_join _
    | cons first rest ih =>
        rw [kindOver_cons, Kind.join_assoc, ih fun v hV => hAll v (List.mem_cons_of_mem _ hV)]
        rcases hAll first List.mem_cons_self with hNull | hSame
        · rw [hNull, Kind.null_join]
        · rw [hSame, Kind.join_self]
  rw [← hJoin, Kind.join_comm, join_kindOver hValue]

end Kinds

/-! ## One level down -/

/-- A step from a value to what is below it, and from a node to the node of that. -/
inductive Step where
  | member (name : String)
  /-- Every item of an array. -/
  | item
  deriving DecidableEq, Repr

namespace Step

/-- The kind of the values that have something there. -/
def kind : Step → Kind
  | member _ => .object
  | item => .array

def below : Step → Json → List Json
  | member name, value => (value.member name).toList
  | item, .array items => items
  | item, _ => []

/-- The node below a node. -/
def child : Step → Node → Option Node
  | member name, node => node.fields name
  | item, node => node.element

/-- An object is without the member. -/
def leavesOut : Step → List Json → Prop
  | member name, values => ∃ value ∈ values, kindOf value = .object ∧ value.member name = none
  | item, _ => False

/-- No field that two of the objects have is null in one of them and missing from another. -/
def Tame (step : Step) (values : List Json) : Prop :=
  step.leavesOut values → (∃ value ∈ values.flatMap step.below, kindOf value = .null) →
    (values.flatMap step.below).length ≤ 1

variable {step : Step} {value : Json} {values others : List Json}

theorem kind_of_below (hBelow : step.below value ≠ []) : kindOf value = step.kind := by
  cases step with
  | member name =>
      by_contra hKind
      exact hBelow (by rw [below, member_eq_none_of_kind hKind]; rfl)
  | item =>
      cases value with
      | array items => rfl
      | _ => exact absurd rfl hBelow

theorem kind_ne_null (step : Step) : step.kind ≠ .null := by
  cases step <;> simp [kind]

theorem kind_ne_string (step : Step) : step.kind ≠ .string := by
  cases step <;> simp [kind]

theorem leavesOut_append :
    step.leavesOut (values ++ others) ↔ step.leavesOut values ∨ step.leavesOut others := by
  cases step with
  | member name =>
      simp only [leavesOut, List.mem_append, or_and_right, exists_or]
  | item => simp [leavesOut]

theorem leavesOut_mono (hSub : values ⊆ others) (hLeaves : step.leavesOut values) :
    step.leavesOut others := by
  cases step with
  | member name =>
      obtain ⟨value, hValue, hKind, hNone⟩ := hLeaves
      exact ⟨value, hSub hValue, hKind, hNone⟩
  | item => exact hLeaves

theorem flatMap_below_eq_nil (hNull : ∀ value ∈ values, kindOf value = .null) :
    values.flatMap step.below = [] := by
  rw [List.flatMap_eq_nil_iff]
  intro value hValue
  by_contra hBelow
  exact step.kind_ne_null ((kind_of_below hBelow).symm.trans (hNull value hValue))

theorem not_leavesOut (hNull : ∀ value ∈ values, kindOf value = .null) :
    ¬step.leavesOut values := by
  cases step with
  | member name =>
      rintro ⟨value, hValue, hKind, -⟩
      exact absurd ((hNull value hValue).symm.trans hKind) (by decide)
  | item => exact id

/-- Objects of which none has the member leave it out. -/
theorem leavesOut_of_nil {name : String} (hKind : kindOver values = .object)
    (hNil : values.flatMap (member name).below = []) : (member name).leavesOut values := by
  have hSome : kindOver values ≠ .null := by
    rw [hKind]
    decide
  obtain ⟨value, hValue, hSolid⟩ := exists_of_kindOver_ne hSome
  have hObject := (kindOf_of_kindOver (by rw [hKind]; decide) hValue).resolve_left hSolid
  refine ⟨value, hValue, hObject.trans hKind, ?_⟩
  have hNone := List.flatMap_eq_nil_iff.mp hNil value hValue
  rw [below] at hNone
  cases hMember : value.member name with
  | none => rfl
  | some inner =>
      rw [hMember] at hNone
      cases hNone

end Step

/-! ## Describing -/

/-- What a node says of the values it was folded out of. -/
structure Sums (node : Node) (values : List Json) : Prop where
  kind : node.kind = kindOver values
  nullable : node.nullable = true ↔
    (∃ value ∈ values, kindOf value = .null) ∧ kindOver values ≠ .null
  child : ∀ step : Step, (step.child node).isSome ↔
    kindOver values = step.kind ∧ values.flatMap step.below ≠ []

/-- The node sums the values up along a path.  The values are some of those that the whole fold
has there, and the mark is only spoken for where the whole is tame. -/
def DescribesAt : (path : List Step) → (whole : List Json) → Node → (values : List Json) → Prop
  | [], _, node, values => Sums node values
  | step :: path, whole, node, values =>
      Sums node values ∧ (¬Mixed whole → ∀ child, step.child node = some child →
        (step.Tame whole → (child.optional = true ↔ step.leavesOut values)) ∧
          DescribesAt path (whole.flatMap step.below) child (values.flatMap step.below))

section Describing

variable {node current incoming : Node} {values others whole : List Json} {path : List Step}
  {step : Step}

theorem DescribesAt.sums (hDescribes : DescribesAt path whole node values) : Sums node values := by
  cases path with
  | nil => exact hDescribes
  | cons step rest => exact hDescribes.1

/-! ### Marks -/

@[simp] theorem kind_asOptional (node : Node) : node.asOptional.kind = node.kind := by
  cases node
  rfl

@[simp] theorem nullable_asOptional (node : Node) : node.asOptional.nullable = node.nullable := by
  cases node
  rfl

@[simp] theorem optional_asOptional (node : Node) : node.asOptional.optional = true := by
  cases node
  rfl

@[simp] theorem child_asOptional (step : Step) (node : Node) :
    step.child node.asOptional = step.child node := by
  cases node
  cases step <;> rfl

@[simp] theorem kind_asNullable (node : Node) : node.asNullable.kind = node.kind := by
  cases node
  rfl

@[simp] theorem nullable_asNullable (node : Node) : node.asNullable.nullable = true := by
  cases node
  rfl

@[simp] theorem optional_asNullable (node : Node) : node.asNullable.optional = node.optional := by
  cases node
  rfl

@[simp] theorem child_asNullable (step : Step) (node : Node) :
    step.child node.asNullable = step.child node := by
  cases node
  cases step <;> rfl

/-- Only the sums depend on the marks of the node itself. -/
theorem describesAt_congr {other : Node} (hSums : Sums other values)
    (hChild : ∀ step : Step, step.child other = step.child node)
    (hDescribes : DescribesAt path whole node values) : DescribesAt path whole other values := by
  cases path with
  | nil => exact hSums
  | cons step rest =>
      refine ⟨hSums, ?_⟩
      rw [hChild]
      exact hDescribes.2

theorem describesAt_asOptional (hDescribes : DescribesAt path whole node values) :
    DescribesAt path whole node.asOptional values := by
  obtain ⟨hKind, hNullable, hChildren⟩ := hDescribes.sums
  exact describesAt_congr ⟨by simpa using hKind, by simpa using hNullable, by simpa using hChildren⟩
    (by simp) hDescribes

/-! ### What a merged node is -/

theorem merge_null_left (hNull : current.kind = .null) :
    current.merge incoming = if incoming.kind = .null then incoming else incoming.asNullable := by
  obtain ⟨kind, element, fields, nullable, optional⟩ := current
  obtain ⟨kind', element', fields', nullable', optional'⟩ := incoming
  change kind = .null at hNull
  unfold Node.merge
  rw [if_pos hNull]
  rfl

theorem merge_null_right (hSolid : current.kind ≠ .null) (hNull : incoming.kind = .null) :
    current.merge incoming = current.asNullable := by
  obtain ⟨kind, element, fields, nullable, optional⟩ := current
  obtain ⟨kind', element', fields', nullable', optional'⟩ := incoming
  change kind ≠ .null at hSolid
  change kind' = .null at hNull
  unfold Node.merge
  rw [if_neg hSolid, if_pos hNull]
  rfl

theorem merge_mixed (hSolid : current.kind ≠ .null) (hSolid' : incoming.kind ≠ .null)
    (hNe : current.kind ≠ incoming.kind) :
    current.merge incoming = .mk .string none (fun _ => none)
      (current.nullable || incoming.nullable) (current.optional || incoming.optional) := by
  obtain ⟨kind, element, fields, nullable, optional⟩ := current
  obtain ⟨kind', element', fields', nullable', optional'⟩ := incoming
  change kind ≠ .null at hSolid
  change kind' ≠ .null at hSolid'
  change kind ≠ kind' at hNe
  unfold Node.merge
  rw [if_neg hSolid, if_neg hSolid', if_pos hNe]
  rfl

/-- The node below both nodes. -/
def Step.joinChild : Step → Option Node → Option Node → Option Node
  | member _ => mergeField
  | item => mergeElement

/-- Two nodes of one kind, each with nothing below it that its kind does not have. -/
theorem merge_same (hSolid : current.kind ≠ .null) (hSame : current.kind = incoming.kind)
    (hShape : ∀ step : Step, current.kind ≠ step.kind →
      step.child current = none ∧ step.child incoming = none) :
    (current.merge incoming).kind = current.kind ∧
      (current.merge incoming).nullable = (current.nullable || incoming.nullable) ∧
      (current.merge incoming).optional = (current.optional || incoming.optional) ∧
      ∀ step : Step, step.child (current.merge incoming) =
        step.joinChild (step.child current) (step.child incoming) := by
  obtain ⟨kind, element, fields, nullable, optional⟩ := current
  obtain ⟨kind', element', fields', nullable', optional'⟩ := incoming
  obtain rfl : kind = kind' := hSame
  change kind ≠ .null at hSolid
  have hMember := fun name => hShape (.member name)
  have hItem := hShape .item
  unfold Node.merge
  rw [if_neg hSolid, if_neg hSolid, if_neg (not_not.mpr rfl)]
  simp only [Step.child, Step.kind, Node.kind, Node.fields, Node.element] at hMember hItem
  cases kind with
  | object =>
      obtain ⟨rfl, rfl⟩ := hItem (by decide)
      refine ⟨rfl, rfl, rfl, fun step => ?_⟩
      cases step <;> rfl
  | array =>
      refine ⟨rfl, rfl, rfl, fun step => ?_⟩
      cases step with
      | member name =>
          obtain ⟨hLeft, hRight⟩ := hMember name (by decide)
          simp [Step.child, Step.joinChild, Node.fields, hLeft, hRight, mergeField]
      | item => rfl
  | null => exact absurd rfl hSolid
  | _ =>
      obtain ⟨rfl, rfl⟩ := hItem (by decide)
      refine ⟨rfl, rfl, rfl, fun step => ?_⟩
      cases step with
      | member name =>
          obtain ⟨hLeft, hRight⟩ := hMember name (by decide)
          simp [Step.child, Step.joinChild, Node.fields, hLeft, hRight, mergeField]
      | item => rfl

/-! ### Merging sums up -/

theorem Sums.shape (hSums : Sums node values) (hKind : node.kind ≠ step.kind) :
    step.child node = none := by
  rw [← Option.not_isSome_iff_eq_none, hSums.child, ← hSums.kind]
  exact fun hChild => hKind hChild.1

theorem Sums.all_null (hSums : Sums node values) (hNull : node.kind = .null) :
    ∀ value ∈ values, kindOf value = .null :=
  kindOver_eq_null.mp (hSums.kind.symm.trans hNull)

theorem exists_null_append :
    (∃ value ∈ values ++ others, kindOf value = .null) ↔
      (∃ value ∈ values, kindOf value = .null) ∨ ∃ value ∈ others, kindOf value = .null := by
  simp only [List.mem_append, or_and_right, exists_or]

theorem exists_null_of_all (hSome : values ≠ [])
    (hNull : ∀ value ∈ values, kindOf value = .null) : ∃ value ∈ values, kindOf value = .null := by
  obtain ⟨value, hValue⟩ := List.exists_mem_of_ne_nil values hSome
  exact ⟨value, hValue, hNull value hValue⟩

/-- The nodes below are told by the values below. -/
theorem flatMap_below_append (step : Step) (values others : List Json) :
    (values ++ others).flatMap step.below =
      values.flatMap step.below ++ others.flatMap step.below :=
  List.flatMap_append

theorem isSome_joinChild (left right : Option Node) :
    (step.joinChild left right).isSome ↔ left.isSome ∨ right.isSome := by
  cases step <;> cases left <;> cases right <;>
    simp [Step.joinChild, mergeField, mergeElement]

theorem sums_merge_null_left (hSome : values ≠ []) (hNull : current.kind = .null)
    (hSums : Sums current values) (hSums' : Sums incoming others) :
    Sums (current.merge incoming) (values ++ others) := by
  have hKinds := kindOver_append values others
  have hAll := hSums.all_null hNull
  rw [kindOver_eq_null.mpr hAll, Kind.null_join] at hKinds
  have hThere := exists_null_append.mpr (.inl (b := ∃ value ∈ others, kindOf value = .null)
    (exists_null_of_all hSome hAll))
  rw [merge_null_left hNull]
  refine ⟨?_, ?_, fun step => ?_⟩
  · rw [hKinds, ← hSums'.kind]
    split <;> simp
  · rw [hKinds, ← hSums'.kind]
    split
    · rename_i hNull'
      rw [hSums'.nullable, ← hSums'.kind]
      simp [hNull']
    · rename_i hSolid
      simp only [nullable_asNullable, true_iff]
      exact ⟨hThere, hSolid⟩
  · rw [hKinds, flatMap_below_append, Step.flatMap_below_eq_nil hAll, List.nil_append,
      ← hSums'.child]
    split <;> simp

theorem sums_merge_null_right (hSome' : others ≠ []) (hSolid : current.kind ≠ .null)
    (hNull : incoming.kind = .null) (hSums : Sums current values) (hSums' : Sums incoming others) :
    Sums (current.merge incoming) (values ++ others) := by
  have hKinds := kindOver_append values others
  have hAll := hSums'.all_null hNull
  rw [kindOver_eq_null.mpr hAll, Kind.join_null] at hKinds
  rw [merge_null_right hSolid hNull]
  refine ⟨?_, ?_, fun step => ?_⟩
  · rw [hKinds, ← hSums.kind, kind_asNullable]
  · rw [hKinds, ← hSums.kind, exists_null_append]
    simp only [nullable_asNullable, true_iff]
    exact ⟨.inr (exists_null_of_all hSome' hAll), hSolid⟩
  · rw [hKinds, flatMap_below_append, Step.flatMap_below_eq_nil hAll, List.append_nil,
      ← hSums.child, child_asNullable]

/-- Two nodes that are no nulls are nullable together where one of them is. -/
theorem nullable_or_iff (hSolid : current.kind ≠ .null) (hSolid' : incoming.kind ≠ .null)
    (hSums : Sums current values) (hSums' : Sums incoming others) :
    (current.nullable || incoming.nullable) = true ↔
      (∃ value ∈ values ++ others, kindOf value = .null) ∧ kindOver (values ++ others) ≠ .null := by
  rw [hSums.kind] at hSolid
  rw [hSums'.kind] at hSolid'
  have hJoined : kindOver (values ++ others) ≠ .null := by
    rw [kindOver_append]
    revert hSolid hSolid'
    cases kindOver values <;> cases kindOver others <;> decide
  rw [Bool.or_eq_true, hSums.nullable, hSums'.nullable, exists_null_append]
  simp only [hSolid, hSolid', hJoined, ne_eq, not_false_eq_true, and_true]

theorem sums_merge_same (hSolid : current.kind ≠ .null) (hSame : current.kind = incoming.kind)
    (hSums : Sums current values) (hSums' : Sums incoming others) :
    Sums (current.merge incoming) (values ++ others) := by
  have hKinds := kindOver_append values others
  obtain ⟨hKind, hNullable, -, hChild⟩ := merge_same hSolid hSame fun step hKind =>
    ⟨hSums.shape hKind, hSums'.shape (hSame ▸ hKind)⟩
  have hOver : kindOver values = kindOver others := by rw [← hSums.kind, hSame, hSums'.kind]
  rw [← hOver, Kind.join_self] at hKinds
  refine ⟨?_, ?_, fun step => ?_⟩
  · rw [hKind, hKinds, hSums.kind]
  · rw [hNullable]
    exact nullable_or_iff hSolid (hSame ▸ hSolid) hSums hSums'
  · rw [hChild, isSome_joinChild, hSums.child, hSums'.child, hKinds, ← hOver,
      flatMap_below_append, ← and_or_left, ne_eq, ne_eq, ne_eq, List.append_eq_nil_iff,
      not_and_or]

/-- Nodes of two kinds leave a text with nothing below it. -/
theorem sums_merge_mixed (hSolid : current.kind ≠ .null) (hSolid' : incoming.kind ≠ .null)
    (hNe : current.kind ≠ incoming.kind) (hSums : Sums current values)
    (hSums' : Sums incoming others) : Sums (current.merge incoming) (values ++ others) := by
  have hString : kindOver (values ++ others) = .string := by
    rw [kindOver_append, ← hSums.kind, ← hSums'.kind]
    unfold Kind.join
    rw [if_neg hSolid, if_neg hSolid', if_neg hNe]
  rw [merge_mixed hSolid hSolid' hNe]
  refine ⟨hString.symm, nullable_or_iff hSolid hSolid' hSums hSums', fun step => ?_⟩
  rw [hString]
  have hNone : step.child (.mk .string none (fun _ => none)
      (current.nullable || incoming.nullable) (current.optional || incoming.optional)) = none := by
    cases step <;> rfl
  rw [hNone]
  simp [(step.kind_ne_string).symm]

theorem sums_merge (hSome : values ≠ []) (hSome' : others ≠ []) (hSums : Sums current values)
    (hSums' : Sums incoming others) : Sums (current.merge incoming) (values ++ others) := by
  by_cases hNull : current.kind = .null
  · exact sums_merge_null_left hSome hNull hSums hSums'
  by_cases hNull' : incoming.kind = .null
  · exact sums_merge_null_right hSome' hNull hNull' hSums hSums'
  by_cases hSame : current.kind = incoming.kind
  · exact sums_merge_same hNull hSame hSums hSums'
  · exact sums_merge_mixed hNull hNull' hSame hSums hSums'

/-- Where a node has nothing below it, its values have not either. -/
theorem Sums.below_eq_nil (hSums : Sums node values) (hKind : kindOver values = step.kind)
    (hNone : step.child node = none) : values.flatMap step.below = [] := by
  by_contra hBelow
  have hIs := (hSums.child step).mpr ⟨hKind, hBelow⟩
  rw [hNone] at hIs
  cases hIs

theorem joinChild_none_right (left : Option Node) :
    step.joinChild left none = step.joinChild none left := by
  cases step <;> cases left <;> rfl

/-- A node that only one side has gets the mark, unless it is an element. -/
theorem marked_of_alone {below child : Node} (hKind : kindOver values = step.kind)
    (hNil : values.flatMap step.below = [])
    (hJoin : step.joinChild none (some below) = some child) :
    child = below ∧ ¬step.leavesOut values ∨ child = below.asOptional ∧ step.leavesOut values := by
  cases step with
  | member name =>
      exact .inr ⟨(Option.some.inj hJoin).symm, Step.leavesOut_of_nil hKind hNil⟩
  | item => exact .inl ⟨(Option.some.inj hJoin).symm, id⟩

/-- Where a node below a merged node comes from: from one side, where it may have got the mark
because the other side leaves it out, or from both. -/
theorem child_merge (hSums : Sums current values) (hSums' : Sums incoming others) {child : Node}
    (hChild : step.child (current.merge incoming) = some child) :
    (values.flatMap step.below = [] ∧ ∃ right, step.child incoming = some right ∧
        (child = right ∧ ¬step.leavesOut values ∨
          child = right.asOptional ∧ step.leavesOut values)) ∨
      (others.flatMap step.below = [] ∧ ∃ left, step.child current = some left ∧
        (child = left ∧ ¬step.leavesOut others ∨
          child = left.asOptional ∧ step.leavesOut others)) ∨
      ∃ left right, step.child current = some left ∧ step.child incoming = some right ∧
        child = left.merge right := by
  by_cases hNull : current.kind = .null
  · have hAll := hSums.all_null hNull
    refine .inl ⟨Step.flatMap_below_eq_nil hAll, child, ?_, .inl ⟨rfl, Step.not_leavesOut hAll⟩⟩
    rw [← hChild, merge_null_left hNull]
    split <;> simp
  · by_cases hNull' : incoming.kind = .null
    · have hAll := hSums'.all_null hNull'
      refine .inr (.inl ⟨Step.flatMap_below_eq_nil hAll, child, ?_,
        .inl ⟨rfl, Step.not_leavesOut hAll⟩⟩)
      rw [← hChild, merge_null_right hNull hNull', child_asNullable]
    · by_cases hSame : current.kind = incoming.kind
      · obtain ⟨-, -, -, hJoin⟩ := merge_same hNull hSame fun step hKind =>
          ⟨hSums.shape hKind, hSums'.shape (hSame ▸ hKind)⟩
        rw [hJoin] at hChild
        -- Two nodes of one kind are merged child by child.
        cases hLeft : step.child current with
        | none =>
            cases hRight : step.child incoming with
            | none =>
                rw [hLeft, hRight] at hChild
                cases step <;> cases hChild
            | some right =>
                have hThere := (hSums'.child step).mp (by rw [hRight]; rfl)
                have hKind : kindOver values = step.kind := by
                  rw [← hSums.kind, hSame, hSums'.kind, hThere.1]
                have hNil := hSums.below_eq_nil hKind hLeft
                rw [hLeft, hRight] at hChild
                exact .inl ⟨hNil, right, rfl, marked_of_alone hKind hNil hChild⟩
        | some left =>
            have hThere := (hSums.child step).mp (by rw [hLeft]; rfl)
            cases hRight : step.child incoming with
            | none =>
                have hKind : kindOver others = step.kind := by
                  rw [← hSums'.kind, ← hSame, hSums.kind, hThere.1]
                have hNil := hSums'.below_eq_nil hKind hRight
                rw [hLeft, hRight, joinChild_none_right] at hChild
                exact .inr (.inl ⟨hNil, left, rfl, marked_of_alone hKind hNil hChild⟩)
            | some right =>
                rw [hLeft, hRight] at hChild
                refine .inr (.inr ⟨left, right, rfl, rfl, ?_⟩)
                cases step <;> exact (Option.some.inj hChild).symm
      · rw [merge_mixed hNull hNull' hSame] at hChild
        cases step <;> cases hChild

/-- The mark of a merged node: a null gives its own up. -/
theorem optional_merge (current incoming : Node) :
    (current.merge incoming).optional =
      if current.kind = .null then incoming.optional
      else if incoming.kind = .null then current.optional
      else current.optional || incoming.optional := by
  by_cases hNull : current.kind = .null
  · rw [merge_null_left hNull, if_pos hNull]
    split <;> simp
  · by_cases hNull' : incoming.kind = .null
    · rw [merge_null_right hNull hNull', if_neg hNull, if_pos hNull', optional_asNullable]
    · rw [if_neg hNull, if_neg hNull']
      by_cases hSame : current.kind = incoming.kind
      · obtain ⟨kind, element, fields, nullable, optional⟩ := current
        obtain ⟨kind', element', fields', nullable', optional'⟩ := incoming
        obtain rfl : kind = kind' := hSame
        change kind ≠ .null at hNull
        unfold Node.merge
        rw [if_neg hNull, if_neg hNull, if_neg (not_not.mpr rfl)]
        cases kind <;> rfl
      · rw [merge_mixed hNull hNull' hSame]
        rfl

/-- Merging sums the values of both sides up. -/
theorem describesAt_merge (path : List Step) {current incoming : Node}
    {values others whole : List Json} (hSome : values ≠ []) (hSome' : others ≠ [])
    (hSub : (values ++ others).Sublist whole) (hLeft : DescribesAt path whole current values)
    (hRight : DescribesAt path whole incoming others) :
    DescribesAt path whole (current.merge incoming) (values ++ others) := by
  induction path generalizing current incoming values others whole with
  | nil => exact sums_merge hSome hSome' hLeft hRight
  | cons step path ih =>
      refine ⟨sums_merge hSome hSome' hLeft.1 hRight.1, fun hMixed child hChild => ?_⟩
      rw [flatMap_below_append, Step.leavesOut_append]
      have hBelow : (values.flatMap step.below ++ others.flatMap step.below).Sublist
          (whole.flatMap step.below) := by
        rw [← flatMap_below_append]
        exact hSub.flatMap step.below
      rcases child_merge hLeft.1 hRight.1 hChild with
        ⟨hNil, right, hChild', hMark⟩ | ⟨hNil, left, hChild', hMark⟩ |
        ⟨left, right, hChildLeft, hChildRight, rfl⟩
      · obtain ⟨hFlag, hDescribes⟩ := hRight.2 hMixed right hChild'
        rw [hNil, List.nil_append]
        rcases hMark with ⟨rfl, hNot⟩ | ⟨rfl, hLeaves⟩
        · exact ⟨fun hTame => by rw [hFlag hTame, or_iff_right hNot], hDescribes⟩
        · exact ⟨fun _ => by simp [hLeaves], describesAt_asOptional hDescribes⟩
      · obtain ⟨hFlag, hDescribes⟩ := hLeft.2 hMixed left hChild'
        rw [hNil, List.append_nil]
        rcases hMark with ⟨rfl, hNot⟩ | ⟨rfl, hLeaves⟩
        · exact ⟨fun hTame => by rw [hFlag hTame, or_iff_left hNot], hDescribes⟩
        · exact ⟨fun _ => by simp [hLeaves], describesAt_asOptional hDescribes⟩
      · obtain ⟨hFlag, hDescribes⟩ := hLeft.2 hMixed left hChildLeft
        obtain ⟨hFlag', hDescribes'⟩ := hRight.2 hMixed right hChildRight
        have hThere := ((hLeft.1.child step).mp (by rw [hChildLeft]; rfl)).2
        have hThere' := ((hRight.1.child step).mp (by rw [hChildRight]; rfl)).2
        refine ⟨fun hTame => ?_, ih hThere hThere' hBelow hDescribes hDescribes'⟩
        -- Two values are there, so a null among them means that nothing is left out.
        have hNull : ∀ node : Node, ∀ some : List Json, Sums node some → some ≠ [] →
            some.Sublist (whole.flatMap step.below) → node.kind = .null →
            ¬step.leavesOut whole := by
          intro node some hSums hSome hIn hKind hLeaves
          obtain ⟨value, hValue, hIs⟩ := exists_null_of_all hSome (hSums.all_null hKind)
          have hLength := hTame hLeaves ⟨value, hIn.subset hValue, hIs⟩
          have hTwo := hBelow.length_le
          have hFirst := List.length_pos_of_ne_nil hThere
          have hSecond := List.length_pos_of_ne_nil hThere'
          rw [List.length_append] at hTwo
          omega
        have hNot : step.leavesOut values ∨ step.leavesOut others → step.leavesOut whole := by
          rw [← Step.leavesOut_append]
          exact Step.leavesOut_mono hSub.subset
        rw [optional_merge]
        split
        · rename_i hKind
          have hOut := hNull left _ hDescribes.sums hThere
            ((List.sublist_append_left _ _).trans hBelow) hKind
          rw [hFlag' hTame]
          exact ⟨.inr, fun hLeaves => absurd (hNot hLeaves) hOut⟩
        · split
          · rename_i hKind
            have hOut := hNull right _ hDescribes'.sums hThere'
              ((List.sublist_append_right _ _).trans hBelow) hKind
            rw [hFlag hTame]
            exact ⟨.inl, fun hLeaves => absurd (hNot hLeaves) hOut⟩
          · rw [Bool.or_eq_true, hFlag hTame, hFlag' hTame]

end Describing

/-! ## Folding -/

/-- The loop over some values. -/
def gather (node : Option Node) (values : List Json) : Option Node :=
  values.foldl (fun node value => mergeElement node (some (inferValue value))) node

theorem inferItems_eq (element : Option Node) (items : List Json) :
    inferItems element items = gather element items := by
  induction items generalizing element with
  | nil => rw [inferItems, gather, List.foldl_nil]
  | cons item rest ih =>
      rw [inferItems, ih]
      rfl

theorem foldl_observe (node : Option Node) (payloads : List Payload) :
    payloads.foldl observe node = gather node (payloads.map .object) := by
  induction payloads generalizing node with
  | nil => rfl
  | cons payload rest ih =>
      rw [List.foldl_cons, ih]
      cases node <;> rfl

section Folding

variable {values whole seen : List Json} {path : List Step} {node : Node} {value : Json}

theorem optional_inferValue (value : Json) : (inferValue value).optional = false := by
  cases value <;> rfl

/-- A loop sums up what it has met. -/
theorem describesAt_gather
    (hInfer : ∀ value, [value].Sublist whole → DescribesAt path whole (inferValue value) [value])
    (hSeen : seen ≠ []) (hSub : (seen ++ values).Sublist whole)
    (hNode : DescribesAt path whole node seen) (hMark : node.optional = false) :
    ∃ final, gather (some node) values = some final ∧
      DescribesAt path whole final (seen ++ values) ∧ final.optional = false := by
  induction values generalizing node seen with
  | nil => exact ⟨node, rfl, by rwa [List.append_nil], hMark⟩
  | cons value rest ih =>
      have hHere : (seen ++ [value]).Sublist whole :=
        (List.Sublist.append_left (List.singleton_sublist.mpr List.mem_cons_self) seen).trans hSub
      have hMerged := describesAt_merge path hSeen (List.cons_ne_nil value []) hHere hNode
        (hInfer value ((List.sublist_append_right seen [value]).trans hHere))
      have hMark' : (node.merge (inferValue value)).optional = false := by
        rw [optional_merge, hMark, optional_inferValue]
        split
        · rfl
        · split <;> rfl
      obtain ⟨final, hFinal, hDescribes, hOptional⟩ := ih (by simp)
        (by rwa [List.append_assoc]) hMerged hMark'
      exact ⟨final, hFinal, by rwa [List.append_assoc] at hDescribes, hOptional⟩

theorem isSome_gather (node : Node) (values : List Json) :
    (gather (some node) values).isSome = true := by
  induction values generalizing node with
  | nil => rfl
  | cons value rest ih => exact ih _

theorem isSome_inferItems (items : List Json) : (inferItems none items).isSome ↔ items ≠ [] := by
  rw [inferItems_eq]
  cases items with
  | nil => simp [gather]
  | cons item rest =>
      exact ⟨fun _ => List.cons_ne_nil item rest, fun _ => isSome_gather (inferValue item) rest⟩

theorem sums_inferValue (value : Json) : Sums (inferValue value) [value] := by
  refine ⟨?_, ?_, fun step => ?_⟩
  · rw [kindOver_singleton, kind_inferValue]
  · rw [kindOver_singleton]
    have hNullable : (inferValue value).nullable = false := by cases value <;> rfl
    simp [hNullable]
  · rw [kindOver_singleton, List.flatMap_singleton]
    cases step with
    | member name =>
        cases value with
        | object members =>
            have hChild : (Step.member name).child (inferValue (.object members)) =
                (Json.lookup members name).map inferValue := inferMembers_eq members name
            rw [hChild]
            simp [kindOf, Step.kind, Step.below, Json.member, Option.isSome_iff_ne_none]
        | _ => simp [inferValue, Step.child, Node.leaf, Node.array, Node.fields, kindOf, Step.kind]
    | item =>
        cases value with
        | array items =>
            have hChild : Step.item.child (inferValue (.array items)) = inferItems none items := rfl
            rw [hChild, isSome_inferItems]
            simp [kindOf, Step.kind, Step.below]
        | _ =>
            simp [inferValue, Step.child, Node.leaf, Node.object, Node.element, kindOf, Step.kind]

/-- The node of a value sums it up. -/
theorem describesAt_inferValue (path : List Step) {value : Json} {whole : List Json}
    (hSub : [value].Sublist whole) : DescribesAt path whole (inferValue value) [value] := by
  induction path generalizing value whole with
  | nil => exact sums_inferValue value
  | cons step path ih =>
      refine ⟨sums_inferValue value, fun _ child hChild => ?_⟩
      have hBelow := hSub.flatMap step.below
      rw [List.flatMap_singleton] at hBelow
      cases step with
      | member name =>
          cases value with
          | object members =>
              have hMembers : (Json.lookup members name).map inferValue = some child := by
                rw [← inferMembers_eq]
                exact hChild
              obtain ⟨inner, hInner, rfl⟩ := Option.map_eq_some_iff.mp hMembers
              have hMember : (Json.object members).member name = some inner := hInner
              have hList : (Step.member name).below (.object members) = [inner] := by
                rw [Step.below, hMember]
                rfl
              rw [hList] at hBelow
              rw [List.flatMap_singleton, hList]
              refine ⟨fun _ => ?_, ih hBelow⟩
              rw [optional_inferValue]
              simp [Step.leavesOut, hMember]
          | _ => cases hChild
      | item =>
          cases value with
          | array items =>
              have hItems : inferItems none items = some child := hChild
              rw [inferItems_eq] at hItems
              have hList : Step.item.below (.array items) = items := rfl
              rw [hList] at hBelow
              rw [List.flatMap_singleton, hList]
              cases items with
              | nil => cases hItems
              -- The elements of an array are folded from the first one on.
              | cons item rest =>
                  have hFirst : [item].Sublist ((whole.flatMap Step.item.below)) :=
                    (List.singleton_sublist.mpr List.mem_cons_self).trans hBelow
                  obtain ⟨final, hFinal, hDescribes, hMark⟩ := describesAt_gather
                    (fun value hValue => ih hValue) (List.cons_ne_nil item []) hBelow (ih hFirst)
                    (optional_inferValue item)
                  obtain rfl : final = child := Option.some.inj (hFinal.symm.trans hItems)
                  exact ⟨fun _ => by simp [hMark, Step.leavesOut], hDescribes⟩
          | _ => cases hChild

/-- The schema of some records sums them up. -/
theorem describesAt_inferRecords (path : List Step) {records : List Payload}
    (hSome : records ≠ []) (hSub : (records.map Json.object).Sublist whole) :
    DescribesAt path whole (inferRecords records) (records.map .object) ∧
      (inferRecords records).optional = false := by
  cases records with
  | nil => exact absurd rfl hSome
  | cons first rest =>
      have hFirst : [Json.object first].Sublist whole :=
        (List.singleton_sublist.mpr List.mem_cons_self).trans hSub
      obtain ⟨final, hFinal, hDescribes, hMark⟩ := describesAt_gather
        (fun value hValue => describesAt_inferValue path hValue)
        (List.cons_ne_nil (Json.object first) []) hSub
        (describesAt_inferValue path hFirst) (optional_inferValue _)
      have hSchema : inferRecords (first :: rest) = final := by
        rw [inferRecords, foldl_observe]
        exact congrArg (fun node => node.getD (.object fun _ => none)) hFinal
      rw [hSchema]
      exact ⟨hDescribes, hMark⟩

end Folding

end Collections
end OctoForge
