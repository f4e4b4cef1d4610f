import OctoForge.Collections.Rows
import OctoForge.Fallible

/-!
# Queries

The query language of the collections, and what a query is refused for: its fields are looked up
in the derived schema of their side before anything is compiled.
-/

namespace OctoForge
namespace Collections

open Fallible

inductive QueryOp where
  | get
  | pluck
  | count
  | sum
  | avg
  | min
  | max
  | distinct
  deriving DecidableEq, Repr

namespace QueryOp

/-- `AGGREGATE_OPS`. -/
def aggregates : QueryOp → Bool
  | count | sum | avg | min | max => true
  | _ => false

/-- `FIELD_OPS`. -/
def needsField : QueryOp → Bool
  | pluck | sum | avg | min | max | distinct => true
  | _ => false

/-- `NUMERIC_OPS`. -/
def needsNumber : QueryOp → Bool
  | sum | avg => true
  | _ => false

/-- `JOIN_OPS`. -/
def joins : QueryOp → Bool
  | get | count => true
  | _ => false

end QueryOp

inductive FilterOp where
  | eq
  | ne
  | gt
  | lt
  | gte
  | lte
  | contains
  deriving DecidableEq, Repr

/-- The value of a predicate. -/
inductive FilterValue where
  | string (value : Text)
  | int (value : Int)
  /-- A `float`, as Python writes it. -/
  | float (digits : Text)
  | bool (value : Bool)
  | null
  deriving DecidableEq, Repr

structure FilterPredicate where
  field : Text
  op : FilterOp
  value : FilterValue
  deriving DecidableEq, Repr

structure JoinSpec where
  ref : Text
  onLeft : Text
  onRight : Text
  source : Option Text := none
  deriving DecidableEq, Repr

structure Query where
  op : QueryOp
  field : Option Text := none
  filters : List FilterPredicate := []
  groupBy : Option Text := none
  source : Option Text := none
  join : Option JoinSpec := none
  limit : Int := 50
  offset : Int := 0
  deriving DecidableEq, Repr

inductive QueryError where
  | notFound (id : Text)
  /-- A field of the list is missing from the query. -/
  | needsField (op : QueryOp)
  | noField (field : Text)
  | notNumeric (op : QueryOp) (field : Text) (kind : Kind)
  | groupBy
  | join
  | comparesNull (op : FilterOp)
  /-- An error that is not one of the collections'. -/
  | crashed

/-- A path, split at its dots. -/
def dotted (path : Text) : List String := (path.splitOn '.').map String.ofList

/-- `_require_field`. -/
def requireField (schema : Node) (path : Text) (numericFor : Option QueryOp) :
    Except QueryError Unit :=
  match fieldNode schema (dotted path) with
  | none => .error (.noField path)
  | some node =>
      match numericFor with
      | some op =>
          if op.needsNumber ∧ node.kind ≠ .number then .error (.notNumeric op path node.kind)
          else .ok ()
      | none => .ok ()

/-- The check of the field of the operation. -/
def checkField (query : Query) (schema : Node) : Except QueryError Unit :=
  if query.op.needsField then
    match query.field with
    | none => .error (.needsField query.op)
    | some field => requireField schema field (some query.op)
  else .ok ()

def checkGroupBy (query : Query) (schema : Node) : Except QueryError Unit :=
  match query.groupBy with
  | none => .ok ()
  | some field =>
      if query.op.aggregates then requireField schema field none else .error .groupBy

/-- The check of a join; the schema of the right side is there when the query has one. -/
def checkJoin (query : Query) (schema : Node) (rightSchema : Option Node) :
    Except QueryError Unit :=
  match query.join with
  | none => .ok ()
  | some join =>
      if query.op.joins then
        match rightSchema with
        | none => .error .crashed
        | some rightSchema => do
            requireField schema join.onLeft none
            requireField rightSchema join.onRight none
      else .error .join

def checkFilters (schema : Node) : List FilterPredicate → Except QueryError Unit
  | [] => .ok ()
  | predicate :: rest => do
      requireField schema predicate.field none
      checkFilters schema rest

/-- `_validate`: the query with its page size clamped. -/
def validate (query : Query) (schema : Node) (rightSchema : Option Node) (maxLimit : Nat) :
    Except QueryError Query := do
  checkField query schema
  checkGroupBy query schema
  checkJoin query schema rightSchema
  checkFilters schema query.filters
  return { query with
    limit := Min.min (Max.max query.limit 1) (maxLimit : Int)
    offset := Max.max query.offset 0 }

/-! ## What is accepted -/

/-- What `_validate` has made sure of, the schemas apart. -/
structure Accepted (plan : Query) : Prop where
  field : plan.op.needsField = true → ∃ field, plan.field = some field
  groupBy : plan.groupBy ≠ none → plan.op.aggregates = true
  join : plan.join ≠ none → plan.op.joins = true
  limit : 0 ≤ plan.limit
  offset : 0 ≤ plan.offset

section Accepting

variable {query plan : Query} {schema : Node} {right : Option Node} {maxLimit : Nat}

theorem exists_field_of_checkField (hCheck : checkField query schema = .ok ())
    (hNeeds : query.op.needsField = true) : ∃ field, query.field = some field := by
  rw [checkField, if_pos hNeeds] at hCheck
  cases hField : query.field with
  | some field => exact ⟨field, rfl⟩
  | none =>
      rw [hField] at hCheck
      cases hCheck

theorem aggregates_of_checkGroupBy (hCheck : checkGroupBy query schema = .ok ())
    (hGroup : query.groupBy ≠ none) : query.op.aggregates = true := by
  unfold checkGroupBy at hCheck
  split at hCheck
  · contradiction
  · by_contra hNot
    rw [if_neg hNot] at hCheck
    cases hCheck

theorem joins_of_checkJoin (hCheck : checkJoin query schema right = .ok ())
    (hJoin : query.join ≠ none) : query.op.joins = true := by
  unfold checkJoin at hCheck
  split at hCheck
  · contradiction
  · by_contra hNot
    rw [if_neg hNot] at hCheck
    cases hCheck

theorem accepted_of_validate (hPlan : validate query schema right maxLimit = .ok plan) :
    Accepted plan := by
  obtain ⟨⟨⟩, hField, hPlan⟩ := bind_eq_ok.mp hPlan
  obtain ⟨⟨⟩, hGroupBy, hPlan⟩ := bind_eq_ok.mp hPlan
  obtain ⟨⟨⟩, hJoin, hPlan⟩ := bind_eq_ok.mp hPlan
  obtain ⟨_, -, hPlan⟩ := bind_eq_ok.mp hPlan
  obtain rfl := Except.ok.inj hPlan
  refine ⟨exists_field_of_checkField hField, aggregates_of_checkGroupBy hGroupBy,
    joins_of_checkJoin hJoin, ?_, ?_⟩
  · show 0 ≤ Min.min (Max.max query.limit 1) (maxLimit : Int)
    omega
  · show 0 ≤ Max.max query.offset 0
    omega

end Accepting

end Collections
end OctoForge
