import Mathlib.Algebra.Order.Ring.Rat
import Mathlib.Data.Char
import Mathlib.Data.List.Lex
import Mathlib.Data.Prod.Lex
import OctoForge.Collections.Query
import OctoForge.Like
import OctoForge.Sql.Groups
import OctoForge.Sql.Paging

/-!
# The statements of a query

A query is compiled to a statement over `collection_records`, and to another one that counts.  No
text of the caller gets into a statement: paths and values are bound, and what is left is chosen
from fixed vocabularies, so a statement is a value of a small type.
-/

namespace OctoForge
namespace Collections

open Fallible

/-! ## Statements -/

/-- The record an expression is about: without a join there is the left one only. -/
inductive Side where
  | left
  | right
  deriving DecidableEq, Repr

/-- `payload #>> path`. -/
structure TextExpr where
  side : Side
  path : List String
  deriving DecidableEq, Repr

/-- `COMPARISONS`. -/
inductive Comparison where
  | eq
  | ne
  | gt
  | lt
  | gte
  | lte
  deriving DecidableEq, Repr

/-- A condition of a `WHERE` or an `ON`. -/
inductive Condition where
  | collection (side : Side) (id : Text)
  | source (side : Side) (source : Text)
  | isNull (expr : TextExpr)
  | isNotNull (expr : TextExpr)
  | ilike (expr : TextExpr) (pattern : Text)
  /-- `(expr)::numeric op value`. -/
  | number (op : Comparison) (expr : TextExpr) (value : FilterValue)
  | text (op : Comparison) (expr : TextExpr) (value : Text)
  | equal (left right : TextExpr)
  deriving DecidableEq, Repr

inductive Aggregate where
  /-- `count(*)`. -/
  | countAll
  /-- One of `AGGREGATES` over a text, or over its `::numeric` cast. -/
  | over (op : QueryOp) (expr : TextExpr) (cast : Bool)
  deriving DecidableEq, Repr

/-- What a statement selects. -/
inductive Output where
  | payload
  /-- `payload #> path`. -/
  | member (path : List String)
  | distinct (path : List String)
  /-- `payload #>> path AS grp`, with `GROUP BY 1`. -/
  | grouped (group : TextExpr) (aggregate : Aggregate)
  | aggregate (aggregate : Aggregate)
  /-- `a.payload, b.payload`. -/
  | pair
  /-- `count(DISTINCT payload #> path)`. -/
  | countMembers (path : List String)
  /-- `count(DISTINCT payload #>> path)`. -/
  | countTexts (expr : TextExpr)
  deriving DecidableEq, Repr

/-- The `ORDER BY` of a statement. -/
inductive SortBy where
  | nothing
  /-- `position`, or `a.position, b.position`. -/
  | position
  /-- `1`. -/
  | first
  /-- `2 DESC NULLS LAST`. -/
  | secondDesc
  deriving DecidableEq, Repr

structure Statement where
  /-- The conditions of the `JOIN`. -/
  join : Option (List Condition) := none
  conditions : List Condition
  output : Output
  order : SortBy := .nothing
  /-- `LIMIT` and `OFFSET`. -/
  page : Option (Nat × Nat) := none
  deriving DecidableEq, Repr

/-! ## Compiling -/

def FilterOp.comparison : FilterOp → Option Comparison
  | .eq => some .eq
  | .ne => some .ne
  | .gt => some .gt
  | .lt => some .lt
  | .gte => some .gte
  | .lte => some .lte
  | .contains => none

namespace FilterValue

/-- `str`. -/
def str : FilterValue → Text
  | string value => value
  | int value => Text.ofInt value
  | float digits => digits
  | bool true => "True".toList
  | bool false => "False".toList
  | null => "None".toList

/-- The value that a text is compared with. -/
def rendered : FilterValue → Text
  | bool true => "true".toList
  | bool false => "false".toList
  | value => value.str

def isNumber : FilterValue → Bool
  | int _ | float _ => true
  | _ => false

end FilterValue

/-- `_is_numeric`. -/
def isNumeric (schema : Node) (path : Text) : Bool :=
  (fieldNode schema (dotted path)).any fun node => node.kind = .number

/-- `payload #>> path` of the left side. -/
def fieldText (path : Text) : TextExpr := { side := .left, path := dotted path }

/-- `_predicate_sql`. -/
def predicateSql (schema : Node) (predicate : FilterPredicate) : Except QueryError Condition :=
  let column := fieldText predicate.field
  if predicate.value = .null then
    match predicate.op with
    | .eq => .ok (.isNull column)
    | .ne => .ok (.isNotNull column)
    | op => .error (.comparesNull op)
  else
    match predicate.op.comparison with
    | none => .ok (.ilike column (['%'] ++ predicate.value.str ++ ['%']))
    | some op =>
        if isNumeric schema predicate.field && predicate.value.isNumber then
          .ok (.number op column predicate.value)
        else .ok (.text op column predicate.value.rendered)

def predicatesSql (schema : Node) : List FilterPredicate → Except QueryError (List Condition)
  | [] => .ok []
  | predicate :: rest => do
      let condition ← predicateSql schema predicate
      let others ← predicatesSql schema rest
      return condition :: others

/-- `_where`. -/
def whereSql (plan : Query) (schema : Node) (collectionId : Text) :
    Except QueryError (List Condition) := do
  let filters ← predicatesSql schema plan.filters
  return [.collection .left collectionId] ++ (plan.source.map (.source .left)).toList ++ filters

/-- `_join_clause`. -/
def joinClause (join : JoinSpec) : List Condition :=
  [.collection .right join.ref,
    .equal { side := .right, path := dotted join.onRight } (fieldText join.onLeft)] ++
    (join.source.map (.source .right)).toList

/-- `_aggregate_sql`. -/
def aggregateSql (plan : Query) (schema : Node) : Except QueryError Aggregate :=
  if plan.op = .count then .ok .countAll
  else
    match plan.field with
    | none => .error .crashed
    | some field => .ok (.over plan.op (fieldText field) (isNumeric schema field))

/-- `_page`. -/
def Query.page (plan : Query) : Nat × Nat := (plan.limit.toNat, plan.offset.toNat)

/-- `_compile_join`. -/
def compileJoin (plan : Query) (join : JoinSpec) (schema : Node) (collectionId : Text) :
    Except QueryError Statement := do
  let conditions ← whereSql plan schema collectionId
  if plan.op = .count then
    return { join := some (joinClause join), conditions, output := .aggregate .countAll }
  else
    return {
      join := some (joinClause join), conditions, output := .pair, order := .position
      page := some plan.page }

/-- The field of an operation that `_validate` has required. -/
def theField (plan : Query) : Except QueryError Text :=
  match plan.field with
  | none => .error .crashed
  | some field => .ok field

/-- `_compile`. -/
def compile (plan : Query) (schema : Node) (collectionId : Text) : Except QueryError Statement :=
  match plan.join with
  | some join => compileJoin plan join schema collectionId
  | none => do
      let conditions ← whereSql plan schema collectionId
      match plan.op with
      | .get =>
          return { conditions, output := .payload, order := .position, page := some plan.page }
      | .pluck =>
          let field ← theField plan
          return {
            conditions, output := .member (dotted field), order := .position
            page := some plan.page }
      | .distinct =>
          let field ← theField plan
          return {
            conditions, output := .distinct (dotted field), order := .first
            page := some plan.page }
      | _ =>
          let aggregate ← aggregateSql plan schema
          match plan.groupBy with
          | some group =>
              return {
                conditions, output := .grouped (fieldText group) aggregate, order := .secondDesc
                page := some plan.page }
          | none => return { conditions, output := .aggregate aggregate }

/-- `_compile_count`. -/
def compileCount (plan : Query) (schema : Node) (collectionId : Text) :
    Except QueryError Statement := do
  let conditions ← whereSql plan schema collectionId
  match plan.join with
  | some join =>
      return { join := some (joinClause join), conditions, output := .aggregate .countAll }
  | none =>
      if plan.op = .distinct then
        let field ← theField plan
        return { conditions, output := .countMembers (dotted field) }
      else
        match plan.groupBy with
        | some group => return { conditions, output := .countTexts (fieldText group) }
        | none => return { conditions, output := .aggregate .countAll }

/-! ### What is compiled -/

/-- The statements of `_compile`, by what they return. -/
inductive Compiled (plan : Query) (schema : Node) (conditions : List Condition) : Statement → Prop
  | records (hJoin : plan.join = none) (hOp : plan.op = .get) :
      Compiled plan schema conditions
        { conditions, output := .payload, order := .position, page := some plan.page }
  | members {field : Text} (hJoin : plan.join = none) (hOp : plan.op = .pluck)
      (hField : plan.field = some field) :
      Compiled plan schema conditions
        { conditions, output := .member (dotted field), order := .position
          page := some plan.page }
  | values {field : Text} (hJoin : plan.join = none) (hOp : plan.op = .distinct)
      (hField : plan.field = some field) :
      Compiled plan schema conditions
        { conditions, output := .distinct (dotted field), order := .first, page := some plan.page }
  | groups {group : Text} {inner : Aggregate} (hJoin : plan.join = none)
      (hOp : plan.op.aggregates = true) (hInner : aggregateSql plan schema = .ok inner)
      (hGroup : plan.groupBy = some group) :
      Compiled plan schema conditions
        { conditions, output := .grouped (fieldText group) inner, order := .secondDesc
          page := some plan.page }
  | value {inner : Aggregate} (hJoin : plan.join = none) (hOp : plan.op.aggregates = true)
      (hInner : aggregateSql plan schema = .ok inner) (hGroup : plan.groupBy = none) :
      Compiled plan schema conditions { conditions, output := .aggregate inner }
  | pairs {join : JoinSpec} (hJoin : plan.join = some join) (hOp : plan.op ≠ .count) :
      Compiled plan schema conditions
        { join := some (joinClause join), conditions, output := .pair, order := .position
          page := some plan.page }
  | pairCount {join : JoinSpec} (hJoin : plan.join = some join) (hOp : plan.op = .count) :
      Compiled plan schema conditions
        { join := some (joinClause join), conditions, output := .aggregate .countAll }

/-- The statements of `_compile_count`, by what they count. -/
inductive Counter (plan : Query) (conditions : List Condition) : Statement → Prop
  | pairs {join : JoinSpec} (hJoin : plan.join = some join) :
      Counter plan conditions
        { join := some (joinClause join), conditions, output := .aggregate .countAll }
  | values {field : Text} (hJoin : plan.join = none) (hOp : plan.op = .distinct)
      (hField : plan.field = some field) :
      Counter plan conditions { conditions, output := .countMembers (dotted field) }
  | groups {group : Text} (hJoin : plan.join = none) (hOp : plan.op ≠ .distinct)
      (hGroup : plan.groupBy = some group) :
      Counter plan conditions { conditions, output := .countTexts (fieldText group) }
  | rows (hJoin : plan.join = none) (hOp : plan.op ≠ .distinct) (hGroup : plan.groupBy = none) :
      Counter plan conditions { conditions, output := .aggregate .countAll }

section Compiling

variable {plan : Query} {schema : Node} {collectionId : Text} {statement : Statement}
  {conditions : List Condition}

/-- The conditions of `_predicate_sql`, by what the predicate is. -/
theorem predicateSql_cases {predicate : FilterPredicate} {condition : Condition}
    (hCompiled : predicateSql schema predicate = .ok condition) :
    (predicate.value = .null ∧ predicate.op = .eq ∧
      condition = .isNull (fieldText predicate.field)) ∨
    (predicate.value = .null ∧ predicate.op = .ne ∧
      condition = .isNotNull (fieldText predicate.field)) ∨
    (predicate.value ≠ .null ∧ predicate.op.comparison = none ∧
      condition = .ilike (fieldText predicate.field)
        (['%'] ++ predicate.value.str ++ ['%'])) ∨
    (∃ op, predicate.value ≠ .null ∧ predicate.op.comparison = some op ∧
      isNumeric schema predicate.field = true ∧ predicate.value.isNumber = true ∧
      condition = .number op (fieldText predicate.field) predicate.value) ∨
    ∃ op, predicate.value ≠ .null ∧ predicate.op.comparison = some op ∧
      (isNumeric schema predicate.field = false ∨ predicate.value.isNumber = false) ∧
      condition = .text op (fieldText predicate.field) predicate.value.rendered := by
  unfold predicateSql at hCompiled
  simp only at hCompiled
  split at hCompiled
  · rename_i hNull
    split at hCompiled
    · rename_i hOp
      obtain rfl := Except.ok.inj hCompiled
      exact .inl ⟨hNull, hOp, rfl⟩
    · rename_i hOp
      obtain rfl := Except.ok.inj hCompiled
      exact .inr (.inl ⟨hNull, hOp, rfl⟩)
    · cases hCompiled
  · rename_i hNull
    split at hCompiled
    -- `contains` is the one operator that compares nothing.
    · rename_i hOp
      obtain rfl := Except.ok.inj hCompiled
      exact .inr (.inr (.inl ⟨hNull, hOp, rfl⟩))
    · rename_i op hOp
      split at hCompiled
      · rename_i hNumeric
        obtain ⟨hSchema, hNumber⟩ := Bool.and_eq_true_iff.mp hNumeric
        obtain rfl := Except.ok.inj hCompiled
        exact .inr (.inr (.inr (.inl ⟨op, hNull, hOp, hSchema, hNumber, rfl⟩)))
      · rename_i hNumeric
        obtain rfl := Except.ok.inj hCompiled
        refine .inr (.inr (.inr (.inr ⟨op, hNull, hOp, ?_, rfl⟩)))
        exact Bool.and_eq_false_iff.mp (Bool.eq_false_iff.mpr hNumeric)

theorem theField_eq_ok {field : Text} (hField : theField plan = .ok field) :
    plan.field = some field := by
  unfold theField at hField
  split at hField
  · cases hField
  · rename_i found hFound
    obtain rfl := Except.ok.inj hField
    exact hFound

theorem compiled_of_compileJoin {join : JoinSpec} (hJoin : plan.join = some join)
    (hCompiled : compileJoin plan join schema collectionId = .ok statement) :
    ∃ conditions, whereSql plan schema collectionId = .ok conditions ∧
      Compiled plan schema conditions statement := by
  obtain ⟨conditions, hWhere, hCompiled⟩ := bind_eq_ok.mp hCompiled
  refine ⟨conditions, hWhere, ?_⟩
  split at hCompiled
  · rename_i hOp
    obtain rfl := Except.ok.inj hCompiled
    exact .pairCount hJoin hOp
  · rename_i hOp
    obtain rfl := Except.ok.inj hCompiled
    exact .pairs hJoin hOp

theorem compiled_of_aggregates (hJoin : plan.join = none) (hOp : plan.op.aggregates = true)
    (hCompiled : (do
      let inner ← aggregateSql plan schema
      match plan.groupBy with
      | some group =>
          return ({
            conditions, output := .grouped (fieldText group) inner, order := .secondDesc
            page := some plan.page } : Statement)
      | none => return { conditions, output := .aggregate inner }) = .ok statement) :
    Compiled plan schema conditions statement := by
  obtain ⟨inner, hInner, hCompiled⟩ := bind_eq_ok.mp hCompiled
  split at hCompiled
  · rename_i group hGroup
    obtain rfl := Except.ok.inj hCompiled
    exact .groups hJoin hOp hInner hGroup
  · rename_i hGroup
    obtain rfl := Except.ok.inj hCompiled
    exact .value hJoin hOp hInner hGroup

theorem compiled_of_compile (hCompiled : compile plan schema collectionId = .ok statement) :
    ∃ conditions, whereSql plan schema collectionId = .ok conditions ∧
      Compiled plan schema conditions statement := by
  unfold compile at hCompiled
  split at hCompiled
  · rename_i join hJoin
    exact compiled_of_compileJoin hJoin hCompiled
  · rename_i hJoin
    obtain ⟨conditions, hWhere, hCompiled⟩ := bind_eq_ok.mp hCompiled
    refine ⟨conditions, hWhere, ?_⟩
    cases hOp : plan.op with
    | get =>
        rw [hOp] at hCompiled
        obtain rfl := Except.ok.inj hCompiled
        exact .records hJoin hOp
    | pluck =>
        rw [hOp] at hCompiled
        obtain ⟨field, hField, hCompiled⟩ := bind_eq_ok.mp hCompiled
        obtain rfl := Except.ok.inj hCompiled
        exact .members hJoin hOp (theField_eq_ok hField)
    | distinct =>
        rw [hOp] at hCompiled
        obtain ⟨field, hField, hCompiled⟩ := bind_eq_ok.mp hCompiled
        obtain rfl := Except.ok.inj hCompiled
        exact .values hJoin hOp (theField_eq_ok hField)
    | count | sum | avg | min | max =>
        rw [hOp] at hCompiled
        exact compiled_of_aggregates hJoin (by rw [hOp]; rfl) hCompiled

theorem counter_of_compileCount
    (hCompiled : compileCount plan schema collectionId = .ok statement) :
    ∃ conditions, whereSql plan schema collectionId = .ok conditions ∧
      Counter plan conditions statement := by
  obtain ⟨conditions, hWhere, hCompiled⟩ := bind_eq_ok.mp hCompiled
  refine ⟨conditions, hWhere, ?_⟩
  split at hCompiled
  · rename_i join hJoin
    obtain rfl := Except.ok.inj hCompiled
    exact .pairs hJoin
  · rename_i hJoin
    split at hCompiled
    · rename_i hOp
      obtain ⟨field, hField, hCompiled⟩ := bind_eq_ok.mp hCompiled
      obtain rfl := Except.ok.inj hCompiled
      exact .values hJoin hOp (theField_eq_ok hField)
    · rename_i hOp
      split at hCompiled
      · rename_i group hGroup
        obtain rfl := Except.ok.inj hCompiled
        exact .groups hJoin hOp hGroup
      · rename_i hGroup
        obtain rfl := Except.ok.inj hCompiled
        exact .rows hJoin hOp hGroup

end Compiling

/-! ## Records and cells -/

/-- A row of `collection_records`. -/
structure RecordRow where
  collectionId : Text
  source : Text
  position : Nat
  payload : Payload

/-- The records of a collection, at the positions they have come in. -/
def Row.recordRows (row : Row) : List RecordRow :=
  row.records.zipIdx.map fun ((source, payload), position) =>
    { collectionId := row.id, source, position, payload }

/-- The table `collection_records`. -/
def recordRows (rows : List Row) : List RecordRow := rows.flatMap Row.recordRows

/-- A cell that is not NULL.  A jsonb value is told by what the equality of jsonb tells. -/
inductive Cell where
  | jsonb (key : Text)
  | text (value : Text)
  | int (value : Nat)
  | numeric (value : Rat)
  deriving DecidableEq, Repr

/-- The type of a cell, and its value as a text or as a number. -/
def Cell.key : Cell → Nat ×ₗ Text ×ₗ Rat
  | .jsonb key => toLex (0, toLex (key, 0))
  | .text value => toLex (1, toLex (value, 0))
  | .int value => toLex (2, toLex ([], value))
  | .numeric value => toLex (3, toLex ([], value))

/-- A row of a result before it is sorted, with the positions of its records. -/
structure Found where
  positions : List Nat := []
  cells : List (Option Cell)
  deriving DecidableEq, Repr

/-- What evaluating takes from Postgres. -/
structure Database where
  /-- Two jsonb values are equal where this is the same. -/
  jsonb : Json → Text
  /-- The text of a jsonb value that is neither null nor a string. -/
  jsonbText : Json → Text
  /-- `::numeric`. -/
  numeric : Text → Option Rat
  /-- `ILIKE` compares characters through it. -/
  lower : Char → Char
  /-- The collation. -/
  textLt : Text → Text → Bool
  /-- An aggregate over texts, or over their casts. -/
  aggregate : QueryOp → (cast : Bool) → List (Option Text) → Option Cell
  /-- The order of the cells of one type. -/
  cellLt : Cell → Cell → Bool

namespace Database

/-- An integer, as `::numeric` reads it. -/
def readInt (t : Text) : Option Rat := (String.ofList t).toInt?.map fun value => (value : Rat)

/-- One of `AGGREGATES` over integers, or over texts by code point. -/
def fold (op : QueryOp) (cast : Bool) (values : List (Option Text)) : Option Cell :=
  let texts := values.filterMap id
  if cast then
    match texts.filterMap readInt, op with
    | [], _ => none
    | numbers, .sum => some (.numeric numbers.sum)
    | numbers, .avg => some (.numeric (numbers.sum / numbers.length))
    | first :: rest, .min => some (.numeric (rest.foldl Min.min first))
    | first :: rest, .max => some (.numeric (rest.foldl Max.max first))
    | _, _ => none
  else
    match texts, op with
    | first :: rest, .min => some (.text (rest.foldl (fun s t => if t < s then t else s) first))
    | first :: rest, .max => some (.text (rest.foldl (fun s t => if s < t then t else s) first))
    | _, _ => none

/-- A database that knows integers, and compares texts by code point. -/
def plain : Database where
  jsonb := Json.dumps
  jsonbText := Json.dumps
  numeric := readInt
  lower := Char.toLower
  textLt s t := decide (s < t)
  aggregate := fold
  cellLt x y := decide (x.key < y.key)

end Database

/-- What an expression is evaluated over. -/
structure Env where
  left : RecordRow
  right : RecordRow

def Env.record (env : Env) : Side → RecordRow
  | .left => env.left
  | .right => env.right

namespace Database

variable (db : Database)

/-- The text form of a value, NULL for null. -/
def textOf : Json → Option Text
  | .null => none
  | .string value => some value.toList
  | value => some (db.jsonbText value)

/-- `payload #>> path`, following the members of objects. -/
def textAt (payload : Payload) (path : List String) : Option Text :=
  ((Json.object payload).at? path).bind db.textOf

def text (env : Env) (expr : TextExpr) : Option Text :=
  db.textAt (env.record expr.side).payload expr.path

/-- `payload #> path`. -/
def memberAt (payload : Payload) (path : List String) : Option Text :=
  ((Json.object payload).at? path).map db.jsonb

/-- A number that is bound. -/
def number : FilterValue → Option Rat
  | .int value => some value
  | .float digits => db.numeric digits
  | _ => none

end Database

/-- A comparison, with what equality and order say. -/
def Comparison.holds (eq lt gt : Bool) : Comparison → Bool
  | .eq => eq
  | .ne => !eq
  | .gt => gt
  | .lt => lt
  | .gte => !lt
  | .lte => !gt

/-- The condition is true, rather than false or NULL. -/
def Condition.holds (db : Database) (env : Env) : Condition → Bool
  | .collection side id => (env.record side).collectionId == id
  | .source side tag => (env.record side).source == tag
  | .isNull expr => (db.text env expr).isNone
  | .isNotNull expr => (db.text env expr).isSome
  | .ilike expr pattern => (db.text env expr).any fun t => Like.like db.lower '\\' pattern t
  | .number op expr value =>
      match (db.text env expr).bind db.numeric, db.number value with
      | some x, some y => op.holds (x == y) (decide (x < y)) (decide (y < x))
      | _, _ => false
  | .text op expr value =>
      (db.text env expr).any fun t => op.holds (t == value) (db.textLt t value) (db.textLt value t)
  | .equal left right =>
      match db.text env left, db.text env right with
      | some s, some t => s == t
      | _, _ => false

/-! ## Evaluating -/

/-- The rows of the `FROM` that the conditions keep. -/
def Statement.matching (statement : Statement) (db : Database) (records : List RecordRow) :
    List Env :=
  match statement.join with
  | none =>
      (records.map fun record => { left := record, right := record : Env }).filter fun env =>
        statement.conditions.all (Condition.holds db env)
  | some on =>
      (records.flatMap fun left => records.map fun right => { left, right : Env }).filter fun env =>
        (on ++ statement.conditions).all (Condition.holds db env)

def Aggregate.value (db : Database) (envs : List Env) : Aggregate → Option Cell
  | .countAll => some (.int envs.length)
  | .over op expr cast => db.aggregate op cast (envs.map fun env => db.text env expr)

/-- The rows of the result, in no order and without paging. -/
def Statement.found (statement : Statement) (db : Database) (records : List RecordRow) :
    List Found :=
  let envs := statement.matching db records
  match statement.output with
  | .payload => envs.map fun env =>
      { positions := [env.left.position]
        cells := [some (.jsonb (db.jsonb (.object env.left.payload)))] }
  | .member path => envs.map fun env =>
      { positions := [env.left.position]
        cells := [(db.memberAt env.left.payload path).map .jsonb] }
  | .distinct path =>
      (envs.map fun env => db.memberAt env.left.payload path).dedup.map fun key =>
        { cells := [key.map .jsonb] }
  | .grouped group aggregate =>
      (Sql.groups (fun env => db.text env group) envs).map fun (key, members) =>
        { cells := [key.map .text, aggregate.value db members] }
  | .aggregate aggregate => [{ cells := [aggregate.value db envs] }]
  | .pair => envs.map fun env =>
      { positions := [env.left.position, env.right.position]
        cells := [some (.jsonb (db.jsonb (.object env.left.payload))),
          some (.jsonb (db.jsonb (.object env.right.payload)))] }
  | .countMembers path =>
      let keys := envs.map fun env => db.memberAt env.left.payload path
      [{ cells := [some (.int (Sql.countDistinct keys))] }]
  | .countTexts expr =>
      let keys := envs.map fun env => db.text env expr
      [{ cells := [some (.int (Sql.countDistinct keys))] }]

/-- A column of a row. -/
def Found.column (found : Found) (i : Nat) : Option Cell := (found.cells[i]?).join

/-- NULL comes after everything. -/
def nullsLast (lt : Cell → Cell → Bool) : Option Cell → Option Cell → Bool
  | some x, some y => lt x y
  | some _, none => true
  | none, _ => false

/-- The `ORDER BY` puts the one row before the other. -/
def SortBy.before (db : Database) (order : SortBy) (row other : Found) : Bool :=
  match order with
  | .nothing => false
  | .position => decide (row.positions < other.positions)
  | .first => nullsLast db.cellLt (row.column 0) (other.column 0)
  | .secondDesc => nullsLast (fun x y => db.cellLt y x) (row.column 1) (other.column 1)

/-- `LIMIT` and `OFFSET`. -/
def paged {α : Type} (page : Option (Nat × Nat)) (rows : List α) : List α :=
  match page with
  | none => rows
  | some (limit, offset) => (rows.drop offset).take limit

/-- The order in which a database returns rows, given the `ORDER BY`. -/
abbrev Arrange := SortBy → List Found → List Found

/-- Rows that tie are returned in the order they have been found. -/
def Database.stable (db : Database) : Arrange := fun order rows =>
  rows.insertionSort fun row other => !order.before db other row

theorem Database.stable_perm (db : Database) (order : SortBy) (rows : List Found) :
    (db.stable order rows).Perm rows := List.perm_insertionSort _ rows

/-- The result of a statement. -/
def Statement.run (statement : Statement) (db : Database) (arrange : Arrange)
    (records : List RecordRow) : List (List (Option Cell)) :=
  (paged statement.page (arrange statement.order (statement.found db records))).map (·.cells)

/-! ## Executing a query -/

/-- An element of `QueryResult.rows`. -/
inductive Shaped where
  | value (cell : Option Cell)
  | pair (left right : Option Cell)
  | group (group value : Option Cell)
  deriving DecidableEq, Repr

structure QueryResult where
  rows : List Shaped
  total : Nat
  deriving DecidableEq, Repr

/-- One turn of `_shape_rows`; a column that is not there is an `IndexError`. -/
def shapeRow (plan : Query) (row : List (Option Cell)) : Except QueryError Shaped :=
  if plan.join.isSome ∧ plan.op = .get then
    match row with
    | left :: right :: _ => .ok (.pair left right)
    | _ => .error .crashed
  else if plan.op = .get ∨ plan.op = .pluck ∨ plan.op = .distinct then
    match row with
    | cell :: _ => .ok (.value cell)
    | [] => .error .crashed
  else if plan.groupBy.isSome then
    match row with
    | group :: value :: _ => .ok (.group group value)
    | _ => .error .crashed
  else
    match row with
    | cell :: _ => .ok (.value cell)
    | [] => .error .crashed

/-- `_shape_rows`. -/
def shapeRows (plan : Query) : List (List (Option Cell)) → Except QueryError (List Shaped)
  | [] => .ok []
  | row :: rest => do
      let shaped ← shapeRow plan row
      let others ← shapeRows plan rest
      return shaped :: others

/-- `int(counted or 0)` of the scalar of a result. -/
def scalar : List (List (Option Cell)) → Nat
  | (some (.int value) :: _) :: _ => value
  | _ => 0

/-- `_total`. -/
def total (plan : Query) (schema : Node) (collectionId : Text) (db : Database) (arrange : Arrange)
    (records : List RecordRow) (returned : Nat) : Except QueryError Nat :=
  if plan.op.aggregates ∧ plan.groupBy = none then .ok 1
  else if plan.offset = 0 ∧ (returned : Int) < plan.limit then .ok returned
  else do
    let counter ← compileCount plan schema collectionId
    return scalar (counter.run db arrange records)

/-- `_record_schema`. -/
def recordSchema (ownerId id : Text) (now : Nat) (rows : List Row) : Except QueryError Node :=
  match Tier.liveRow ownerId id now rows with
  | .error _ => .error (.notFound id)
  | .ok row => .ok row.schema

def rightSchema (query : Query) (ownerId : Text) (now : Nat) (rows : List Row) :
    Except QueryError (Option Node) :=
  match query.join with
  | none => .ok none
  | some join => do
      let schema ← recordSchema ownerId join.ref now rows
      return some schema

/-- `execute`. -/
def execute (db : Database) (arrange : Arrange) (maxLimit now : Nat) (rows : List Row)
    (ownerId collectionId : Text) (query : Query) : Except QueryError QueryResult := do
  let schema ← recordSchema ownerId collectionId now rows
  let right ← rightSchema query ownerId now rows
  let plan ← validate query schema right maxLimit
  let main ← compile plan schema collectionId
  let returned := main.run db arrange (recordRows rows)
  let count ← total plan schema collectionId db arrange (recordRows rows) returned.length
  let shaped ← shapeRows plan returned
  return { rows := shaped, total := count }

end Collections
end OctoForge
