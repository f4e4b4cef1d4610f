import OctoForge.Collections.Statements

/-!
# Casts

Only what the schema calls a number is cast to one, and the schema calls a number what is one, or
null, or missing, in every record it was folded out of, however the fold was grouped.
-/

namespace OctoForge
namespace Collections

open Fallible

/-- A schema that was folded out of the records, in some grouping. -/
inductive Folded : List Payload → Node → Prop
  /-- `infer_records` of no records. -/
  | none : Folded [] (.object fun _ => .none)
  | one (record : Payload) : Folded [record] (inferValue (.object record))
  | merge {first second : List Payload} {left right : Node} (hLeft : Folded first left)
      (hRight : Folded second right) : Folded (first ++ second) (left.merge right)

section Folds

variable {records : List Payload} {record : Payload} {schema : Node}

theorem Folded.covers (hFolded : Folded records schema) (hRecord : record ∈ records) :
    Covers schema (.object record) := by
  induction hFolded with
  | none => cases hRecord
  | one only =>
      obtain rfl := List.mem_singleton.mp hRecord
      exact covers_inferValue _
  | @merge first second left right _ _ ihLeft ihRight =>
      rcases List.mem_append.mp hRecord with hFirst | hSecond
      · exact (ihLeft hFirst).merge_left right
      · exact (ihRight hSecond).merge_right left

/-- The loop of `infer_records` is one of the groupings. -/
theorem folded_foldl {node : Node} {seen : List Payload} (hSeen : Folded seen node) :
    ∃ final, records.foldl observe (some node) = some final ∧ Folded (seen ++ records) final := by
  induction records generalizing node seen with
  | nil => exact ⟨node, rfl, by rwa [List.append_nil]⟩
  | cons record rest ih =>
      obtain ⟨final, hFinal, hFolded⟩ := ih (hSeen.merge (.one record))
      exact ⟨final, hFinal, by rwa [List.append_assoc] at hFolded⟩

theorem folded_inferRecords (records : List Payload) : Folded records (inferRecords records) := by
  cases records with
  | nil => exact .none
  | cons record rest =>
      obtain ⟨final, hFinal, hFolded⟩ :
          ∃ final, rest.foldl observe (some (inferValue (.object record))) = some final ∧
            Folded ([record] ++ rest) final := folded_foldl (.one record)
      have hSchema : inferRecords (record :: rest) = final := by
        rw [inferRecords, List.foldl_cons]
        exact congrArg (fun node => node.getD (.object fun _ => none)) hFinal
      rw [hSchema]
      exact hFolded

end Folds

/-! ## The casts of a statement -/

def Condition.casts : Condition → List TextExpr
  | .number _ expr _ => [expr]
  | _ => []

def Aggregate.casts : Aggregate → List TextExpr
  | .over _ expr true => [expr]
  | _ => []

def Output.casts : Output → List TextExpr
  | .grouped _ inner | .aggregate inner => inner.casts
  | _ => []

/-- What a statement casts to numeric. -/
def Statement.casts (statement : Statement) : List TextExpr :=
  ((statement.join.getD []) ++ statement.conditions).flatMap Condition.casts ++
    statement.output.casts

/-- The expression is about the left side, and the schema calls it a number. -/
def OverNumber (schema : Node) (expr : TextExpr) : Prop :=
  expr.side = .left ∧ ∃ node, fieldNode schema expr.path = some node ∧ node.kind = .number

/-- Numeric text or NULL. -/
def Database.NumericOrNull (db : Database) (t : Option Text) : Prop :=
  t = none ∨ ∃ value, kindOf value = .number ∧ t = some (db.jsonbText value)

section Casts

variable {schema : Node} {plan : Query} {collectionId : Text} {statement : Statement}
  {conditions : List Condition} {expr : TextExpr}

theorem overNumber_of_isNumeric {path : Text} (hNumeric : isNumeric schema path = true) :
    OverNumber schema (fieldText path) := by
  obtain ⟨node, hNode, hKind⟩ := (Option.any_eq_true _ _).mp hNumeric
  exact ⟨rfl, node, hNode, of_decide_eq_true hKind⟩

theorem casts_predicateSql {predicate : FilterPredicate} {condition : Condition}
    (hCompiled : predicateSql schema predicate = .ok condition) (hExpr : expr ∈ condition.casts) :
    OverNumber schema expr := by
  rcases predicateSql_cases hCompiled with ⟨-, -, rfl⟩ | ⟨-, -, rfl⟩ | ⟨-, -, rfl⟩ |
    ⟨op, -, -, hNumeric, -, rfl⟩ | ⟨op, -, -, -, rfl⟩
  · cases hExpr
  · cases hExpr
  · cases hExpr
  · obtain rfl := List.mem_singleton.mp hExpr
    exact overNumber_of_isNumeric hNumeric
  · cases hExpr

theorem casts_predicatesSql {filters : List FilterPredicate}
    (hCompiled : predicatesSql schema filters = .ok conditions)
    (hExpr : expr ∈ conditions.flatMap Condition.casts) : OverNumber schema expr := by
  induction filters generalizing conditions with
  | nil =>
      cases hCompiled
      cases hExpr
  | cons predicate rest ih =>
      rw [predicatesSql] at hCompiled
      obtain ⟨condition, hCondition, hCompiled⟩ := bind_eq_ok.mp hCompiled
      obtain ⟨others, hOthers, hCompiled⟩ := bind_eq_ok.mp hCompiled
      cases hCompiled
      rw [List.flatMap_cons, List.mem_append] at hExpr
      rcases hExpr with hHere | hThere
      · exact casts_predicateSql hCondition hHere
      · exact ih hOthers hThere

theorem casts_whereSql (hWhere : whereSql plan schema collectionId = .ok conditions)
    (hExpr : expr ∈ conditions.flatMap Condition.casts) : OverNumber schema expr := by
  obtain ⟨filters, hFilters, hWhere⟩ := bind_eq_ok.mp hWhere
  obtain rfl := Except.ok.inj hWhere
  rw [List.flatMap_append, List.flatMap_append, List.mem_append, List.mem_append] at hExpr
  rcases hExpr with (hCollection | hSource) | hFilter
  · cases hCollection
  · cases hTag : plan.source with
    | none =>
        rw [hTag] at hSource
        cases hSource
    | some tag =>
        rw [hTag] at hSource
        cases hSource
  · exact casts_predicatesSql hFilters hFilter

theorem casts_joinClause (join : JoinSpec) : (joinClause join).flatMap Condition.casts = [] := by
  rw [joinClause]
  cases join.source <;> rfl

theorem casts_aggregateSql {inner : Aggregate} (hInner : aggregateSql plan schema = .ok inner)
    (hExpr : expr ∈ inner.casts) : OverNumber schema expr := by
  unfold aggregateSql at hInner
  split at hInner
  · obtain rfl := Except.ok.inj hInner
    cases hExpr
  · split at hInner
    · cases hInner
    · rename_i field hField
      obtain rfl := Except.ok.inj hInner
      cases hNumeric : isNumeric schema field with
      | false =>
          rw [hNumeric] at hExpr
          cases hExpr
      | true =>
          rw [hNumeric] at hExpr
          obtain rfl := List.mem_singleton.mp hExpr
          exact overNumber_of_isNumeric hNumeric

/-- What a statement casts is cast by its filters or by what it selects. -/
theorem overNumber_of_casts (hWhere : whereSql plan schema collectionId = .ok statement.conditions)
    (hJoin : ∀ on, statement.join = some on → ∃ join, on = joinClause join)
    (hOutput : expr ∈ statement.output.casts → OverNumber schema expr)
    (hExpr : expr ∈ statement.casts) : OverNumber schema expr := by
  rw [Statement.casts, List.flatMap_append, List.append_assoc, List.mem_append,
    List.mem_append] at hExpr
  rcases hExpr with hOn | hFilter | hShown
  · cases hIs : statement.join with
    | none =>
        rw [hIs] at hOn
        cases hOn
    | some on =>
        obtain ⟨join, rfl⟩ := hJoin on hIs
        rw [hIs, Option.getD_some, casts_joinClause] at hOn
        cases hOn
  · exact casts_whereSql hWhere hFilter
  · exact hOutput hShown

theorem casts_compile (hCompiled : compile plan schema collectionId = .ok statement)
    (hExpr : expr ∈ statement.casts) : OverNumber schema expr := by
  obtain ⟨conditions, hWhere, hShape⟩ := compiled_of_compile hCompiled
  cases hShape with
  | records | members | values | pairs | pairCount =>
      exact overNumber_of_casts hWhere (by simp) (absurd · List.not_mem_nil) hExpr
  | groups _ _ hInner _ | value _ _ hInner _ =>
      exact overNumber_of_casts hWhere (by simp) (casts_aggregateSql hInner) hExpr

theorem casts_compileCount (hCompiled : compileCount plan schema collectionId = .ok statement)
    (hExpr : expr ∈ statement.casts) : OverNumber schema expr := by
  obtain ⟨conditions, hWhere, hShape⟩ := counter_of_compileCount hCompiled
  cases hShape with
  | pairs | values | groups | rows =>
      exact overNumber_of_casts hWhere (by simp) (absurd · List.not_mem_nil) hExpr

end Casts

/-! ## The values that are cast -/

section Sound

variable {schema : Node} {records : List Payload} {record : Payload}

/-- Where the schema calls a number what is a number or null, the text of it is numeric. -/
theorem numericOrNull_textAt (db : Database) {path : List String} {found : Node}
    (hFolded : Folded records schema) (hField : fieldNode schema path = some found)
    (hNumber : found.kind = .number) (hRecord : record ∈ records) :
    db.NumericOrNull (db.textAt record path) := by
  unfold Database.textAt
  cases hValue : (Json.object record).at? path with
  | none => exact .inl rfl
  | some value =>
      rcases (hFolded.covers hRecord).number hField hNumber hValue with hNull | hKind
      · cases value with
        | null => exact .inl rfl
        | _ => cases hNull
      · cases value with
        | number _ | float _ => exact .inr ⟨_, rfl, rfl⟩
        | _ => cases hKind

/-- The number nodes of a folded schema stand over numbers and null, and so do the casts of the
statements that are compiled with it. -/
theorem casts_sound (db : Database) (hFolded : Folded records schema) :
    (∀ (path : List String) (found : Node), fieldNode schema path = some found →
      found.kind = .number → ∀ record ∈ records, ∀ value,
        (Json.object record).at? path = some value →
          kindOf value = .null ∨ kindOf value = .number) ∧
      ∀ (plan : Query) (collectionId : Text) (statement : Statement),
        compile plan schema collectionId = .ok statement ∨
          compileCount plan schema collectionId = .ok statement →
        ∀ expr ∈ statement.casts, expr.side = .left ∧
          ∀ record ∈ records, db.NumericOrNull (db.textAt record expr.path) := by
  constructor
  · intro path found hField hNumber record hRecord value hValue
    exact (hFolded.covers hRecord).number hField hNumber hValue
  · intro plan collectionId statement hCompiled expr hExpr
    obtain ⟨hSide, found, hField, hNumber⟩ : OverNumber schema expr := by
      rcases hCompiled with hMain | hCount
      · exact casts_compile hMain hExpr
      · exact casts_compileCount hCount hExpr
    refine ⟨hSide, fun record hRecord => ?_⟩
    exact numericOrNull_textAt db hFolded hField hNumber hRecord

/-- A price that is a number, null, and missing: the sum over it casts the one that is there. -/
theorem casts_sound_sum :
    Database.plain.NumericOrNull (Database.plain.textAt [("price", .number 3)] ["price"]) ∧
      Database.plain.NumericOrNull (Database.plain.textAt [("price", .null)] ["price"]) ∧
      Database.plain.NumericOrNull (Database.plain.textAt [] ["price"]) := by
  have hSound := ((casts_sound Database.plain
    (.merge (.one [("price", .number 3)]) (.merge (.one [("price", .null)]) (.one [])))).2
    { op := .sum, field := some "price".toList } "c".toList _ (.inl rfl)
    { side := .left, path := ["price"] } (by decide +kernel)).2
  exact ⟨hSound _ (by simp), hSound _ (by simp), hSound _ (by simp)⟩

end Sound

end Collections
end OctoForge
