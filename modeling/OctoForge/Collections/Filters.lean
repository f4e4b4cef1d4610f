import OctoForge.Collections.Casts

/-!
# What a filter means

A predicate is about the value that a record has at a field.  `contains` asks for a literal part of
its text, a comparison is one of numbers where the schema calls the field a number and one of texts
elsewhere, and null asks whether there is a value.  The condition that a predicate is compiled to
says the same but for two slips: `contains` binds its value as a pattern, and a comparison of a
number with a string or a boolean is one of their texts.
-/

namespace OctoForge
namespace Collections

/-! ## The meaning -/

namespace Database

/-- The numbers of JSON are the numbers that their texts are cast to. -/
structure CastsNumbers (db : Database) : Prop where
  int : ∀ value, db.numeric (db.jsonbText (.number value)) = some (value : Rat)
  float : ∀ digits, db.numeric (db.jsonbText (.float digits)) = db.numeric digits

variable (db : Database)

/-- The number that a value of a record is. -/
def numberOf : Json → Option Rat
  | .number value => some value
  | .float digits => db.numeric digits
  | _ => none

/-- The number that a value of a predicate is, or that it spells. -/
def reading : FilterValue → Option Rat
  | .int value => some value
  | .float digits => db.numeric digits
  | .string value => db.numeric value
  | _ => none

end Database

def Comparison.compares (x y : Rat) : Comparison → Prop
  | .eq => x = y
  | .ne => x ≠ y
  | .gt => y < x
  | .lt => x < y
  | .gte => y ≤ x
  | .lte => x ≤ y

/-- The comparison of two texts. -/
def Comparison.comparesText (db : Database) (op : Comparison) (s t : Text) : Bool :=
  op.holds (s == t) (db.textLt s t) (db.textLt t s)

namespace FilterPredicate

/-- What the predicate asks of the value at its field; `numeric` is what the schema calls it. -/
def Meets (db : Database) (numeric : Bool) (predicate : FilterPredicate) (field : Option Json) :
    Prop :=
  match predicate.value, predicate.op.comparison with
  | .null, some .eq => field = none ∨ field = some .null
  | .null, _ => ∃ value, field = some value ∧ value ≠ .null
  | value, none =>
      ∃ t, field.bind db.textOf = some t ∧ value.str.map db.lower <:+: t.map db.lower
  | value, some op =>
      if numeric then
        ∃ x y, field.bind db.numberOf = some x ∧ db.reading value = some y ∧ op.compares x y
      else ∃ t, field.bind db.textOf = some t ∧ op.comparesText db t value.rendered = true

/-- The condition of the predicate holds of the records that meet it, whatever records its schema
has been folded out of.  Only `contains` is the same for a number and for other fields. -/
def Right (db : Database) (numeric : Bool) (predicate : FilterPredicate) : Prop :=
  ∀ (records : List Payload) (schema : Node) (condition : Condition) (env : Env),
    Folded records schema → env.left.payload ∈ records →
    requireField schema predicate.field none = .ok () →
    (predicate.op ≠ .contains → isNumeric schema predicate.field = numeric) →
    predicateSql schema predicate = .ok condition →
    (condition.holds db env = true ↔
      predicate.Meets db (isNumeric schema predicate.field)
        ((Json.object env.left.payload).at? (dotted predicate.field)))

/-- The texts of the numbers compare with the text of a value as the numbers do. -/
def ReadsAlike (db : Database) (op : Comparison) (value : FilterValue) : Prop :=
  ∀ number, kindOf number = .number →
    (op.comparesText db (db.jsonbText number) value.rendered = true ↔
      ∃ x y, db.numberOf number = some x ∧ db.reading value = some y ∧ op.compares x y)

/-- Neither slip is met. -/
def Faithful (db : Database) (numeric : Bool) (predicate : FilterPredicate) : Prop :=
  predicate.value = .null ∨
    match predicate.op.comparison with
    | none => Like.Plain '\\' predicate.value.str
    | some op =>
        numeric = false ∨ predicate.value.isNumber = true ∨ ReadsAlike db op predicate.value

end FilterPredicate

/-! ## A record with one field -/

/-- An object that has a value at the path and nothing else. -/
def nested (value : Json) : List String → Json
  | [] => value
  | name :: rest => .object [(name, nested value rest)]

section Nested

variable {value : Json} {path : List String}

theorem at?_nested (value : Json) (path : List String) :
    (nested value path).at? path = some value := by
  induction path with
  | nil => rfl
  | cons name rest ih => simp [nested, Json.at?_cons, Json.member, Json.lookup_cons, ih]

theorem fieldNode_nested (value : Json) (path : List String) :
    fieldNode (inferValue (nested value path)) path = some (inferValue value) := by
  induction path with
  | nil => rfl
  | cons name rest ih =>
      simp [nested, fieldNode, inferValue, Node.object, Node.kind, Node.fields, inferMembers, ih]

theorem exists_payload (value : Json) (hPath : path ≠ []) :
    ∃ payload, nested value path = .object payload := by
  cases path with
  | nil => exact absurd rfl hPath
  | cons name rest => exact ⟨_, rfl⟩

end Nested

section Meaning

variable {db : Database} {schema : Node} {records : List Payload} {predicate : FilterPredicate}
  {condition : Condition} {env : Env} {numeric : Bool}

theorem compares_iff (op : Comparison) (x y : Rat) :
    op.holds (x == y) (decide (x < y)) (decide (y < x)) = true ↔ op.compares x y := by
  cases op <;> simp [Comparison.holds, Comparison.compares]

/-- The cast of the text of a number, or of null, is the number. -/
theorem numeric_textOf (hDb : db.CastsNumbers) {value : Json}
    (hKind : kindOf value = .null ∨ kindOf value = .number) :
    (db.textOf value).bind db.numeric = db.numberOf value := by
  cases value with
  | null => rfl
  | number value => exact hDb.int value
  | float digits => exact hDb.float digits
  | _ => rcases hKind with hKind | hKind <;> cases hKind

/-- A field that the schema calls a number has the number that its text is cast to. -/
theorem numeric_textAt (hDb : db.CastsNumbers) (hFolded : Folded records schema)
    {record : Payload} (hRecord : record ∈ records) {field : Text}
    (hNumeric : isNumeric schema field = true) :
    (db.textAt record (dotted field)).bind db.numeric =
      ((Json.object record).at? (dotted field)).bind db.numberOf := by
  obtain ⟨node, hNode, hNumber⟩ := (Option.any_eq_true _ _).mp hNumeric
  unfold Database.textAt
  cases hValue : (Json.object record).at? (dotted field) with
  | none => rfl
  | some value =>
      have hKind := (hFolded.covers hRecord).number hNode (of_decide_eq_true hNumber) hValue
      exact numeric_textOf hDb hKind

theorem number_of_isNumber {value : FilterValue} (hNumber : value.isNumber = true) :
    db.number value = db.reading value := by
  cases value with
  | int | float => rfl
  | _ => cases hNumber

/-- A number of a predicate is compared with the number of the field. -/
theorem holds_number (hDb : db.CastsNumbers) (hFolded : Folded records schema)
    (hRecord : env.left.payload ∈ records) {field : Text} (op : Comparison) {value : FilterValue}
    (hNumeric : isNumeric schema field = true) (hNumber : value.isNumber = true) :
    (Condition.number op (fieldText field) value).holds db env = true ↔
      ∃ x y, ((Json.object env.left.payload).at? (dotted field)).bind db.numberOf = some x ∧
        db.reading value = some y ∧ op.compares x y := by
  have hCast : (db.text env (fieldText field)).bind db.numeric =
      ((Json.object env.left.payload).at? (dotted field)).bind db.numberOf :=
    numeric_textAt hDb hFolded hRecord hNumeric
  rw [Condition.holds, hCast, number_of_isNumber hNumber]
  cases ((Json.object env.left.payload).at? (dotted field)).bind db.numberOf with
  | none => simp
  | some x =>
      cases db.reading value with
      | none => simp
      | some y => simpa using compares_iff op x y

theorem holds_text (op : Comparison) (field t : Text) :
    (Condition.text op (fieldText field) t).holds db env = true ↔
      ∃ s, ((Json.object env.left.payload).at? (dotted field)).bind db.textOf = some s ∧
        op.comparesText db s t = true := by
  show (db.textAt env.left.payload (dotted field)).any _ = true ↔ _
  rw [Option.any_eq_true]
  exact Iff.rfl

theorem holds_ilike (field pattern : Text) :
    (Condition.ilike (fieldText field) pattern).holds db env = true ↔
      ∃ s, ((Json.object env.left.payload).at? (dotted field)).bind db.textOf = some s ∧
        Like.like db.lower '\\' pattern s = true := by
  show (db.textAt env.left.payload (dotted field)).any _ = true ↔ _
  rw [Option.any_eq_true]
  exact Iff.rfl

/-- The text of a value is NULL when there is no value, or null. -/
theorem isNone_textAt (field : Option Json) :
    (field.bind db.textOf).isNone = true ↔ field = none ∨ field = some .null := by
  cases field with
  | none => simp
  | some value => cases value <;> simp [Database.textOf]

theorem isSome_textAt (field : Option Json) :
    (field.bind db.textOf).isSome = true ↔ ∃ value, field = some value ∧ value ≠ .null := by
  cases field with
  | none => simp
  | some value => cases value <;> simp [Database.textOf]

end Meaning

namespace FilterPredicate

variable {db : Database} {schema : Node} {records : List Payload} {predicate : FilterPredicate}
  {numeric : Bool} {field : Option Json}

/-! ## The meaning, by the kind of the predicate -/

theorem meets_null_eq (hValue : predicate.value = .null) (hOp : predicate.op = .eq) :
    predicate.Meets db numeric field ↔ field = none ∨ field = some .null := by
  unfold Meets
  rw [hValue, hOp]
  exact Iff.rfl

theorem meets_null_ne (hValue : predicate.value = .null) (hOp : predicate.op = .ne) :
    predicate.Meets db numeric field ↔ ∃ value, field = some value ∧ value ≠ .null := by
  unfold Meets
  rw [hValue, hOp]
  exact Iff.rfl

theorem meets_contains (hValue : predicate.value ≠ .null)
    (hOp : predicate.op.comparison = none) :
    predicate.Meets db numeric field ↔
      ∃ t, field.bind db.textOf = some t ∧
        predicate.value.str.map db.lower <:+: t.map db.lower := by
  unfold Meets
  rw [hOp]
  cases hIs : predicate.value with
  | null => exact absurd hIs hValue
  | _ => exact Iff.rfl

theorem meets_compares {op : Comparison} (hValue : predicate.value ≠ .null)
    (hOp : predicate.op.comparison = some op) :
    predicate.Meets db numeric field ↔
      if numeric then
        ∃ x y, field.bind db.numberOf = some x ∧ db.reading predicate.value = some y ∧
          op.compares x y
      else
        ∃ t, field.bind db.textOf = some t ∧ op.comparesText db t predicate.value.rendered = true := by
  unfold Meets
  rw [hOp]
  cases hIs : predicate.value with
  | null => exact absurd hIs hValue
  | _ => exact Iff.rfl

theorem ne_contains {op : Comparison} (hOp : predicate.op.comparison = some op) :
    predicate.op ≠ .contains := by
  intro hContains
  rw [hContains] at hOp
  cases hOp

/-! ## Where neither slip is met -/

/-- The text of a number, compared with the text of a value that reads alike. -/
theorem comparesText_of_readsAlike {op : Comparison} {value : FilterValue}
    (hAlike : ReadsAlike db op value)
    (hKind : ∀ inner, field = some inner → kindOf inner = .null ∨ kindOf inner = .number) :
    (∃ t, field.bind db.textOf = some t ∧ op.comparesText db t value.rendered = true) ↔
      ∃ x y, field.bind db.numberOf = some x ∧ db.reading value = some y ∧ op.compares x y := by
  cases field with
  | none => simp
  | some inner =>
      cases inner with
      | null => simp [Database.textOf, Database.numberOf]
      | number n => simpa [Database.textOf] using hAlike (.number n) rfl
      | float digits => simpa [Database.textOf] using hAlike (.float digits) rfl
      | _ => rcases hKind _ rfl with hKind | hKind <;> cases hKind

theorem right_of_faithful (hDb : db.CastsNumbers) (hFaithful : predicate.Faithful db numeric) :
    predicate.Right db numeric := by
  intro records schema condition env hFolded hRecord _ hIs hCompiled
  rcases predicateSql_cases hCompiled with ⟨hNull, hOp, rfl⟩ | ⟨hNull, hOp, rfl⟩ |
    ⟨hNull, hOp, rfl⟩ | ⟨op, hNull, hOp, hNumeric, hNumber, rfl⟩ | ⟨op, hNull, hOp, hText, rfl⟩
  · rw [meets_null_eq hNull hOp]
    exact isNone_textAt _
  · rw [meets_null_ne hNull hOp]
    exact isSome_textAt _
  · have hPlain : Like.Plain '\\' predicate.value.str := by
      simpa [Faithful, hNull, hOp] using hFaithful
    rw [meets_contains hNull hOp, holds_ilike]
    exact exists_congr fun t => and_congr_right fun _ =>
      Like.like_around_of_plain (by decide) hPlain t
  · rw [meets_compares hNull hOp, if_pos hNumeric]
    exact holds_number hDb hFolded hRecord op hNumeric hNumber
  · rw [meets_compares hNull hOp, holds_text]
    cases hNumeric : isNumeric schema predicate.field with
    | false => rfl
    | true =>
        have hAlike : ReadsAlike db op predicate.value := by
          have hNumber : predicate.value.isNumber = false := by simpa [hNumeric] using hText
          have hSame : numeric = true := (hIs (ne_contains hOp)).symm.trans hNumeric
          simpa [Faithful, hNull, hOp, hNumber, hSame] using hFaithful
        obtain ⟨node, hNode, hNumber⟩ := (Option.any_eq_true _ _).mp hNumeric
        exact comparesText_of_readsAlike hAlike fun inner hInner =>
          (hFolded.covers hRecord).number hNode (of_decide_eq_true hNumber) hInner

/-! ## Where one is met -/

theorem predicateSql_contains (hValue : predicate.value ≠ .null)
    (hOp : predicate.op.comparison = none) :
    predicateSql schema predicate = .ok (.ilike (fieldText predicate.field)
      (Like.around predicate.value.str)) := by
  simp only [predicateSql, if_neg hValue, hOp]
  rfl

theorem predicateSql_text {op : Comparison} (hValue : predicate.value ≠ .null)
    (hOp : predicate.op.comparison = some op) (hNumber : predicate.value.isNumber = false) :
    predicateSql schema predicate =
      .ok (.text op (fieldText predicate.field) predicate.value.rendered) := by
  simp [predicateSql, hValue, hOp, hNumber]

/-- The record that has this value at the field of the predicate, and nothing else. -/
theorem Right.at_nested (hRight : predicate.Right db numeric) (value : Json)
    (hIs : predicate.op ≠ .contains → decide (kindOf value = .number) = numeric) :
    ∃ (schema : Node) (env : Env),
      (Json.object env.left.payload).at? (dotted predicate.field) = some value ∧
      isNumeric schema predicate.field = decide (kindOf value = .number) ∧
      ∀ condition, predicateSql schema predicate = .ok condition →
        (condition.holds db env = true ↔
          predicate.Meets db (decide (kindOf value = .number)) (some value)) := by
  have hPath : dotted predicate.field ≠ [] := by simp [dotted, List.splitOn_ne_nil]
  obtain ⟨payload, hPayload⟩ := exists_payload value hPath
  have hNode : fieldNode (inferValue (.object payload)) (dotted predicate.field) =
      some (inferValue value) := by
    rw [← hPayload]
    exact fieldNode_nested value _
  have hField : (Json.object payload).at? (dotted predicate.field) = some value := by
    rw [← hPayload]
    exact at?_nested value _
  have hNumeric : isNumeric (inferValue (.object payload)) predicate.field =
      decide (kindOf value = .number) := by
    rw [isNumeric, hNode, Option.any_some, kind_inferValue]
  let row : RecordRow := { collectionId := [], source := [], position := 0, payload }
  refine ⟨inferValue (.object payload), { left := row, right := row }, hField, hNumeric,
    fun condition hCompiled => ?_⟩
  have hHolds := hRight [payload] _ condition { left := row, right := row } (.one payload)
    List.mem_cons_self (by rw [requireField, hNode]) (fun hOp => hNumeric.trans (hIs hOp)) hCompiled
  rwa [hNumeric, hField] at hHolds

theorem Right.plain (hFold : db.lower '%' ≠ db.lower '\\') (hRight : predicate.Right db numeric)
    (hValue : predicate.value ≠ .null) (hOp : predicate.op.comparison = none) :
    Like.Plain '\\' predicate.value.str := by
  rw [← Like.like_around_iff (by decide) hFold]
  intro t
  obtain ⟨schema, env, hField, -, hHolds⟩ := hRight.at_nested (.string (String.ofList t))
    fun hNot => absurd (by cases hIs : predicate.op <;> simp_all [FilterOp.comparison]) hNot
  have hHere := hHolds _ (predicateSql_contains hValue hOp)
  rw [holds_ilike, meets_contains hValue hOp, hField] at hHere
  simpa [Database.textOf] using hHere

theorem Right.readsAlike {op : Comparison} (hRight : predicate.Right db true)
    (hValue : predicate.value ≠ .null) (hOp : predicate.op.comparison = some op)
    (hNumber : predicate.value.isNumber = false) : ReadsAlike db op predicate.value := by
  intro number hKind
  obtain ⟨schema, env, hField, -, hHolds⟩ := hRight.at_nested number fun _ => by simp [hKind]
  have hHere := hHolds _ (predicateSql_text hValue hOp hNumber)
  rw [holds_text, meets_compares hValue hOp, hField, if_pos (by simp [hKind])] at hHere
  cases number with
  | number | float => simpa [Database.textOf] using hHere
  | _ => cases hKind

/-- A predicate is compiled to a condition that means the same on every record exactly when neither
slip is met: a `contains` has no character that means something to `ILIKE`, and what is compared
with a number is a number, or compares with every number as a text the way it does as a number. -/
theorem right_iff (hDb : db.CastsNumbers) (hFold : db.lower '%' ≠ db.lower '\\') :
    predicate.Right db numeric ↔ predicate.Faithful db numeric := by
  constructor
  · intro hRight
    by_cases hValue : predicate.value = .null
    · exact .inl hValue
    · refine .inr ?_
      cases hOp : predicate.op.comparison with
      | none => exact hRight.plain hFold hValue hOp
      | some op =>
          cases numeric with
          | false => exact .inl rfl
          | true =>
              cases hNumber : predicate.value.isNumber with
              | true => exact .inr (.inl rfl)
              | false => exact .inr (.inr (hRight.readsAlike hValue hOp hNumber))
  · exact right_of_faithful hDb

end FilterPredicate

/-! ## A database that reads digits -/

namespace Database

def readDigits (t : Text) : Option Rat := (Text.readInt? t).map fun value => (value : Rat)

/-- As `plain`, with a cast that evaluates. -/
def decimal : Database := { plain with numeric := readDigits }

theorem castsNumbers_decimal : decimal.CastsNumbers where
  int value := by
    show readDigits (Json.dumps (.number value)) = _
    rw [Json.dumps, readDigits, Text.readInt?_ofInt]
    rfl
  float digits := by
    show readDigits (Json.dumps (.float digits)) = readDigits digits
    rw [Json.dumps]

end Database

/-! ## On one record -/

/-- `price >= 5` is one of numbers, whatever the records are. -/
theorem right_iff_price :
    FilterPredicate.Right Database.decimal true
      { field := "price".toList, op := .gte, value := .int 5 } :=
  (FilterPredicate.right_iff Database.castsNumbers_decimal (by decide)).mpr (.inr (.inr (.inl rfl)))

def sampleEnv (payload : Payload) : Env :=
  let row : RecordRow := { collectionId := [], source := [], position := 0, payload }
  { left := row, right := row }

/-- A name without an underscore is found by it, and a price of 10 is not more than the text 9. -/
theorem filter_slips :
    (predicateSql (inferRecords [[("name", .string "ab")]])
        { field := "name".toList, op := .contains, value := .string ['_'] } =
          .ok (.ilike (fieldText "name".toList) ['%', '_', '%']) ∧
      (Condition.ilike (fieldText "name".toList) ['%', '_', '%']).holds Database.decimal
        (sampleEnv [("name", .string "ab")]) = true ∧
      ¬ FilterPredicate.Meets Database.decimal false
        { field := "name".toList, op := .contains, value := .string ['_'] }
        (some (.string "ab"))) ∧
    predicateSql (inferRecords [[("price", .number 10)]])
        { field := "price".toList, op := .gt, value := .string ['9'] } =
          .ok (.text .gt (fieldText "price".toList) ['9']) ∧
      (Condition.text .gt (fieldText "price".toList) ['9']).holds Database.decimal
        (sampleEnv [("price", .number 10)]) = false ∧
      FilterPredicate.Meets Database.decimal true
        { field := "price".toList, op := .gt, value := .string ['9'] } (some (.number 10)) := by
  refine ⟨⟨rfl, by decide +kernel, ?_⟩, rfl, by decide +kernel, 10, 9, rfl, by decide +kernel, ?_⟩
  · rintro ⟨t, hText, hPart⟩
    obtain rfl := Option.some.inj hText
    revert hPart
    decide +kernel
  · show (9 : Rat) < 10
    decide +kernel

end Collections
end OctoForge
