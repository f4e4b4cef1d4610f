import OctoForge.Collections.Statements

/-!
# Totals

The total of a result comes from a second statement, that counts, or, where the first page is a
short one, from the page itself.  What the second statement leaves out is NULL: it is one of the
distinct values and one of the groups, and `count(DISTINCT …)` does not count it.
-/

namespace OctoForge
namespace Collections

open Fallible

/-- The statement without `LIMIT` and `OFFSET`. -/
def Statement.unpaged (statement : Statement) : Statement := { statement with page := none }

/-- What the rows of the result are told apart by, a row of the table at a time. -/
def Statement.keys (statement : Statement) (db : Database) (records : List RecordRow) :
    List (Option Text) :=
  let envs := statement.matching db records
  match statement.output with
  | .distinct path => envs.map fun env => db.memberAt env.left.payload path
  | .grouped group _ => envs.map fun env => db.text env group
  | _ => []

/-- The first page is the whole answer, and has room for more. -/
def ShortPage (plan : Query) (count : Nat) : Prop := plan.offset = 0 ∧ (count : Int) < plan.limit

/-! ## Lengths -/

section Lengths

variable {statement : Statement} {db : Database} {arrange : Arrange} {records : List RecordRow}

theorem length_paged {α : Type} (limit offset : Nat) (rows : List α) :
    (paged (some (limit, offset)) rows).length = Min.min limit (rows.length - offset) := by
  rw [paged, List.length_take, List.length_drop]

theorem length_run (hArrange : ∀ order rows, (arrange order rows).Perm rows) :
    (statement.run db arrange records).length =
      (paged statement.page (statement.found db records)).length := by
  rw [Statement.run, List.length_map]
  have hLength := (hArrange statement.order (statement.found db records)).length_eq
  cases statement.page with
  | none => exact hLength
  | some page =>
      obtain ⟨limit, offset⟩ := page
      rw [length_paged, length_paged, hLength]

theorem length_run_unpaged (hArrange : ∀ order rows, (arrange order rows).Perm rows) :
    (statement.unpaged.run db arrange records).length = (statement.found db records).length :=
  length_run hArrange

/-- A row that is returned is one that was found. -/
theorem exists_found_of_mem_run (hArrange : ∀ order rows, (arrange order rows).Perm rows)
    {row : List (Option Cell)} (hRow : row ∈ statement.run db arrange records) :
    ∃ found ∈ statement.found db records, found.cells = row := by
  obtain ⟨found, hFound, hCells⟩ := List.mem_map.mp hRow
  refine ⟨found, (hArrange statement.order _).subset ?_, hCells⟩
  cases hPage : statement.page with
  | none =>
      rw [hPage] at hFound
      exact hFound
  | some page =>
      rw [hPage] at hFound
      exact List.mem_of_mem_drop (List.mem_of_mem_take hFound)

/-- Where the count has no paging, and one row, that row is the result. -/
theorem run_of_found_singleton (hArrange : ∀ order rows, (arrange order rows).Perm rows)
    (hPage : statement.page = none) {found : Found}
    (hFound : statement.found db records = [found]) :
    statement.run db arrange records = [found.cells] := by
  have hOne : arrange statement.order [found] = [found] :=
    List.perm_singleton.mp (hArrange statement.order [found])
  rw [Statement.run, hPage, hFound, hOne]
  rfl

end Lengths

/-! ## Counting -/

section Counting

variable {plan : Query} {schema : Node} {collectionId : Text} {conditions : List Condition}
  {statement counter : Statement} {db : Database} {arrange : Arrange} {records : List RecordRow}

theorem exists_counter (hAccepted : Accepted plan)
    (hWhere : whereSql plan schema collectionId = .ok conditions) :
    ∃ counter, compileCount plan schema collectionId = .ok counter ∧
      Counter plan conditions counter := by
  have hCompiles : ∃ counter, compileCount plan schema collectionId = .ok counter := by
    rw [compileCount, hWhere]
    cases plan.join with
    | some join => exact ⟨_, rfl⟩
    | none =>
        by_cases hOp : plan.op = .distinct
        · obtain ⟨field, hField⟩ := hAccepted.field (by rw [hOp]; rfl)
          exact ⟨{ conditions, output := .countMembers (dotted field) }, by
            simp [bind, Except.bind, pure, Except.pure, hOp, theField, hField]⟩
        · cases hGroup : plan.groupBy with
          | some group =>
              exact ⟨{ conditions, output := .countTexts (fieldText group) }, by
                simp [bind, Except.bind, pure, Except.pure, hOp]⟩
          | none =>
              exact ⟨{ conditions, output := .aggregate .countAll }, by
                simp [bind, Except.bind, pure, Except.pure, hOp]⟩
  obtain ⟨counter, hCompiled⟩ := hCompiles
  obtain ⟨others, hOthers, hCounter⟩ := counter_of_compileCount hCompiled
  obtain rfl := Except.ok.inj (hWhere.symm.trans hOthers)
  exact ⟨counter, hCompiled, hCounter⟩

/-- A row for each of the keys. -/
def Output.Keyed : Output → Prop
  | .distinct _ | .grouped _ _ => True
  | _ => False

theorem length_found_of_keyed (hKeyed : statement.output.Keyed) :
    (statement.found db records).length = (statement.keys db records).dedup.length := by
  unfold Statement.keys Statement.found
  cases hOutput : statement.output with
  | distinct path => exact List.length_map _
  | grouped group inner =>
      simp only [List.length_map]
      exact Sql.length_groups _ _
  | _ =>
      rw [hOutput] at hKeyed
      contradiction

theorem keyed_of_mem_keys {key : Option Text} (hKey : key ∈ statement.keys db records) :
    statement.output.Keyed := by
  unfold Statement.keys at hKey
  cases hOutput : statement.output with
  | distinct path => trivial
  | grouped group inner => trivial
  | _ =>
      rw [hOutput] at hKey
      cases hKey

theorem counter_rows (hCounter : Counter plan conditions counter) (hJoin : plan.join = none)
    (hOp : plan.op ≠ .distinct) (hGroup : plan.groupBy = none) :
    counter = { conditions, output := .aggregate .countAll } := by
  cases hCounter with
  | rows => rfl
  | _ => simp_all

theorem counter_values (hCounter : Counter plan conditions counter) {field : Text}
    (hJoin : plan.join = none) (hOp : plan.op = .distinct) (hField : plan.field = some field) :
    counter = { conditions, output := .countMembers (dotted field) } := by
  cases hCounter with
  | values _ _ hFound =>
      obtain rfl := Option.some.inj (hField.symm.trans hFound)
      rfl
  | _ => simp_all

theorem counter_groups (hCounter : Counter plan conditions counter) {group : Text}
    (hJoin : plan.join = none) (hOp : plan.op ≠ .distinct) (hGroup : plan.groupBy = some group) :
    counter = { conditions, output := .countTexts (fieldText group) } := by
  cases hCounter with
  | groups _ _ hFound =>
      obtain rfl := Option.some.inj (hGroup.symm.trans hFound)
      rfl
  | _ => simp_all

theorem counter_pairs (hCounter : Counter plan conditions counter) {join : JoinSpec}
    (hJoin : plan.join = some join) :
    counter = { join := some (joinClause join), conditions, output := .aggregate .countAll } := by
  cases hCounter with
  | pairs hFound =>
      obtain rfl := Option.some.inj (hJoin.symm.trans hFound)
      rfl
  | _ => simp_all

/-- What the count leaves out is the row of NULL. -/
theorem scalar_counter (hArrange : ∀ order rows, (arrange order rows).Perm rows)
    (hAccepted : Accepted plan) (hMain : Compiled plan schema conditions statement)
    (hCounter : Counter plan conditions counter)
    (hRows : plan.op.aggregates = true → plan.groupBy ≠ none)
    (hJoin : plan.join ≠ none → plan.groupBy = none) :
    scalar (counter.run db arrange records) +
        (if none ∈ statement.keys db records then 1 else 0) =
      (statement.found db records).length := by
  have hGroup : plan.op.aggregates = false → plan.groupBy = none := by
    intro hNot
    by_contra hSome
    rw [hAccepted.groupBy hSome] at hNot
    cases hNot
  cases hMain with
  -- Rows are counted one by one.
  | records hNone hOp =>
      rw [counter_rows hCounter hNone (by rw [hOp]; decide) (hGroup (by rw [hOp]; rfl)),
        run_of_found_singleton hArrange rfl rfl]
      exact (List.length_map _).symm
  | members hNone hOp hField =>
      rw [counter_rows hCounter hNone (by rw [hOp]; decide) (hGroup (by rw [hOp]; rfl)),
        run_of_found_singleton hArrange rfl rfl]
      exact (List.length_map _).symm
  -- Keys are counted without NULL.
  | values hNone hOp hField =>
      rw [counter_values hCounter hNone hOp hField, run_of_found_singleton hArrange rfl rfl]
      refine Eq.trans ?_ (length_found_of_keyed ?_).symm
      · exact Sql.countDistinct_add _
      · trivial
  | groups hNone hOps hInner hSome =>
      have hOp : plan.op ≠ .distinct := by
        intro hOp
        rw [hOp] at hOps
        cases hOps
      rw [counter_groups hCounter hNone hOp hSome, run_of_found_singleton hArrange rfl rfl]
      refine Eq.trans ?_ (length_found_of_keyed ?_).symm
      · exact Sql.countDistinct_add _
      · trivial
  | value hNone hOps hInner hGroup => exact absurd hGroup (hRows hOps)
  | pairs hSome hOp =>
      rw [counter_pairs hCounter hSome, run_of_found_singleton hArrange rfl rfl]
      exact (List.length_map _).symm
  | pairCount hSome hOp =>
      exact absurd (hJoin (by rw [hSome]; simp)) (hRows (by rw [hOp]; rfl))

end Counting

/-! ## Shaping -/

section Shaping

variable {plan : Query} {schema : Node} {conditions : List Condition} {statement : Statement}
  {db : Database} {arrange : Arrange} {records : List RecordRow}

theorem shapeRows_ok {rows : List (List (Option Cell))}
    (hRows : ∀ row ∈ rows, ∃ shaped, shapeRow plan row = .ok shaped) :
    ∃ shaped, shapeRows plan rows = .ok shaped := by
  induction rows with
  | nil => exact ⟨[], rfl⟩
  | cons row rest ih =>
      obtain ⟨first, hFirst⟩ := hRows row List.mem_cons_self
      obtain ⟨others, hOthers⟩ := ih fun row hRow => hRows row (List.mem_cons_of_mem _ hRow)
      refine ⟨first :: others, bind_eq_ok.mpr ⟨first, hFirst, ?_⟩⟩
      exact bind_eq_ok.mpr ⟨others, hOthers, rfl⟩

theorem shapeRow_two (left right : Option Cell) :
    ∃ shaped, shapeRow plan [left, right] = .ok shaped := by
  unfold shapeRow
  split
  · exact ⟨.pair left right, rfl⟩
  · split
    · exact ⟨.value left, rfl⟩
    · split
      · exact ⟨.group left right, rfl⟩
      · exact ⟨.value left, rfl⟩

/-- One column is enough where there are neither pairs nor groups. -/
theorem shapeRow_one (cell : Option Cell) (hJoin : plan.join = none ∨ plan.op ≠ .get)
    (hGroup : (plan.op = .get ∨ plan.op = .pluck ∨ plan.op = .distinct) ∨ plan.groupBy = none) :
    shapeRow plan [cell] = .ok (.value cell) := by
  have hPair : ¬(plan.join.isSome = true ∧ plan.op = .get) := by
    rintro ⟨hSome, hOp⟩
    rcases hJoin with hNone | hNot
    · rw [hNone] at hSome
      cases hSome
    · exact hNot hOp
  unfold shapeRow
  rw [if_neg hPair]
  rcases hGroup with hOp | hNone
  · rw [if_pos hOp]
  · split
    · rfl
    · rw [hNone]
      rfl

/-- A row that a statement finds has the columns that are read. -/
theorem shapeRow_found (hMain : Compiled plan schema conditions statement)
    (hJoin : plan.join ≠ none → plan.groupBy = none) {found : Found}
    (hFound : found ∈ statement.found db records) :
    ∃ shaped, shapeRow plan found.cells = .ok shaped := by
  cases hMain with
  | records hNone hOp =>
      obtain ⟨env, -, rfl⟩ := List.mem_map.mp hFound
      exact ⟨_, shapeRow_one _ (.inl hNone) (.inl (.inl hOp))⟩
  | members hNone hOp hField =>
      obtain ⟨env, -, rfl⟩ := List.mem_map.mp hFound
      exact ⟨_, shapeRow_one _ (.inl hNone) (.inl (.inr (.inl hOp)))⟩
  | values hNone hOp hField =>
      obtain ⟨key, -, rfl⟩ := List.mem_map.mp hFound
      exact ⟨_, shapeRow_one _ (.inl hNone) (.inl (.inr (.inr hOp)))⟩
  | groups hNone hOps hInner hSome =>
      obtain ⟨group, -, rfl⟩ := List.mem_map.mp hFound
      exact shapeRow_two _ _
  | value hNone hOps hInner hGroup =>
      obtain rfl := List.mem_singleton.mp hFound
      exact ⟨_, shapeRow_one _ (.inl hNone) (.inr hGroup)⟩
  | pairs hSome hOp =>
      obtain ⟨env, -, rfl⟩ := List.mem_map.mp hFound
      exact shapeRow_two _ _
  | pairCount hSome hOp =>
      obtain rfl := List.mem_singleton.mp hFound
      exact ⟨_, shapeRow_one _ (.inr (by rw [hOp]; decide)) (.inr (hJoin (by rw [hSome]; simp)))⟩

/-- Groups are read from two columns, and the count of pairs is one. -/
theorem shapeRows_crash (cell : Option Cell) {group : Text} (hOp : plan.op = .count)
    (hGroup : plan.groupBy = some group) : shapeRows plan [[cell]] = .error .crashed := by
  have hShape : shapeRow plan [cell] = .error .crashed := by
    simp [shapeRow, hOp, hGroup]
  rw [shapeRows, hShape]
  rfl

end Shaping

/-! ## The total -/

section Totals

variable {plan : Query} {schema : Node} {collectionId : Text} {conditions : List Condition}
  {statement counter : Statement} {db : Database} {arrange : Arrange} {records : List RecordRow}

theorem total_eq (hCounter : compileCount plan schema collectionId = .ok counter)
    (returned : Nat) :
    total plan schema collectionId db arrange records returned =
      .ok (if plan.op.aggregates = true ∧ plan.groupBy = none then 1
        else if plan.offset = 0 ∧ (returned : Int) < plan.limit then returned
        else scalar (counter.run db arrange records)) := by
  rw [total, hCounter]
  split
  · rfl
  · split
    · rfl
    · rfl

theorem page_of_rows (hMain : Compiled plan schema conditions statement)
    (hRows : plan.op.aggregates = true → plan.groupBy ≠ none)
    (hJoin : plan.join ≠ none → plan.groupBy = none) : statement.page = some plan.page := by
  cases hMain with
  | value _ hOps _ hGroup => exact absurd hGroup (hRows hOps)
  | pairCount hSome hOp =>
      exact absurd (hJoin (by rw [hSome]; simp)) (hRows (by rw [hOp]; rfl))
  | _ => rfl

/-- The total of rows is right, but where NULL is among their keys and they are counted. -/
theorem total_rows_iff (hArrange : ∀ order rows, (arrange order rows).Perm rows)
    (hAccepted : Accepted plan) (hWhere : whereSql plan schema collectionId = .ok conditions)
    (hMain : Compiled plan schema conditions statement)
    (hRows : plan.op.aggregates = true → plan.groupBy ≠ none)
    (hJoin : plan.join ≠ none → plan.groupBy = none) :
    total plan schema collectionId db arrange records
          (statement.run db arrange records).length =
        .ok (statement.found db records).length ↔
      (none ∈ statement.keys db records → ShortPage plan (statement.found db records).length) := by
  obtain ⟨counter, hCompiled, hCounter⟩ := exists_counter hAccepted hWhere
  have hCount : scalar (counter.run db arrange records) +
      (if none ∈ statement.keys db records then 1 else 0) =
        (statement.found db records).length :=
    scalar_counter hArrange hAccepted hMain hCounter hRows hJoin
  have hReturned : (statement.run db arrange records).length =
      Min.min plan.limit.toNat ((statement.found db records).length - plan.offset.toNat) := by
    rw [length_run hArrange, page_of_rows hMain hRows hJoin]
    exact length_paged _ _ _
  have hLimit := hAccepted.limit
  rw [total_eq hCompiled, hReturned, Except.ok.injEq,
    if_neg fun hValue => hRows hValue.1 hValue.2, ShortPage]
  by_cases hKey : none ∈ statement.keys db records
  · rw [if_pos hKey] at hCount
    constructor
    · intro hTotal _
      split at hTotal <;> omega
    · intro hShort
      obtain ⟨hFirst, hRoom⟩ := hShort hKey
      rw [if_pos (by omega)]
      omega
  · rw [if_neg hKey] at hCount
    refine iff_of_true ?_ fun hThere => absurd hThere hKey
    split <;> omega

/-- The total of one row. -/
theorem total_value (hAccepted : Accepted plan)
    (hWhere : whereSql plan schema collectionId = .ok conditions)
    (hMain : Compiled plan schema conditions statement) (hOps : plan.op.aggregates = true)
    (hGroup : plan.groupBy = none) (returned : Nat) :
    total plan schema collectionId db arrange records returned =
      .ok (statement.found db records).length := by
  obtain ⟨counter, hCompiled, -⟩ := exists_counter hAccepted hWhere
  rw [total_eq hCompiled, if_pos ⟨hOps, hGroup⟩]
  cases hMain with
  | value => rfl
  | pairCount => rfl
  | groups _ _ _ hSome =>
      rw [hGroup] at hSome
      cases hSome
  | records _ hOp | members _ hOp | values _ hOp =>
      rw [hOp] at hOps
      cases hOps
  | pairs hSome hOp =>
      have hJoins := hAccepted.join (by rw [hSome]; simp)
      cases hIs : plan.op with
      | count => exact absurd hIs hOp
      | get => simp [hIs, QueryOp.aggregates] at hOps
      | _ => simp [hIs, QueryOp.joins] at hJoins

theorem keys_value (hMain : Compiled plan schema conditions statement)
    (hOps : plan.op.aggregates = true) (hGroup : plan.groupBy = none) :
    none ∉ statement.keys db records := by
  intro hKey
  have hKeyed := keyed_of_mem_keys hKey
  cases hMain with
  | groups _ _ _ hSome =>
      rw [hGroup] at hSome
      cases hSome
  | values _ hOp =>
      rw [hOp] at hOps
      cases hOps
  | _ => exact hKeyed

end Totals

/-! ## The result -/

section Results

variable {db : Database} {arrange : Arrange} {maxLimit now : Nat} {rows : List Row}
  {ownerId collectionId : Text} {query plan : Query} {schema : Node} {right : Option Node}
  {main : Statement}

theorem execute_iff (hSchema : recordSchema ownerId collectionId now rows = .ok schema)
    (hRight : rightSchema query ownerId now rows = .ok right)
    (hPlan : validate query schema right maxLimit = .ok plan)
    (hMain : compile plan schema collectionId = .ok main) (count : Nat) :
    (∃ result, execute db arrange maxLimit now rows ownerId collectionId query = .ok result ∧
        result.total = count) ↔
      (∃ shaped, shapeRows plan (main.run db arrange (recordRows rows)) = .ok shaped) ∧
        total plan schema collectionId db arrange (recordRows rows)
          (main.run db arrange (recordRows rows)).length = .ok count := by
  constructor
  · rintro ⟨result, hResult, rfl⟩
    unfold execute at hResult
    obtain ⟨_, hSchema', hResult⟩ := bind_eq_ok.mp hResult
    obtain rfl := Except.ok.inj (hSchema.symm.trans hSchema')
    obtain ⟨_, hRight', hResult⟩ := bind_eq_ok.mp hResult
    obtain rfl := Except.ok.inj (hRight.symm.trans hRight')
    obtain ⟨_, hPlan', hResult⟩ := bind_eq_ok.mp hResult
    obtain rfl := Except.ok.inj (hPlan.symm.trans hPlan')
    obtain ⟨_, hMain', hResult⟩ := bind_eq_ok.mp hResult
    obtain rfl := Except.ok.inj (hMain.symm.trans hMain')
    obtain ⟨count, hCount, hResult⟩ := bind_eq_ok.mp hResult
    obtain ⟨shaped, hShaped, hResult⟩ := bind_eq_ok.mp hResult
    obtain rfl := Except.ok.inj hResult
    exact ⟨⟨shaped, hShaped⟩, hCount⟩
  · rintro ⟨⟨shaped, hShaped⟩, hCount⟩
    refine ⟨{ rows := shaped, total := count }, ?_, rfl⟩
    unfold execute
    rw [bind_eq_ok]
    refine ⟨schema, hSchema, bind_eq_ok.mpr ⟨right, hRight, ?_⟩⟩
    refine bind_eq_ok.mpr ⟨plan, hPlan, bind_eq_ok.mpr ⟨main, hMain, ?_⟩⟩
    exact bind_eq_ok.mpr ⟨count, hCount, bind_eq_ok.mpr ⟨shaped, hShaped, rfl⟩⟩

/-- A query has a result, and its total is the number of rows there are without paging, unless a
count of pairs is grouped, or NULL is among the keys of the rows and the rows do not end on the
first page. -/
theorem total_is_whole_iff (hArrange : ∀ order rows, (arrange order rows).Perm rows)
    (hSchema : recordSchema ownerId collectionId now rows = .ok schema)
    (hRight : rightSchema query ownerId now rows = .ok right)
    (hPlan : validate query schema right maxLimit = .ok plan)
    (hMain : compile plan schema collectionId = .ok main) :
    (∃ result, execute db arrange maxLimit now rows ownerId collectionId query = .ok result ∧
        result.total = (main.unpaged.run db arrange (recordRows rows)).length) ↔
      (plan.join ≠ none → plan.groupBy = none) ∧
        (none ∈ main.keys db (recordRows rows) →
          ShortPage plan (main.keys db (recordRows rows)).dedup.length) := by
  rw [execute_iff hSchema hRight hPlan hMain, length_run_unpaged hArrange]
  have hAccepted := accepted_of_validate hPlan
  obtain ⟨conditions, hWhere, hCompiled⟩ := compiled_of_compile hMain
  by_cases hJoin : plan.join ≠ none → plan.groupBy = none
  · have hShaped : ∃ shaped,
        shapeRows plan (main.run db arrange (recordRows rows)) = .ok shaped := by
      refine shapeRows_ok fun row hRow => ?_
      obtain ⟨found, hFound, rfl⟩ := exists_found_of_mem_run hArrange hRow
      exact shapeRow_found hCompiled hJoin hFound
    rw [and_iff_right hShaped, and_iff_right hJoin]
    by_cases hRows : plan.op.aggregates = true → plan.groupBy ≠ none
    · rw [total_rows_iff hArrange hAccepted hWhere hCompiled hRows hJoin]
      refine forall_congr' fun hKey => ?_
      rw [length_found_of_keyed (keyed_of_mem_keys hKey)]
    · obtain ⟨hOps, hGroup⟩ : plan.op.aggregates = true ∧ plan.groupBy = none := by
        simpa using hRows
      refine iff_of_true (total_value hAccepted hWhere hCompiled hOps hGroup _) fun hKey => ?_
      exact absurd hKey (keys_value hCompiled hOps hGroup)
  · obtain ⟨hSome, hGroup⟩ : plan.join ≠ none ∧ plan.groupBy ≠ none := by
      simpa using hJoin
    refine iff_of_false ?_ fun hBoth => hJoin hBoth.1
    rintro ⟨⟨shaped, hShaped⟩, -⟩
    -- The one query that joins and groups is a count, and its rows cannot be shaped.
    have hCount : plan.op = .count := by
      have hOps := hAccepted.groupBy hGroup
      have hJoins := hAccepted.join hSome
      cases hOp : plan.op with
      | count => rfl
      | get => simp [hOp, QueryOp.aggregates] at hOps
      | _ => simp [hOp, QueryOp.joins] at hJoins
    obtain ⟨group, hIs⟩ := Option.ne_none_iff_exists'.mp hGroup
    cases hCompiled with
    | pairCount _ _ =>
        rw [run_of_found_singleton hArrange rfl rfl, shapeRows_crash _ hCount hIs] at hShaped
        cases hShaped
    | pairs _ hOp => exact hOp hCount
    | records hNone | members hNone | values hNone | groups hNone | value hNone =>
        exact hSome hNone

end Results

/-- Two records, and the second has no tag. -/
def tagged : Row where
  id := "c".toList
  ownerId := "u".toList
  label := []
  kind := .json
  source := []
  schema := inferRecords [[("tag", .string "a")], []]
  envelope := []
  recordCount := 2
  byteSize := 0
  pagesLoaded := 1
  truncated := false
  expiresAt := 1
  records := [([], [("tag", .string "a")]), ([], [])]

/-- The distinct tags, on a page of the given size. -/
def distinctTags (limit : Int) : Query := { op := .distinct, field := some "tag".toList, limit }

/-- The statement of `distinctTags`. -/
def tagsMain (limit : Nat) : Statement where
  conditions := [.collection .left "c".toList]
  output := .distinct ["tag"]
  order := .first
  page := some (limit, 0)

/-- Two tags on a page for fifty. -/
theorem total_is_whole_short :
    ∃ result, execute Database.plain Database.plain.stable 100 0 [tagged] "u".toList "c".toList
        (distinctTags 50) = .ok result ∧
      result.total = ((tagsMain 50).unpaged.run Database.plain Database.plain.stable
        (recordRows [tagged])).length :=
  (total_is_whole_iff Database.plain.stable_perm rfl rfl rfl rfl).mpr
    ⟨fun hJoin => absurd rfl hJoin, fun _ => ⟨rfl, by decide +kernel⟩⟩

/-- Two tags on a page for one: the total is one. -/
theorem total_leaves_null_out :
    ∃ plan, validate (distinctTags 1) tagged.schema none 100 = .ok plan ∧
      compile plan tagged.schema "c".toList = .ok (tagsMain 1) ∧
      ∃ result, execute Database.plain Database.plain.stable 100 0 [tagged] "u".toList "c".toList
          (distinctTags 1) = .ok result ∧
        result.total = 1 ∧
          ((tagsMain 1).unpaged.run Database.plain Database.plain.stable
            (recordRows [tagged])).length = 2 :=
  ⟨_, rfl, rfl, _, rfl, by decide +kernel, by decide +kernel⟩

end Collections
end OctoForge
