import OctoForge.Collections.Totals

/-!
# Pages

The pages of a query are statements of their own, and the database orders rows that tie as it
likes for each.  Records come in the order of their positions and distinct values in their own
order, where nothing ties; groups come in the order of their aggregates, where much does.
-/

namespace OctoForge
namespace Collections

open Fallible

/-- What Postgres says of the order of cells. -/
structure Database.Ordered (db : Database) : Prop where
  weak : Sql.WeakOrder db.cellLt
  jsonb {s t : Text} : s ≠ t → db.cellLt (.jsonb s) (.jsonb t) = true ∨
    db.cellLt (.jsonb t) (.jsonb s) = true

/-- The rows come as the `ORDER BY` has it, and those that tie as they may. -/
def Database.Arranges (db : Database) (arrange : Arrange) : Prop :=
  ∀ order rows, Sql.Arranged (order.before db) rows (arrange order rows)

/-- The query returns rows, a page at a time. -/
def Query.RowShaped (plan : Query) : Prop :=
  plan.op.aggregates = true → plan.join = none ∧ plan.groupBy ≠ none

/-- The query of a page. -/
def Query.atPage (plan : Query) (page : Nat) : Query := { plan with offset := page * plan.limit }

/-- The rows of a page, none where the query does not compile. -/
def pageRows (db : Database) (arrange : Arrange) (plan : Query) (schema : Node)
    (collectionId : Text) (records : List RecordRow) (page : Nat) : List (List (Option Cell)) :=
  match compile (plan.atPage page) schema collectionId with
  | .ok main => main.run db arrange records
  | .error _ => []

/-- The pages hold each row of the whole once, whatever the orders in which rows that tie come. -/
def PagesPartition (db : Database) (plan : Query) (schema : Node) (collectionId : Text)
    (records : List RecordRow) (main : Statement) : Prop :=
  ∀ (arrange : Nat → Arrange) (whole : Arrange), (∀ page, db.Arranges (arrange page)) →
    db.Arranges whole → ∀ count : Nat,
      (main.unpaged.run db whole records).length ≤ count * plan.limit.toNat →
      ((List.range count).flatMap fun page =>
          pageRows db (arrange page) plan schema collectionId records page).Perm
        (main.unpaged.run db whole records)

/-- The aggregates of the groups. -/
def Statement.groupValues (statement : Statement) (db : Database) (records : List RecordRow) :
    List (Option Cell) :=
  match statement.output with
  | .grouped group inner =>
      (Sql.groups (fun env => db.text env group) (statement.matching db records)).map
        fun (_, members) => inner.value db members
  | _ => []

/-- `DESC NULLS LAST`. -/
def Database.descending (db : Database) : Option Cell → Option Cell → Bool :=
  nullsLast fun x y => db.cellLt y x

/-! ## The orders -/

section Orders

variable {db : Database}

theorem weakOrder_nullsLast {lt : Cell → Cell → Bool} (hWeak : Sql.WeakOrder lt) :
    Sql.WeakOrder (nullsLast lt) where
  asymm {x y} hLess := by
    cases x with
    | none => cases hLess
    | some x =>
        cases y with
        | none => rfl
        | some y => exact hWeak.asymm hLess
  split {x z} y hLess := by
    cases x with
    | none => cases hLess
    | some x =>
        cases y with
        | none => exact .inl rfl
        | some y =>
            cases z with
            | none => exact .inr rfl
            | some z => exact hWeak.split y hLess

theorem Database.Ordered.descending (hOrdered : db.Ordered) : Sql.WeakOrder db.descending :=
  weakOrder_nullsLast hOrdered.weak.swap

theorem Database.Ordered.before (hOrdered : db.Ordered) (order : SortBy) :
    Sql.WeakOrder (order.before db) := by
  cases order with
  | nothing =>
      constructor
      · intro x y hLess
        cases hLess
      · intro x z y hLess
        cases hLess
  | position =>
      have hPositions : Sql.WeakOrder fun x y : List Nat => decide (x < y) :=
        Sql.weakOrder_lt fun x y => decide_eq_true_iff
      exact hPositions.comap Found.positions
  | first => exact (weakOrder_nullsLast hOrdered.weak).comap fun row : Found => row.column 0
  | secondDesc => exact hOrdered.descending.comap fun row : Found => row.column 1

theorem Database.Ordered.stable (hOrdered : db.Ordered) : db.Arranges db.stable :=
  fun order rows => Sql.arranged_insertionSort (hOrdered.before order) rows

/-- Rows that tie come in the reverse of the order they have been found in. -/
def Database.backwards (db : Database) : Arrange := fun order rows => db.stable order rows.reverse

theorem Database.Ordered.backwards (hOrdered : db.Ordered) : db.Arranges db.backwards := by
  intro order rows
  have hArranged := hOrdered.stable order rows.reverse
  exact ⟨hArranged.perm.trans (List.reverse_perm rows), hArranged.sorted⟩

theorem plain_ordered : Database.plain.Ordered where
  weak := by
    have hKeys : Sql.WeakOrder fun x y : Nat ×ₗ Text ×ₗ Rat => decide (x < y) :=
      Sql.weakOrder_lt fun x y => decide_eq_true_iff
    exact hKeys.comap Cell.key
  jsonb {s t} hApart := by
    have hKeys : Cell.key (.jsonb s) ≠ Cell.key (.jsonb t) := by
      intro hSame
      exact hApart (congrArg (fun key => (ofLex (ofLex key).2).1) hSame)
    rcases lt_or_gt_of_ne hKeys with hLess | hMore
    · exact .inl (decide_eq_true hLess)
    · exact .inr (decide_eq_true hMore)

end Orders

/-! ## The statements of the pages -/

section Statements

variable {plan : Query} {schema : Node} {collectionId : Text} {main : Statement}
  {conditions : List Condition} {db : Database} {records : List RecordRow}

theorem page_of_rowShaped (hMain : Compiled plan schema conditions main)
    (hRows : plan.RowShaped) : main.page = some plan.page := by
  cases hMain with
  | value _ hOps _ hGroup => exact absurd hGroup (hRows hOps).2
  | pairCount hSome hOp =>
      have hNone := (hRows (by rw [hOp]; rfl)).1
      rw [hSome] at hNone
      cases hNone
  | _ => rfl

/-- The statement of a page is the same but for the page. -/
theorem compile_atPage (hMain : compile plan schema collectionId = .ok main)
    (hPage : main.page = some plan.page) (page : Nat) :
    compile (plan.atPage page) schema collectionId =
      .ok { main with page := some (plan.atPage page).page } := by
  obtain ⟨conditions, hWhere, hCompiled⟩ := compiled_of_compile hMain
  have hWhere' : whereSql (plan.atPage page) schema collectionId = .ok conditions := hWhere
  unfold compile
  cases hCompiled with
  | records hNone hOp =>
      rw [show (plan.atPage page).join = none from hNone, hWhere',
        show (plan.atPage page).op = .get from hOp]
      rfl
  | members hNone hOp hField =>
      rw [show (plan.atPage page).join = none from hNone, hWhere',
        show (plan.atPage page).op = .pluck from hOp, theField,
        show (plan.atPage page).field = some _ from hField]
      rfl
  | values hNone hOp hField =>
      rw [show (plan.atPage page).join = none from hNone, hWhere',
        show (plan.atPage page).op = .distinct from hOp, theField,
        show (plan.atPage page).field = some _ from hField]
      rfl
  -- The inner statement does not know the page.
  | groups hNone hOps hInner hGroup =>
      rw [show (plan.atPage page).join = none from hNone, hWhere']
      have hInner' : aggregateSql (plan.atPage page) schema = .ok _ := hInner
      have hGroup' : (plan.atPage page).groupBy = some _ := hGroup
      cases hOp : plan.op with
      | get | pluck | distinct =>
          rw [hOp] at hOps
          cases hOps
      | count | sum | avg | min | max =>
          rw [show (plan.atPage page).op = _ from hOp]
          simp only [hInner', hGroup']
          rfl
  | value => cases hPage
  | pairs hSome hOp =>
      rw [show (plan.atPage page).join = some _ from hSome]
      exact bind_eq_ok.mpr ⟨conditions, hWhere', if_neg hOp⟩
  | pairCount => cases hPage

theorem pageRows_eq (arrange : Arrange) (hMain : compile plan schema collectionId = .ok main)
    (hPage : main.page = some plan.page) (hAccepted : Accepted plan) (page : Nat) :
    pageRows db arrange plan schema collectionId records page =
      (Sql.pageOf plan.limit.toNat page (arrange main.order (main.found db records))).map
        (·.cells) := by
  have hOffset : (plan.atPage page).offset.toNat = page * plan.limit.toNat := by
    obtain ⟨limit, hLimit⟩ := Int.eq_ofNat_of_zero_le hAccepted.limit
    show ((page : Int) * plan.limit).toNat = page * plan.limit.toNat
    rw [hLimit, ← Int.natCast_mul, Int.toNat_natCast, Int.toNat_natCast]
  rw [pageRows, compile_atPage hMain hPage, Sql.pageOf, ← hOffset]
  rfl

/-- Any arrangement of the rows of one statement is some database's. -/
theorem exists_arrange (hOrdered : db.Ordered) {order : SortBy} {rows ordered : List Found}
    (hArranged : Sql.Arranged (order.before db) rows ordered) :
    ∃ arrange : Arrange, db.Arranges arrange ∧ arrange order rows = ordered := by
  refine ⟨fun sort found => if sort = order ∧ found = rows then ordered else db.stable sort found,
    fun sort found => ?_, if_pos ⟨rfl, rfl⟩⟩
  dsimp only
  split
  · rename_i hHere
    rw [hHere.1, hHere.2]
    exact hArranged
  · exact hOrdered.stable sort found

theorem flatMap_pageRows (arrange : Nat → Arrange)
    (hMain : compile plan schema collectionId = .ok main) (hPage : main.page = some plan.page)
    (hAccepted : Accepted plan) (count : Nat) :
    ((List.range count).flatMap fun page =>
        pageRows db (arrange page) plan schema collectionId records page) =
      Sql.pages plan.limit.toNat (·.cells)
        (fun page => arrange page main.order (main.found db records)) count := by
  rw [Sql.pages]
  refine List.flatMap_congr fun page _ => ?_
  exact pageRows_eq (arrange page) hMain hPage hAccepted page

theorem pagesPartition_iff_whole (hOrdered : db.Ordered)
    (hMain : compile plan schema collectionId = .ok main) (hPage : main.page = some plan.page)
    (hAccepted : Accepted plan) :
    PagesPartition db plan schema collectionId records main ↔
      Sql.PagesAreWhole (main.order.before db) (·.cells) (main.found db records)
        plan.limit.toNat := by
  have hWhole : ∀ whole, db.Arranges whole →
      (main.unpaged.run db whole records).Perm ((main.found db records).map (·.cells)) :=
    fun whole hArranges => (hArranges main.order (main.found db records)).perm.map _
  constructor
  · intro hPartition ordered hArranged count hCount
    choose arrange hArranges hIs using fun page => exists_arrange hOrdered (hArranged page)
    have hAll := hWhole db.stable hOrdered.stable
    have hPerm := hPartition arrange db.stable hArranges hOrdered.stable count
      (by rwa [hAll.length_eq, List.length_map])
    rw [flatMap_pageRows arrange hMain hPage hAccepted] at hPerm
    simp only [hIs] at hPerm
    exact hPerm.trans hAll
  · intro hPages arrange whole hArranges hArrangesWhole count hCount
    have hAll := hWhole whole hArrangesWhole
    rw [flatMap_pageRows arrange hMain hPage hAccepted]
    refine (hPages _ (fun page => hArranges page main.order _) count ?_).trans hAll.symm
    rwa [hAll.length_eq, List.length_map] at hCount

end Statements

/-! ## Positions -/

section Positions

variable {rows : List Row} {statement : Statement} {db : Database}

/-- A record is told by its collection and its position. -/
def RecordRow.slot (record : RecordRow) : Text × Nat := (record.collectionId, record.position)

theorem slots_row (row : Row) :
    row.recordRows.map RecordRow.slot = (List.range row.records.length).map (row.id, ·) := by
  rw [Row.recordRows, List.map_map, List.range_eq_range', ← List.zipIdx_map_snd, List.map_map]
  rfl

/-- The ids of the collections are a primary key, and positions go on by one. -/
theorem nodup_slots (hIds : (rows.map (·.id)).Nodup) :
    ((recordRows rows).map RecordRow.slot).Nodup := by
  rw [recordRows, List.map_flatMap, List.nodup_flatMap]
  constructor
  · intro row hRow
    rw [slots_row]
    exact List.nodup_range.map fun x y hSame => (Prod.mk.inj hSame).2
  · refine (List.pairwise_map.mp hIds).imp fun {row other} hApart => ?_
    change List.Disjoint (row.recordRows.map RecordRow.slot) (other.recordRows.map RecordRow.slot)
    rw [slots_row, slots_row]
    intro slot hHere hThere
    obtain ⟨_, -, rfl⟩ := List.mem_map.mp hHere
    obtain ⟨_, -, hSame⟩ := List.mem_map.mp hThere
    exact hApart (Prod.mk.inj hSame).1.symm

/-- What a row of the `FROM` is told by. -/
def Env.slots (env : Env) : (Text × Nat) × Text × Nat := (env.left.slot, env.right.slot)

theorem nodup_matching (hIds : (rows.map (·.id)).Nodup) :
    ((statement.matching db (recordRows rows)).map Env.slots).Nodup := by
  have hSlots := nodup_slots hIds
  unfold Statement.matching
  split
  · refine List.Nodup.sublist (List.filter_sublist.map Env.slots) ?_
    rw [List.map_map]
    refine List.Nodup.of_map Prod.fst ?_
    rwa [List.map_map]
  · refine List.Nodup.sublist (List.filter_sublist.map Env.slots) ?_
    have hProduct : ((recordRows rows).flatMap fun left => (recordRows rows).map fun right =>
        ({ left, right } : Env)).map Env.slots =
        ((recordRows rows).map RecordRow.slot).product ((recordRows rows).map RecordRow.slot) := by
      rw [List.map_flatMap, List.product, List.flatMap_map]
      refine List.flatMap_congr fun left _ => ?_
      rw [List.map_map, List.map_map]
      rfl
    rw [hProduct]
    exact hSlots.product hSlots

theorem holds_of_matching {env : Env} {records : List RecordRow}
    (hEnv : env ∈ statement.matching db records) {condition : Condition}
    (hCondition : condition ∈ statement.conditions ∨
      ∃ on, statement.join = some on ∧ condition ∈ on) :
    condition.holds db env = true := by
  unfold Statement.matching at hEnv
  split at hEnv
  · rename_i hNone
    have hAll := List.all_eq_true.mp (List.mem_filter.mp hEnv).2
    rcases hCondition with hWhere | ⟨on, hSome, -⟩
    · exact hAll condition hWhere
    · rw [hNone] at hSome
      cases hSome
  · rename_i on hOn
    have hAll := List.all_eq_true.mp (List.mem_filter.mp hEnv).2
    rcases hCondition with hWhere | ⟨on', hSome, hMem⟩
    · exact hAll condition (List.mem_append_right _ hWhere)
    · obtain rfl := Option.some.inj (hOn.symm.trans hSome)
      exact hAll condition (List.mem_append_left _ hMem)

/-- Without a join there is the one record. -/
theorem right_of_matching {env : Env} {records : List RecordRow} (hJoin : statement.join = none)
    (hEnv : env ∈ statement.matching db records) : env.right = env.left := by
  unfold Statement.matching at hEnv
  rw [hJoin] at hEnv
  obtain ⟨record, -, rfl⟩ := List.mem_map.mp (List.mem_filter.mp hEnv).1
  rfl

/-- Within one collection on each side, a row of the `FROM` is told by its positions. -/
theorem pairwise_positions (hIds : (rows.map (·.id)).Nodup) {leftId rightId : Text}
    (hLeft : ∀ env ∈ statement.matching db (recordRows rows), env.left.collectionId = leftId)
    (hRight : ∀ env ∈ statement.matching db (recordRows rows), env.right.collectionId = rightId) :
    (statement.matching db (recordRows rows)).Pairwise fun env other =>
      ¬(env.left.position = other.left.position ∧ env.right.position = other.right.position) := by
  refine (List.pairwise_map.mp (nodup_matching hIds)).imp_of_mem ?_
  rintro env other hEnv hOther hApart ⟨hSame, hSame'⟩
  refine hApart (Prod.ext (Prod.ext ?_ hSame) (Prod.ext ?_ hSame'))
  · exact (hLeft env hEnv).trans (hLeft other hOther).symm
  · exact (hRight env hEnv).trans (hRight other hOther).symm

theorem collection_mem_of_whereSql {plan : Query} {schema : Node} {collectionId : Text}
    {conditions : List Condition} (hWhere : whereSql plan schema collectionId = .ok conditions) :
    Condition.collection .left collectionId ∈ conditions := by
  obtain ⟨filters, -, hWhere⟩ := bind_eq_ok.mp hWhere
  obtain rfl := Except.ok.inj hWhere
  exact List.mem_cons_self

/-- Nothing ties under positions that differ. -/
theorem not_cut_positions {found : List Found} {place : Nat}
    (hApart : found.Pairwise fun row other => row.positions ≠ other.positions) :
    ¬Sql.Cut (SortBy.position.before db) found place := by
  refine Sql.not_cut_of_total (hApart.imp fun {row other} hNot => ?_)
  rcases lt_or_gt_of_ne hNot with hLess | hMore
  · exact .inl (decide_eq_true hLess)
  · exact .inr (decide_eq_true hMore)

end Positions

/-! ## The pages -/

section Pages

variable {rows : List Row} {db : Database} {plan : Query} {schema : Node} {collectionId : Text}
  {conditions : List Condition} {main : Statement} {place : Nat}

/-- Records of one collection do not tie. -/
theorem not_cut_single (hIds : (rows.map (·.id)).Nodup) (hJoin : main.join = none)
    (hCollection : Condition.collection .left collectionId ∈ main.conditions)
    {row : Env → Found} (hPositions : ∀ env, (row env).positions = [env.left.position]) :
    ¬Sql.Cut (SortBy.position.before db) ((main.matching db (recordRows rows)).map row) place := by
  have hLeft : ∀ env ∈ main.matching db (recordRows rows), env.left.collectionId = collectionId :=
    fun env hEnv => beq_iff_eq.mp (holds_of_matching hEnv (.inl hCollection))
  have hRight : ∀ env ∈ main.matching db (recordRows rows),
      env.right.collectionId = collectionId := by
    intro env hEnv
    rw [right_of_matching hJoin hEnv]
    exact hLeft env hEnv
  refine not_cut_positions (List.pairwise_map.mpr ?_)
  refine (pairwise_positions hIds hLeft hRight).imp_of_mem
    fun {env other} hEnv hOther hNot hSame => ?_
  rw [hPositions, hPositions] at hSame
  have hHere := (List.cons.inj hSame).1
  rw [right_of_matching hJoin hEnv, right_of_matching hJoin hOther] at hNot
  exact hNot ⟨hHere, hHere⟩

/-- Pairs of records of two collections do not tie. -/
theorem not_cut_pairs (hIds : (rows.map (·.id)).Nodup) {join : JoinSpec}
    (hJoin : main.join = some (joinClause join))
    (hCollection : Condition.collection .left collectionId ∈ main.conditions)
    {row : Env → Found}
    (hPositions : ∀ env, (row env).positions = [env.left.position, env.right.position]) :
    ¬Sql.Cut (SortBy.position.before db) ((main.matching db (recordRows rows)).map row) place := by
  have hLeft : ∀ env ∈ main.matching db (recordRows rows), env.left.collectionId = collectionId :=
    fun env hEnv => beq_iff_eq.mp (holds_of_matching hEnv (.inl hCollection))
  have hRight : ∀ env ∈ main.matching db (recordRows rows), env.right.collectionId = join.ref := by
    intro env hEnv
    have hHolds : (Condition.collection .right join.ref).holds db env = true :=
      holds_of_matching hEnv (.inr ⟨joinClause join, hJoin, List.mem_cons_self⟩)
    exact beq_iff_eq.mp hHolds
  refine not_cut_positions (List.pairwise_map.mpr ?_)
  refine (pairwise_positions hIds hLeft hRight).imp fun {env other} hNot hSame => ?_
  rw [hPositions, hPositions] at hSame
  obtain ⟨hFirst, hRest⟩ := List.cons.inj hSame
  exact hNot ⟨hFirst, (List.cons.inj hRest).1⟩

/-- Distinct values do not tie. -/
theorem not_cut_distinct (hOrdered : db.Ordered) {keys : List (Option Text)} (hKeys : keys.Nodup) :
    ¬Sql.Cut (SortBy.first.before db)
      (keys.map fun key => { cells := [key.map Cell.jsonb] : Found }) place := by
  refine Sql.not_cut_of_total (List.pairwise_map.mpr (hKeys.imp fun {key other} hApart => ?_))
  cases key with
  | none =>
      cases other with
      | none => exact absurd rfl hApart
      | some t => exact .inr rfl
  | some s =>
      cases other with
      | none => exact .inl rfl
      | some t => exact hOrdered.jsonb fun hSame => hApart (congrArg some hSame)

/-- A place among rows is one among what they are ordered by. -/
theorem cut_map {α β : Type} (lt : β → β → Bool) (key : α → β) (found : List α) :
    Sql.Cut (fun x y => lt (key x) (key y)) found place ↔ Sql.Cut lt (found.map key) place := by
  simp only [Sql.Cut, List.countP_map, List.mem_map, exists_exists_and_eq_and]
  rfl

/-- Groups look different: their keys do. -/
theorem nodup_cells_groups (envs : List Env) (group : TextExpr) (inner : Aggregate) :
    (((Sql.groups (fun env => db.text env group) envs).map fun (key, members) =>
      { cells := [key.map Cell.text, inner.value db members] : Found }).map (·.cells)).Nodup := by
  have hKeys := List.pairwise_map.mp (Sql.nodup_groups (fun env => db.text env group) envs)
  rw [List.map_map]
  refine List.pairwise_map.mpr (hKeys.imp fun {row other} hApart hSame => hApart ?_)
  have hText : Function.Injective (Option.map Cell.text) :=
    Option.map_injective fun s t hCell => Cell.text.inj hCell
  exact hText (List.cons.inj hSame).1

/-- The pages of a query are the whole of its rows, once each, whatever the database does with
rows that tie, unless a page of groups begins among groups of one value. -/
theorem pages_partition_iff (hOrdered : db.Ordered) (hIds : (rows.map (·.id)).Nodup)
    {query : Query} {right : Option Node} {maxLimit : Nat}
    (hPlan : validate query schema right maxLimit = .ok plan) (hLimit : 1 ≤ plan.limit)
    (hRows : plan.RowShaped) (hMain : compile plan schema collectionId = .ok main) :
    PagesPartition db plan schema collectionId (recordRows rows) main ↔
      ∀ page : Nat, ¬Sql.Cut db.descending (main.groupValues db (recordRows rows))
        (page * plan.limit.toNat) := by
  obtain ⟨conditions, hWhere, hCompiled⟩ := compiled_of_compile hMain
  have hPage := page_of_rowShaped hCompiled hRows
  have hCollection := collection_mem_of_whereSql hWhere
  have hWeak := hOrdered.before main.order
  rw [pagesPartition_iff_whole hOrdered hMain hPage (accepted_of_validate hPlan)]
  -- A query without groups has no page that begins among them.
  have hWhole : main.groupValues db (recordRows rows) = [] →
      (∀ place, ¬Sql.Cut (main.order.before db) (main.found db (recordRows rows)) place) →
      (Sql.PagesAreWhole (main.order.before db) (·.cells) (main.found db (recordRows rows))
          plan.limit.toNat ↔
        ∀ page : Nat, ¬Sql.Cut db.descending (main.groupValues db (recordRows rows))
          (page * plan.limit.toNat)) := by
    intro hNone hNot
    refine iff_of_true ?_ fun page hCut => ?_
    · exact Sql.pagesAreWhole_of_steady fun page => Sql.steady_of_not_cut hWeak (hNot _)
    · obtain ⟨value, hValue, -⟩ := hCut
      rw [hNone] at hValue
      cases hValue
  cases hCompiled with
  | records hNone hOp =>
      exact hWhole rfl fun place => not_cut_single hIds rfl hCollection fun env => rfl
  | members hNone hOp hField =>
      exact hWhole rfl fun place => not_cut_single hIds rfl hCollection fun env => rfl
  | values hNone hOp hField =>
      exact hWhole rfl fun place => not_cut_distinct hOrdered (List.nodup_dedup _)
  | pairs hSome hOp =>
      exact hWhole rfl fun place => not_cut_pairs hIds rfl hCollection fun env => rfl
  | value => cases hPage
  | pairCount => cases hPage
  | @groups group inner hNone hOps hInner hGroup =>
      have hSome : 1 ≤ plan.limit.toNat := by omega
      refine (Sql.pagesAreWhole_iff hWeak hSome (nodup_cells_groups _ (fieldText group) inner)
        (hOrdered.stable .secondDesc _)).trans ?_
      refine forall_congr' fun page => not_congr ?_
      refine (cut_map db.descending (fun row : Found => row.column 1) _).trans ?_
      have hValues : ∀ found : List (Option Text × List Env),
          (found.map fun (key, members) =>
            { cells := [key.map Cell.text, inner.value db members] : Found }).map (·.column 1) =
          found.map fun (_, members) => inner.value db members := by
        intro found
        rw [List.map_map]
        rfl
      rw [hValues]
      rfl

end Pages

/-! ### Two and three tags -/

/-- How many records there are of each tag, one group a page. -/
def tagCounts : Query := { op := .count, groupBy := some "tag".toList, limit := 1 }

/-- The statement of `tagCounts`. -/
def tagCountsMain : Statement where
  conditions := [.collection .left "c".toList]
  output := .grouped { side := .left, path := ["tag"] } .countAll
  order := .secondDesc
  page := some (1, 0)

/-- A collection of records that have a tag and nothing else. -/
def tags (names : List String) : Row :=
  { tagged with records := names.map fun name => ([], [("tag", .string name)]) }

/-- One tag twice and the other once. -/
theorem pages_partition_counts :
    PagesPartition Database.plain tagCounts tagged.schema "c".toList
      (recordRows [tags ["a", "b", "a"]]) tagCountsMain := by
  have hIds : ([tags ["a", "b", "a"]].map (·.id)).Nodup := List.nodup_singleton _
  have hPlan : validate tagCounts tagged.schema none 100 = .ok tagCounts := rfl
  refine (pages_partition_iff plain_ordered hIds hPlan le_rfl
    (fun _ => ⟨rfl, by decide⟩) rfl).mpr ?_
  exact fun _ => Sql.not_cut_of_total (by decide +kernel)

/-- Both tags once: either may be on both pages. -/
theorem pages_repeat_group :
    validate tagCounts tagged.schema none 100 = .ok tagCounts ∧
      compile tagCounts tagged.schema "c".toList = .ok tagCountsMain ∧ tagCounts.RowShaped ∧
      ¬PagesPartition Database.plain tagCounts tagged.schema "c".toList
        (recordRows [tags ["a", "b"]]) tagCountsMain := by
  refine ⟨rfl, rfl, fun _ => ⟨rfl, by decide⟩, fun hPartition => ?_⟩
  have hPerm := hPartition
    (fun page => if page = 0 then Database.plain.stable else Database.plain.backwards)
    Database.plain.stable (fun page => ?_) plain_ordered.stable 2 (by decide +kernel)
  · revert hPerm
    decide +kernel
  · split
    · exact plain_ordered.stable
    · exact plain_ordered.backwards

end Collections
end OctoForge
