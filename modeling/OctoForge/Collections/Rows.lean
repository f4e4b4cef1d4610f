import Mathlib.Algebra.GroupWithZero.Nat
import OctoForge.Collections.Ingest

/-!
# The rows of the collections

The store of the database tier.  Rows are kept in the order of their last update, which is the
order in which the quotas of an owner evict them.  An operation that raises leaves the rows as
they were, and the clock and the faults of the database are given for each operation.
-/

namespace OctoForge
namespace Collections

/-- A row of `collections`, which is also the `CollectionPassport` made of it. -/
structure Passport where
  id : Text
  ownerId : Text
  label : Text
  kind : CollectionKind
  source : Text
  schema : Node
  envelope : Payload
  recordCount : Nat
  byteSize : Nat
  pagesLoaded : Nat
  truncated : Bool
  expiresAt : Nat

/-- `REF_PREFIX`. -/
def refStart : Text := "col:".toList

def Passport.ref (passport : Passport) : Text := refStart ++ passport.id

/-- A collection with its records, each with its source tag, in the order of `position`. -/
structure Row extends Passport where
  records : List (Text × Payload)

/-- The row of a collection whose source was cut. -/
def Row.cut (row : Row) : Row := { row with truncated := true }

inductive StoreError where
  | notFound (id : Text)
  | quota (message : Text)
  /-- The database has failed. -/
  | broken (message : Text)

/-- `str` of the exception. -/
def StoreError.message : StoreError → Text
  | .notFound id => id
  | .quota message => message
  | .broken message => message

/-- The database tier, as the operations of one call meet it. -/
structure Tier where
  maxPerUser : Nat
  maxBytesPerUser : Nat
  ttlSeconds : Nat
  /-- The time of an operation. -/
  now : Nat → Nat
  /-- What the database raises at an operation. -/
  breaks : Nat → Option Text
  /-- The `uuid4` drawn at an operation. -/
  freshId : Nat → Text

/-- The rows, and how many operations have been run on them. -/
structure Tables where
  rows : List Row
  operations : Nat := 0

/-- What `create` is given. -/
structure NewCollection where
  ownerId : Text
  label : Text
  kind : CollectionKind
  source : Text
  schema : Node
  envelope : Payload
  records : List Payload
  tag : Text
  byteSize : Nat
  truncated : Bool

namespace Tier

variable (tier : Tier) (tables : Tables)

/-- One transaction: the rows are replaced when it is committed. -/
def transact {α : Type} (body : (now : Nat) → List Row → Except StoreError (α × List Row)) :
    Except StoreError α × Tables :=
  let done : Tables := { tables with operations := tables.operations + 1 }
  match tier.breaks tables.operations with
  | some message => (.error (.broken message), done)
  | none =>
      match body (tier.now tables.operations) tables.rows with
      | .error refused => (.error refused, done)
      | .ok (answer, rows) => (.ok answer, { done with rows := rows })

def bytesOf (rows : List Row) : Nat := (rows.map fun row => row.byteSize).sum

/-- The rows that are left when the oldest go until the newcomer fits. -/
def fitting (incoming : Nat) : List Row → List Row
  | [] => []
  | row :: rest =>
      if tier.maxBytesPerUser < bytesOf (row :: rest) + incoming then fitting incoming rest
      else row :: rest

def isOf (ownerId : Text) (row : Row) : Bool := row.ownerId == ownerId

/-- `_evict_for`. -/
def evictFor (ownerId : Text) (incoming : Nat) (rows : List Row) : List Row :=
  let mine := rows.filter (isOf ownerId)
  let kept := tier.fitting incoming (mine.drop (mine.length + 1 - tier.maxPerUser))
  rows.filter fun row => !isOf ownerId row || kept.any fun other => other.id == row.id

/-- `session.get` of a row by its key. -/
def get (id : Text) (rows : List Row) : Option Row := rows.find? fun row => row.id == id

/-- `_live_row`. -/
def liveRow (ownerId id : Text) (now : Nat) (rows : List Row) : Except StoreError Row :=
  match get id rows with
  | none => .error (.notFound id)
  | some row =>
      if row.ownerId ≠ ownerId || row.expiresAt ≤ now then .error (.notFound id) else .ok row

/-- A row is updated, and becomes the one updated last. -/
def updateRow (row : Row) (rows : List Row) : List Row :=
  (rows.filter fun other => other.id != row.id) ++ [row]

def newRow (id : Text) (now : Nat) (new : NewCollection) : Row where
  id := id
  ownerId := new.ownerId
  label := new.label
  kind := new.kind
  source := new.source
  schema := new.schema
  envelope := new.envelope
  recordCount := new.records.length
  byteSize := new.byteSize
  pagesLoaded := 1
  truncated := new.truncated
  expiresAt := now + tier.ttlSeconds
  records := new.records.map fun payload => (new.tag, payload)

/-- `create`. -/
def create (new : NewCollection) : Except StoreError Passport × Tables :=
  let id := tier.freshId tables.operations
  tier.transact tables fun now rows =>
    if (get id rows).isSome then .error (.broken "the id of a collection is not new".toList)
    else
      let row := tier.newRow id now new
      .ok (row.toPassport, tier.evictFor new.ownerId new.byteSize rows ++ [row])

/-- The message of `CollectionQuotaError`. -/
def quotaMessage (byteSize : Nat) : Text :=
  "appending ".toList ++ Text.ofInt byteSize ++ " bytes would pass the ".toList ++
    Text.ofInt tier.maxBytesPerUser ++ "-byte quota".toList

/-- A row with one batch more. -/
def grown (row : Row) (records : List Payload) (tag : Text) (schema : Node) (byteSize now : Nat) :
    Row :=
  { row with
    records := row.records ++ records.map fun payload => (tag, payload)
    recordCount := row.recordCount + records.length
    byteSize := row.byteSize + byteSize
    pagesLoaded := row.pagesLoaded + 1
    schema := schema
    expiresAt := now + tier.ttlSeconds }

/-- `append`. -/
def append (ownerId id : Text) (records : List Payload) (tag : Text) (schema : Node)
    (byteSize : Nat) : Except StoreError Unit × Tables :=
  tier.transact tables fun now rows =>
    if tier.maxBytesPerUser < bytesOf (rows.filter (isOf ownerId)) + byteSize then
      .error (.quota (tier.quotaMessage byteSize))
    else
      (liveRow ownerId id now rows).map fun row =>
        ((), updateRow (tier.grown row records tag schema byteSize now) rows)

/-- `passport`. -/
def passport (ownerId id : Text) : Except StoreError Passport × Tables :=
  tier.transact tables fun now rows =>
    (liveRow ownerId id now rows).map fun row => (row.toPassport, rows)

/-- `mark_truncated`; a row that is marked already is not written. -/
def markTruncated (ownerId id : Text) : Except StoreError Unit × Tables :=
  tier.transact tables fun now rows =>
    (liveRow ownerId id now rows).map fun row =>
      ((), if row.truncated then rows else updateRow row.cut rows)

end Tier

/-- Whether the collection is marked as one whose source was cut. -/
def Tables.marked (tables : Tables) (id : Text) : Bool :=
  (Tier.get id tables.rows).any fun row => row.truncated

/-- The records of a collection, none if there is no such collection. -/
def Tables.recordsAt (tables : Tables) (id : Text) : List (Text × Payload) :=
  match Tier.get id tables.rows with
  | none => []
  | some row => row.records

/-! ## What the operations do to a row -/

theorem Tables.marked_congr {tables after : Tables} (hRows : after.rows = tables.rows) (id : Text) :
    after.marked id = tables.marked id := by
  rw [Tables.marked, Tables.marked, hRows]

theorem Tables.recordsAt_congr {tables after : Tables} (hRows : after.rows = tables.rows)
    (id : Text) : after.recordsAt id = tables.recordsAt id := by
  rw [Tables.recordsAt, Tables.recordsAt, hRows]

namespace Tier

variable {tier : Tier} {tables after : Tables} {ownerId id tag : Text} {row : Row}
  {rows : List Row} {new : NewCollection} {answer : Passport}

/-- A transaction that is committed. -/
theorem transact_ok {α : Type} {value : α}
    {body : (now : Nat) → List Row → Except StoreError (α × List Row)}
    (hRun : tier.transact tables body = (.ok value, after)) :
    ∃ rows, body (tier.now tables.operations) tables.rows = .ok (value, rows) ∧
      after.rows = rows := by
  unfold transact at hRun
  cases hBreaks : tier.breaks tables.operations with
  | some message => simp [hBreaks] at hRun
  | none =>
      cases hBody : body (tier.now tables.operations) tables.rows with
      | error refused => simp [hBreaks, hBody] at hRun
      | ok pair =>
          obtain ⟨found, rows⟩ := pair
          simp only [hBreaks, hBody, Prod.mk.injEq, Except.ok.injEq] at hRun
          obtain ⟨rfl, rfl⟩ := hRun
          exact ⟨rows, rfl, rfl⟩

/-- A transaction that raises. -/
theorem rows_of_transact_error {α : Type} {refused : StoreError}
    {body : (now : Nat) → List Row → Except StoreError (α × List Row)}
    (hRun : tier.transact tables body = (.error refused, after)) : after.rows = tables.rows := by
  unfold transact at hRun
  cases hBreaks : tier.breaks tables.operations with
  | some message =>
      simp only [hBreaks, Prod.mk.injEq] at hRun
      rw [← hRun.2]
  | none =>
      cases hBody : body (tier.now tables.operations) tables.rows with
      | error found =>
          simp only [hBreaks, hBody, Prod.mk.injEq] at hRun
          rw [← hRun.2]
      | ok pair => simp [hBreaks, hBody] at hRun

theorem liveRow_ok {now : Nat} (hLive : liveRow ownerId id now rows = .ok row) :
    get id rows = some row := by
  unfold liveRow at hLive
  cases hGet : get id rows with
  | none => simp [hGet] at hLive
  | some found =>
      simp only [hGet] at hLive
      split at hLive
      · cases hLive
      · rw [Except.ok.inj hLive]

theorem id_of_get (hGet : get id rows = some row) : row.id = id := by
  simpa using List.find?_some hGet

/-- The row that has been updated is the one found. -/
theorem get_updateRow (hId : row.id = id) : get id (updateRow row rows) = some row := by
  have hNone : (rows.filter fun other => other.id != row.id).find? (fun row => row.id == id) =
      none := by
    rw [List.find?_eq_none]
    intro other hOther
    have hNe := (List.mem_filter.mp hOther).2
    simpa [hId] using hNe
  rw [get, updateRow, List.find?_append, hNone]
  simp [hId]

theorem marked_of_get (hGet : get id tables.rows = some row) :
    tables.marked id = row.truncated := by
  simp [Tables.marked, hGet]

/-- A passport says whether its collection is marked. -/
theorem truncated_of_passport (hRun : tier.passport tables ownerId id = (.ok answer, after)) :
    answer.truncated = tables.marked id := by
  obtain ⟨rows, hBody, -⟩ := transact_ok hRun
  cases hLive : liveRow ownerId id (tier.now tables.operations) tables.rows with
  | error refused => simp [hLive, Except.map] at hBody
  | ok row =>
      simp only [hLive, Except.map, Except.ok.injEq, Prod.mk.injEq] at hBody
      rw [marked_of_get (liveRow_ok hLive), ← hBody.1]

theorem recordsAt_of_get (hGet : get id tables.rows = some row) :
    tables.recordsAt id = row.records := by
  rw [Tables.recordsAt, hGet]

/-- A row that has been marked, or was marked already. -/
theorem get_markTruncated (hRun : tier.markTruncated tables ownerId id = (.ok (), after)) :
    ∃ row, get id tables.rows = some row ∧ get id after.rows = some row.cut := by
  obtain ⟨rows, hBody, hRows⟩ := transact_ok hRun
  cases hLive : liveRow ownerId id (tier.now tables.operations) tables.rows with
  | error refused => simp [hLive, Except.map] at hBody
  | ok row =>
      simp only [hLive, Except.map, Except.ok.injEq, Prod.mk.injEq, true_and] at hBody
      have hGet := liveRow_ok hLive
      refine ⟨row, hGet, ?_⟩
      rw [hRows, ← hBody]
      cases hTruncated : row.truncated with
      | true =>
          have hCut : row.cut = row := by rw [Row.cut, ← hTruncated]
          rw [if_pos rfl, hCut, hGet]
      | false =>
          have hId : row.id = id := id_of_get hGet
          have hFound : get id (updateRow row.cut tables.rows) = some row.cut := get_updateRow hId
          rw [if_neg (by simp), hFound]

theorem marked_of_markTruncated (hRun : tier.markTruncated tables ownerId id = (.ok (), after)) :
    after.marked id = true := by
  obtain ⟨row, -, hCut⟩ := get_markTruncated hRun
  rw [marked_of_get hCut]
  rfl

theorem recordsAt_markTruncated {answer : Except StoreError Unit}
    (hRun : tier.markTruncated tables ownerId id = (answer, after)) :
    after.recordsAt id = tables.recordsAt id := by
  cases answer with
  | error refused => exact Tables.recordsAt_congr (rows_of_transact_error hRun) id
  | ok done =>
      obtain ⟨row, hGet, hCut⟩ := get_markTruncated hRun
      rw [recordsAt_of_get hGet, recordsAt_of_get hCut]
      rfl

/-- The row of a collection that a batch has been appended to. -/
theorem get_append {records : List Payload} {schema : Node} {byteSize : Nat}
    (hRun : tier.append tables ownerId id records tag schema byteSize = (.ok (), after)) :
    ∃ row now, get id tables.rows = some row ∧
      get id after.rows = some (tier.grown row records tag schema byteSize now) := by
  obtain ⟨rows, hBody, hRows⟩ := transact_ok hRun
  split at hBody
  · cases hBody
  · cases hLive : liveRow ownerId id (tier.now tables.operations) tables.rows with
    | error refused => simp [hLive, Except.map] at hBody
    | ok row =>
        simp only [hLive, Except.map, Except.ok.injEq, Prod.mk.injEq, true_and] at hBody
        have hGet := liveRow_ok hLive
        have hFound : ∀ grown : Row, grown.id = row.id →
            get id (updateRow grown tables.rows) = some grown :=
          fun _ hSame => get_updateRow (hSame.trans (id_of_get hGet))
        refine ⟨row, tier.now tables.operations, hGet, ?_⟩
        rw [hRows, ← hBody]
        exact hFound (tier.grown row records tag schema byteSize _) rfl

/-- An append leaves the mark of its collection as it is. -/
theorem marked_append {records : List Payload} {schema : Node} {byteSize : Nat}
    {answer : Except StoreError Unit}
    (hRun : tier.append tables ownerId id records tag schema byteSize = (answer, after)) :
    after.marked id = tables.marked id := by
  cases answer with
  | error refused => exact Tables.marked_congr (rows_of_transact_error hRun) id
  | ok done =>
      obtain ⟨row, now, hGet, hGrown⟩ := get_append hRun
      rw [marked_of_get hGet, marked_of_get hGrown]
      rfl

theorem recordsAt_append {records : List Payload} {schema : Node} {byteSize : Nat}
    (hRun : tier.append tables ownerId id records tag schema byteSize = (.ok (), after)) :
    after.recordsAt id = tables.recordsAt id ++ records.map fun payload => (tag, payload) := by
  obtain ⟨row, now, hGet, hGrown⟩ := get_append hRun
  rw [recordsAt_of_get hGet, recordsAt_of_get hGrown]
  rfl

/-- A read leaves every mark as it is. -/
theorem rows_passport {answer : Except StoreError Passport}
    (hRun : tier.passport tables ownerId id = (answer, after)) : after.rows = tables.rows := by
  cases answer with
  | error refused => exact rows_of_transact_error hRun
  | ok passport =>
      obtain ⟨rows, hBody, hRows⟩ := transact_ok hRun
      cases hLive : liveRow ownerId id (tier.now tables.operations) tables.rows with
      | error refused => simp [hLive, Except.map] at hBody
      | ok row =>
          simp only [hLive, Except.map, Except.ok.injEq, Prod.mk.injEq] at hBody
          rw [hRows, hBody.2]

/-- The row of a new collection. -/
theorem get_create (hRun : tier.create tables new = (.ok answer, after)) :
    ∃ now, get answer.id after.rows = some (tier.newRow answer.id now new) ∧
      answer = (tier.newRow answer.id now new).toPassport := by
  unfold create at hRun
  obtain ⟨rows, hBody, hRows⟩ := transact_ok hRun
  split at hBody
  · cases hBody
  · rename_i hNew
    simp only [Except.ok.injEq, Prod.mk.injEq] at hBody
    obtain ⟨hAnswer, rfl⟩ := hBody
    have hAbsent : get (tier.freshId tables.operations)
        (tier.evictFor new.ownerId new.byteSize tables.rows) = none := by
      rw [get, List.find?_eq_none]
      intro row hRow hId
      refine hNew (List.find?_isSome.mpr ⟨row, ?_, hId⟩)
      exact List.mem_of_mem_filter hRow
    have hId : answer.id = tier.freshId tables.operations := by rw [← hAnswer]; rfl
    refine ⟨tier.now tables.operations, ?_, by rw [hId]; exact hAnswer.symm⟩
    rw [hRows, hId, get, List.find?_append]
    rw [get] at hAbsent
    rw [hAbsent]
    simp [newRow]

/-- A new collection is marked as it is created. -/
theorem create_ok (hRun : tier.create tables new = (.ok answer, after)) :
    answer.truncated = new.truncated ∧ after.marked answer.id = new.truncated := by
  obtain ⟨now, hGet, hAnswer⟩ := get_create hRun
  exact ⟨by rw [hAnswer]; rfl, marked_of_get hGet⟩

theorem recordsAt_create (hRun : tier.create tables new = (.ok answer, after)) :
    after.recordsAt answer.id = new.records.map fun payload => (new.tag, payload) := by
  obtain ⟨now, hGet, -⟩ := get_create hRun
  exact recordsAt_of_get hGet

end Tier

end Collections
end OctoForge
