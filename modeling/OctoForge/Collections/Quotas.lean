import Mathlib.Algebra.GroupWithZero.Nat
import Mathlib.Algebra.Order.BigOperators.Group.List
import Mathlib.Algebra.Order.Group.Nat
import OctoForge.Collections.Statements

/-!
# The quotas of an owner

The two tables of the store, with the collections under their own `updated_at` and the records
under their own `position`.  A new collection evicts the ones touched least recently until it fits
both quotas, and a batch that does not fit is refused.

An owner is within the quotas after every call, except that one collection alone may be larger than
the bytes allow.
-/

namespace OctoForge
namespace Collections

open Fallible

/-- A row of `collections`, under what it is evicted by. -/
structure CollectionRow extends Passport where
  updatedAt : Nat

/-- `ORDER BY updated_at, id`. -/
def CollectionRow.key (row : CollectionRow) : Nat ×ₗ Text := toLex (row.updatedAt, row.id)

/-- What the store reads of `CollectionConfig`. -/
structure CollectionConfig where
  maxPerUser : Nat
  maxBytesPerUser : Nat

/-- The two fixed tables. -/
structure FixedTables where
  collections : List CollectionRow := []
  records : List RecordRow := []

/-! ## Evicting -/

/-- The loop of the count quota: what has been doomed, and what is left. -/
def countLoop (maxPerUser : Nat) :
    (doomed rest : List CollectionRow) → Option (List CollectionRow × List CollectionRow)
  -- with nothing left `survivors[len(doomed)]` is an `IndexError`
  | doomed, [] => if maxPerUser = 0 then none else some (doomed, [])
  | doomed, row :: rest =>
      if maxPerUser ≤ rest.length + 1 then countLoop maxPerUser (doomed ++ [row]) rest
      else some (doomed, row :: rest)

/-- The loop of the byte quota, with the bytes of what is left. -/
def byteLoop (maxBytes incoming : Nat) :
    (doomed rest : List CollectionRow) → (remaining : Int) → List CollectionRow
  | doomed, [], _ => doomed
  | doomed, row :: rest, remaining =>
      if (maxBytes : Int) < remaining + incoming then
        byteLoop maxBytes incoming (doomed ++ [row]) rest (remaining - row.byteSize)
      else doomed

def totalBytes (rows : List CollectionRow) : Nat := (rows.map fun row => row.byteSize).sum

namespace FixedTables

variable (tables : FixedTables) (config : CollectionConfig)

/-- The rows `WHERE owner_id = owner`. -/
def owned (ownerId : Text) : List CollectionRow :=
  tables.collections.filter fun row => row.ownerId == ownerId

/-- The records of a collection, in the order they have been written. -/
def recordsOf (id : Text) : List RecordRow :=
  tables.records.filter fun record => record.collectionId == id

/-- The collections of an owner, the least recently touched first. -/
def survivors (ownerId : Text) : List CollectionRow :=
  (tables.owned ownerId).insertionSort fun row other => row.key ≤ other.key

/-- The two `DELETE`s of an eviction or of a sweep. -/
def delete (ids : List Text) : FixedTables where
  collections := tables.collections.filter fun row => !ids.contains row.id
  records := tables.records.filter fun record => !ids.contains record.collectionId

/-- `_evict_for`. -/
def evictFor (ownerId : Text) (incoming : Nat) : Option FixedTables :=
  match countLoop config.maxPerUser [] (tables.survivors ownerId) with
  | none => none
  | some (doomed, rest) =>
      match byteLoop config.maxBytesPerUser incoming doomed rest (totalBytes rest) with
      | [] => some tables
      | doomed => some (tables.delete (doomed.map fun row => row.id))

/-- `_add_records`. -/
def addRecords (id : Text) (records : List Payload) (tag : Text) (position : Nat) : FixedTables :=
  { tables with
    records := tables.records ++ records.zipIdx.map fun (payload, index) =>
      { collectionId := id, source := tag, position := position + index, payload } }

def newCollection (id : Text) (new : NewCollection) (expiresAt now : Nat) : CollectionRow where
  id := id
  ownerId := new.ownerId
  label := new.label
  kind := new.kind
  source := new.source
  schema := new.schema
  envelope := new.envelope
  recordCount := new.records.length
  byteSize := new.byteSize
  pagesLoaded := 1
  truncated := new.truncated
  expiresAt := expiresAt
  updatedAt := now

/-- `create`. -/
def create (id : Text) (new : NewCollection) (expiresAt now : Nat) :
    Except StoreError FixedTables :=
  match tables.evictFor config new.ownerId new.byteSize with
  | none => .error (.broken "list index out of range".toList)
  | some evicted =>
      if evicted.collections.any (fun row => row.id == id) then
        .error (.broken "UNIQUE constraint failed: collections.id".toList)
      else
        let row := newCollection id new expiresAt now
        .ok ({ evicted with collections := evicted.collections ++ [row] }.addRecords id new.records
          new.tag 0)

/-- `_live_row`. -/
def liveRow (ownerId id : Text) (now : Nat) : Except StoreError CollectionRow :=
  match tables.collections.find? fun row => row.id == id with
  | none => .error (.notFound id)
  | some row =>
      if row.ownerId ≠ ownerId || row.expiresAt ≤ now then .error (.notFound id) else .ok row

/-- An `UPDATE` of the row with this id. -/
def update (row : CollectionRow) : FixedTables :=
  { tables with collections := tables.collections.map fun other =>
      if other.id = row.id then row else other }

/-- The message of `CollectionQuotaError`. -/
def quotaMessage (byteSize : Nat) : Text :=
  "appending ".toList ++ Text.ofInt byteSize ++ " bytes would pass the ".toList ++
    Text.ofInt config.maxBytesPerUser ++ "-byte quota".toList

/-- A row with one batch more. -/
def grown (row : CollectionRow) (count : Nat) (schema : Node) (byteSize expiresAt touched : Nat) :
    CollectionRow :=
  { row with
    recordCount := row.recordCount + count
    byteSize := row.byteSize + byteSize
    pagesLoaded := row.pagesLoaded + 1
    schema := schema
    expiresAt := expiresAt
    updatedAt := touched }

/-- `append`; nothing has been written where it raises. -/
def append (ownerId id : Text) (records : List Payload) (tag : Text) (schema : Node)
    (byteSize expiresAt now touched : Nat) : Except StoreError FixedTables :=
  if config.maxBytesPerUser < totalBytes (tables.owned ownerId) + byteSize then
    .error (.quota (quotaMessage config byteSize))
  else do
    let row ← tables.liveRow ownerId id now
    return (tables.addRecords row.id records tag row.recordCount).update
      (grown row records.length schema byteSize expiresAt touched)

/-- `mark_truncated`; a row that is marked already is not written. -/
def markTruncated (ownerId id : Text) (now touched : Nat) : Except StoreError FixedTables := do
  let row ← tables.liveRow ownerId id now
  return if row.truncated then tables
    else tables.update { row with truncated := true, updatedAt := touched }

/-- `delete_expired`. -/
def deleteExpired (now : Nat) : FixedTables :=
  match (tables.collections.filter fun row => row.expiresAt ≤ now).map fun row => row.id with
  | [] => tables
  | ids => tables.delete ids

end FixedTables

/-! ## Histories -/

/-- A call of the store, with the clock it reads and the id it draws. -/
inductive StoreCall where
  | create (id : Text) (new : NewCollection) (expiresAt now : Nat)
  | append (ownerId id : Text) (records : List Payload) (tag : Text) (schema : Node)
      (byteSize expiresAt now touched : Nat)
  | markTruncated (ownerId id : Text) (now touched : Nat)
  | deleteExpired (now : Nat)

def StoreCall.run (config : CollectionConfig) (tables : FixedTables) :
    StoreCall → Except StoreError FixedTables
  | .create id new expiresAt now => tables.create config id new expiresAt now
  | .append ownerId id records tag schema byteSize expiresAt now touched =>
      tables.append config ownerId id records tag schema byteSize expiresAt now touched
  | .markTruncated ownerId id now touched => tables.markTruncated ownerId id now touched
  | .deleteExpired now => .ok (tables.deleteExpired now)

/-- The tables after a call: a call that raises is rolled back. -/
def StoreCall.after (config : CollectionConfig) (tables : FixedTables) (call : StoreCall) :
    FixedTables :=
  match call.run config tables with
  | .error _ => tables
  | .ok written => written

/-- The tables after a serial history, from empty ones. -/
def history (config : CollectionConfig) (calls : List StoreCall) : FixedTables :=
  calls.foldl (StoreCall.after config) {}

/-! ## The shortest prefix -/

/-- `k` elements are the fewest to take off the front for the rest to be enough, or all of them
where no rest is. -/
structure Shortest {α : Type} (enough : List α → Prop) (l : List α) (k : Nat) : Prop where
  le : k ≤ l.length
  least : ∀ j < k, ¬ enough (l.drop j)
  enough : enough (l.drop k) ∨ k = l.length

/-- With these collections kept, the newcomer is within both quotas. -/
def Room (config : CollectionConfig) (incoming : Nat) (kept : List CollectionRow) : Prop :=
  kept.length + 1 ≤ config.maxPerUser ∧ totalBytes kept + incoming ≤ config.maxBytesPerUser

section Loops

variable {config : CollectionConfig} {incoming : Nat}

theorem countLoop_eq {maxPerUser : Nat} (hMax : 1 ≤ maxPerUser)
    (doomed rest : List CollectionRow) :
    countLoop maxPerUser doomed rest =
      some (doomed ++ rest.take (rest.length + 1 - maxPerUser),
        rest.drop (rest.length + 1 - maxPerUser)) := by
  induction rest generalizing doomed with
  | nil =>
      rw [countLoop, if_neg (by omega)]
      simp
  | cons row rest ih =>
      rw [countLoop, List.length_cons]
      by_cases hFull : maxPerUser ≤ rest.length + 1
      · have hMore : rest.length + 1 + 1 - maxPerUser = rest.length + 1 - maxPerUser + 1 := by omega
        rw [if_pos hFull, ih, hMore, List.take_succ_cons, List.drop_succ_cons, List.append_assoc]
        rfl
      · have hNone : rest.length + 1 + 1 - maxPerUser = 0 := by omega
        rw [if_neg hFull, hNone, List.take_zero, List.append_nil, List.drop_zero]

theorem totalBytes_cons (row : CollectionRow) (rest : List CollectionRow) :
    totalBytes (row :: rest) = row.byteSize + totalBytes rest := by simp [totalBytes]

theorem byteLoop_eq (maxBytes incoming : Nat) (doomed rest : List CollectionRow) :
    ∃ k, Shortest (fun kept => totalBytes kept + incoming ≤ maxBytes) rest k ∧
      byteLoop maxBytes incoming doomed rest (totalBytes rest) = doomed ++ rest.take k := by
  induction rest generalizing doomed with
  | nil => exact ⟨0, ⟨le_rfl, by simp, .inr rfl⟩, by simp [byteLoop]⟩
  | cons row rest ih =>
      have hRemaining : ((totalBytes (row :: rest) : Nat) : Int) - row.byteSize =
          totalBytes rest := by
        rw [totalBytes_cons]
        omega
      rw [byteLoop]
      by_cases hOver : (maxBytes : Int) < (totalBytes (row :: rest) : Nat) + incoming
      · obtain ⟨k, hShortest, hLoop⟩ := ih (doomed ++ [row])
        refine ⟨k + 1, ⟨?_, ?_, ?_⟩, ?_⟩
        · simpa using hShortest.le
        · intro j hj
          cases j with
          | zero =>
              rw [List.drop_zero]
              omega
          | succ j => exact hShortest.least j (by omega)
        · simpa using hShortest.enough
        · rw [if_pos hOver, hRemaining, hLoop]
          simp
      · refine ⟨0, ⟨by simp, by simp, .inl ?_⟩, ?_⟩
        · rw [List.drop_zero]
          omega
        · rw [if_neg hOver, List.take_zero, List.append_nil]

/-- The two loops after each other doom the shortest prefix for both quotas. -/
theorem shortest_room {rows : List CollectionRow} {k : Nat} (hMax : 1 ≤ config.maxPerUser)
    (hBytes : Shortest (fun kept => totalBytes kept + incoming ≤ config.maxBytesPerUser)
      (rows.drop (rows.length + 1 - config.maxPerUser)) k) :
    Shortest (Room config incoming) rows (rows.length + 1 - config.maxPerUser + k) := by
  have hLe := hBytes.le
  rw [List.length_drop] at hLe
  refine ⟨by omega, ?_, ?_⟩
  · intro j hj hRoom
    have hCount := hRoom.1
    rw [List.length_drop] at hCount
    have hPast : rows.length + 1 - config.maxPerUser ≤ j := by omega
    obtain ⟨i, rfl⟩ := Nat.exists_eq_add_of_le hPast
    have hOver := hBytes.least i (by omega)
    rw [List.drop_drop] at hOver
    exact hOver hRoom.2
  · rcases hBytes.enough with hFits | hAll
    · rw [List.drop_drop] at hFits
      refine .inl ⟨?_, hFits⟩
      rw [List.length_drop]
      omega
    · rw [List.length_drop] at hAll
      exact .inr (by omega)

end Loops

/-! ## What an eviction leaves -/

/-- No id is taken twice, the positions of a collection count its records, and no record is left
without its collection. -/
structure WellKept (tables : FixedTables) : Prop where
  ids : (tables.collections.map fun row => row.id).Nodup
  positions : ∀ row ∈ tables.collections,
    (tables.recordsOf row.id).map RecordRow.position = List.range row.recordCount
  owned : ∀ record ∈ tables.records, ∃ row ∈ tables.collections, row.id = record.collectionId

namespace FixedTables

variable {config : CollectionConfig} {tables : FixedTables} {ownerId : Text} {incoming k : Nat}

theorem delete_nil : tables.delete [] = tables := by simp [delete]

theorem survivors_perm : (tables.survivors ownerId).Perm (tables.owned ownerId) :=
  List.perm_insertionSort _ _

theorem mem_survivors {row : CollectionRow} :
    row ∈ tables.survivors ownerId ↔ row ∈ tables.collections ∧ row.ownerId = ownerId := by
  rw [survivors_perm.mem_iff, owned, List.mem_filter, beq_iff_eq]

/-- `_evict_for` deletes the shortest prefix that makes room. -/
theorem evictFor_eq (hMax : 1 ≤ config.maxPerUser) (tables : FixedTables) (ownerId : Text)
    (incoming : Nat) :
    ∃ k, Shortest (Room config incoming) (tables.survivors ownerId) k ∧
      tables.evictFor config ownerId incoming =
        some (tables.delete (((tables.survivors ownerId).take k).map fun row => row.id)) := by
  obtain ⟨k, hShortest, hLoop⟩ := byteLoop_eq config.maxBytesPerUser incoming
    ((tables.survivors ownerId).take ((tables.survivors ownerId).length + 1 - config.maxPerUser))
    ((tables.survivors ownerId).drop ((tables.survivors ownerId).length + 1 - config.maxPerUser))
  refine ⟨_, shortest_room hMax hShortest, ?_⟩
  rw [← List.take_add] at hLoop
  rw [evictFor, countLoop_eq hMax]
  simp only [List.nil_append, hLoop]
  split
  · rename_i hNone
    rw [hNone, List.map_nil, delete_nil]
  · rfl

end FixedTables

section Deleting

variable {config : CollectionConfig} {tables : FixedTables} {ownerId : Text} {incoming k : Nat}
  {row other : CollectionRow} {ids : List Text}

theorem WellKept.eq_of_id (hKept : WellKept tables) (hRow : row ∈ tables.collections)
    (hOther : other ∈ tables.collections) (hId : row.id = other.id) : row = other :=
  List.inj_on_of_nodup_map hKept.ids hRow hOther hId

theorem mem_collections_delete :
    row ∈ (tables.delete ids).collections ↔ row ∈ tables.collections ∧ row.id ∉ ids := by
  simp [FixedTables.delete]

theorem mem_records_delete {record : RecordRow} :
    record ∈ (tables.delete ids).records ↔
      record ∈ tables.records ∧ record.collectionId ∉ ids := by
  simp [FixedTables.delete]

/-- The records of a collection that stays are all there. -/
theorem recordsOf_delete {id : Text} (hStays : id ∉ ids) :
    (tables.delete ids).recordsOf id = tables.recordsOf id := by
  unfold FixedTables.recordsOf FixedTables.delete
  rw [List.filter_filter]
  refine List.filter_congr fun record _ => ?_
  by_cases hId : record.collectionId = id
  · simp [hId, hStays]
  · simp [hId]

theorem WellKept.delete (hKept : WellKept tables) (ids : List Text) :
    WellKept (tables.delete ids) where
  ids := hKept.ids.sublist (List.filter_sublist.map _)
  positions row hRow := by
    obtain ⟨hHere, hStays⟩ := mem_collections_delete.mp hRow
    rw [recordsOf_delete hStays]
    exact hKept.positions row hHere
  owned record hRecord := by
    obtain ⟨hHere, hStays⟩ := mem_records_delete.mp hRecord
    obtain ⟨row, hRow, hId⟩ := hKept.owned record hHere
    exact ⟨row, mem_collections_delete.mpr ⟨hRow, hId ▸ hStays⟩, hId⟩

/-- Without the first ones, told by a key of their own, the others are left. -/
theorem filter_not_take {α β : Type} [BEq β] [LawfulBEq β] (key : α → β) {l : List α}
    (hNodup : (l.map key).Nodup) (k : Nat) :
    (l.filter fun x => !((l.take k).map key).contains (key x)) = l.drop k := by
  have hSplit : (l.take k ++ l.drop k).map key = (l.take k).map key ++ (l.drop k).map key :=
    List.map_append
  rw [List.take_append_drop] at hSplit
  rw [hSplit] at hNodup
  have hApart := (List.nodup_append.mp hNodup).2.2
  have hFront : (l.take k).filter (fun x => !((l.take k).map key).contains (key x)) = [] := by
    rw [List.filter_eq_nil_iff]
    intro x hMem
    have hIn : key x ∈ (l.take k).map key := List.mem_map_of_mem hMem
    simp only [List.contains_iff_mem.mpr hIn, Bool.not_true, Bool.false_eq_true, not_false_eq_true]
  have hBack : (l.drop k).filter (fun x => !((l.take k).map key).contains (key x)) =
      l.drop k := by
    rw [List.filter_eq_self]
    intro x hMem
    have hNot : key x ∉ (l.take k).map key := fun hIn =>
      hApart (key x) hIn (key x) (List.mem_map_of_mem hMem) rfl
    simpa using hNot
  conv => lhs; arg 2; rw [← List.take_append_drop k l]
  rw [List.filter_append, hFront, hBack, List.nil_append]

end Deleting

/-! ## The quotas of one owner -/

/-- Within both quotas, or one collection that is larger than the bytes allow. -/
def Within (config : CollectionConfig) (rows : List CollectionRow) : Prop :=
  rows.length ≤ config.maxPerUser ∧
    (totalBytes rows ≤ config.maxBytesPerUser ∨ rows.length = 1)

section Owners

variable {config : CollectionConfig} {tables : FixedTables} {ownerId other : Text}
  {incoming k : Nat} {rows fewer : List CollectionRow}

theorem totalBytes_perm (hPerm : rows.Perm fewer) : totalBytes rows = totalBytes fewer :=
  (hPerm.map _).sum_eq

theorem Within.sublist (hWithin : Within config rows) (hSub : fewer.Sublist rows) :
    Within config fewer := by
  have hLength := hSub.length_le
  have hBytes : totalBytes fewer ≤ totalBytes rows := (hSub.map _).sum_le_sum (by simp)
  refine ⟨hLength.trans hWithin.1, ?_⟩
  rcases hWithin.2 with hFits | hOne
  · exact .inl (hBytes.trans hFits)
  · cases fewer with
    | nil => exact .inl (Nat.zero_le _)
    | cons first rest =>
        refine .inr ?_
        rw [List.length_cons] at hLength ⊢
        omega

theorem owned_delete (ids : List Text) :
    ((tables.delete ids).owned ownerId).Sublist (tables.owned ownerId) :=
  List.filter_sublist.filter _

/-- After an eviction the owner has what is left of the collections that were in order. -/
theorem owned_evicted (hKept : WellKept tables) (ownerId : Text) (k : Nat) :
    ((tables.delete (((tables.survivors ownerId).take k).map fun row => row.id)).owned
      ownerId).Perm ((tables.survivors ownerId).drop k) := by
  have hNodup : ((tables.survivors ownerId).map fun row => row.id).Nodup :=
    ((FixedTables.survivors_perm.map _).nodup_iff).mpr
      (hKept.ids.sublist (List.filter_sublist.map _))
  rw [← filter_not_take (fun row : CollectionRow => row.id) hNodup k]
  have hSwap : (tables.delete (((tables.survivors ownerId).take k).map fun row => row.id)).owned
      ownerId = (tables.owned ownerId).filter fun row =>
        !(((tables.survivors ownerId).take k).map fun row => row.id).contains row.id := by
    rw [FixedTables.owned, FixedTables.delete, FixedTables.owned, List.filter_filter,
      List.filter_filter]
    exact List.filter_congr fun row _ => Bool.and_comm _ _
  rw [hSwap]
  exact (FixedTables.survivors_perm.filter _).symm

/-- A new collection, after the eviction for it. -/
theorem Within.newcomer (row : CollectionRow)
    (hShortest : Shortest (Room config incoming) rows k) (hMax : 1 ≤ config.maxPerUser) (hLeft : fewer.Perm (rows.drop k))
    (hSize : row.byteSize = incoming) : Within config (fewer ++ [row]) := by
  have hLength := hLeft.length_eq
  have hBytes := totalBytes_perm hLeft
  have hSum : totalBytes (fewer ++ [row]) = totalBytes fewer + incoming := by
    simp [totalBytes, hSize]
  rw [Within, hSum, List.length_append, List.length_singleton]
  rcases hShortest.enough with ⟨hCount, hFits⟩ | hAll
  · omega
  · rw [List.length_drop, hAll, Nat.sub_self] at hLength
    omega

end Owners

/-! ## Writing -/

section Writing

variable {tables : FixedTables} {id other tag : Text} {records : List Payload} {position : Nat}

/-- The positions that a batch is written under. -/
theorem positions_batch (id tag : Text) (records : List Payload) (position : Nat) :
    (records.zipIdx.map fun (payload, index) =>
      ({ collectionId := id, source := tag, position := position + index, payload } :
        RecordRow)).map RecordRow.position =
      (List.range records.length).map (position + ·) := by
  rw [List.map_map]
  have hSnd := List.zipIdx_map_snd 0 records
  rw [← List.range_eq_range'] at hSnd
  rw [← hSnd, List.map_map]
  rfl

theorem recordsOf_addRecords_self :
    (tables.addRecords id records tag position).recordsOf id = tables.recordsOf id ++
      records.zipIdx.map fun (payload, index) =>
        { collectionId := id, source := tag, position := position + index, payload } := by
  rw [FixedTables.recordsOf, FixedTables.addRecords, List.filter_append]
  congr 1
  rw [List.filter_eq_self]
  intro record hMem
  obtain ⟨pair, -, rfl⟩ := List.mem_map.mp hMem
  simp

theorem recordsOf_addRecords_other (hOther : other ≠ id) :
    (tables.addRecords id records tag position).recordsOf other = tables.recordsOf other := by
  rw [FixedTables.recordsOf, FixedTables.addRecords, List.filter_append]
  have hNone : (records.zipIdx.map fun (payload, index) =>
      ({ collectionId := id, source := tag, position := position + index, payload } :
        RecordRow)).filter (fun record => record.collectionId == other) = [] := by
    rw [List.filter_eq_nil_iff]
    intro record hMem
    obtain ⟨pair, -, rfl⟩ := List.mem_map.mp hMem
    simpa using hOther.symm
  rw [hNone, List.append_nil]
  rfl

/-- A batch behind as many records as there are positions continues the positions. -/
theorem positions_addRecords (hPositions : (tables.recordsOf id).map RecordRow.position =
      List.range position) :
    ((tables.addRecords id records tag position).recordsOf id).map RecordRow.position =
      List.range (position + records.length) := by
  rw [recordsOf_addRecords_self, List.map_append, hPositions, positions_batch, List.range_add]

end Writing

/-! ## What a call keeps -/

section Calls

variable {config : CollectionConfig} {tables : FixedTables} {row fresh : CollectionRow}
  {ownerId id tag : Text} {records : List Payload}

theorem liveRow_mem {now : Nat} (hLive : tables.liveRow ownerId id now = .ok row) :
    row ∈ tables.collections ∧ row.ownerId = ownerId := by
  unfold FixedTables.liveRow at hLive
  split at hLive
  · cases hLive
  · rename_i found hFound
    split at hLive
    · cases hLive
    · rename_i hOwner
      obtain rfl := Except.ok.inj hLive
      refine ⟨List.mem_of_find?_eq_some hFound, ?_⟩
      by_contra hNot
      exact hOwner (by simp [hNot])

theorem addRecords_nil (id tag : Text) (position : Nat) :
    tables.addRecords id [] tag position = tables := by simp [FixedTables.addRecords]

theorem mem_records_addRecords {position : Nat} {record : RecordRow}
    (hRecord : record ∈ (tables.addRecords id records tag position).records) :
    record ∈ tables.records ∨ record.collectionId = id := by
  rcases List.mem_append.mp hRecord with hOld | hNew
  · exact .inl hOld
  · obtain ⟨pair, -, rfl⟩ := List.mem_map.mp hNew
    exact .inr rfl

theorem ids_update (tables : FixedTables) (fresh : CollectionRow) :
    (tables.update fresh).collections.map (fun row => row.id) =
      tables.collections.map fun row => row.id := by
  rw [FixedTables.update, List.map_map]
  refine List.map_congr_left fun other _ => ?_
  by_cases hId : other.id = fresh.id <;> simp [hId]

theorem owned_added (tables : FixedTables) (row : CollectionRow) (id : Text)
    (records : List Payload) (tag : Text) (position : Nat) (ownerId : Text) :
    ({ tables with collections := tables.collections ++ [row] }.addRecords id records tag
      position).owned ownerId =
      tables.owned ownerId ++ if row.ownerId = ownerId then [row] else [] := by
  show (tables.collections ++ [row]).filter _ = _
  rw [List.filter_append, FixedTables.owned]
  by_cases hMine : row.ownerId = ownerId <;> simp [hMine]

/-- A row with a batch more, or with none. -/
theorem WellKept.rewrite (hKept : WellKept tables) (hRow : row ∈ tables.collections)
    (hId : fresh.id = row.id) (hCount : fresh.recordCount = row.recordCount + records.length) :
    WellKept ((tables.addRecords row.id records tag row.recordCount).update fresh) where
  ids := by
    rw [ids_update]
    exact hKept.ids
  positions found hFound := by
    obtain ⟨other, hOther, rfl⟩ := List.mem_map.mp hFound
    show ((tables.addRecords row.id records tag row.recordCount).recordsOf _).map _ = _
    by_cases hSame : other.id = fresh.id
    · rw [if_pos hSame, hId, hCount]
      exact positions_addRecords (hKept.positions row hRow)
    · rw [if_neg hSame, recordsOf_addRecords_other (hId ▸ hSame)]
      exact hKept.positions other hOther
  owned record hRecord := by
    have hHave : ∃ other ∈ tables.collections, other.id = record.collectionId := by
      rcases mem_records_addRecords hRecord with hOld | hNew
      · exact hKept.owned record hOld
      · exact ⟨row, hRow, hNew.symm⟩
    obtain ⟨other, hOther, hIs⟩ := hHave
    have hIn : record.collectionId ∈ (tables.update fresh).collections.map fun row => row.id := by
      rw [ids_update]
      exact List.mem_map.mpr ⟨other, hOther, hIs⟩
    exact List.mem_map.mp hIn

theorem WellKept.added (hKept : WellKept tables) (hFresh : ∀ row ∈ tables.collections, row.id ≠ id)
    (hId : row.id = id) (hCount : row.recordCount = records.length) :
    WellKept ({ tables with collections := tables.collections ++ [row] }.addRecords id records
      tag 0) where
  ids := by
    show ((tables.collections ++ [row]).map fun row => row.id).Nodup
    rw [List.map_append, List.map_singleton, List.nodup_append]
    refine ⟨hKept.ids, List.nodup_singleton _, ?_⟩
    intro taken hTaken new hNew
    obtain ⟨other, hOther, rfl⟩ := List.mem_map.mp hTaken
    obtain rfl := List.mem_singleton.mp hNew
    exact hId ▸ hFresh other hOther
  positions found hFound := by
    rcases List.mem_append.mp hFound with hOld | hNew
    · rw [recordsOf_addRecords_other (hFresh found hOld)]
      exact hKept.positions found hOld
    · obtain rfl := List.mem_singleton.mp hNew
      have hNone : tables.recordsOf id = [] := by
        rw [FixedTables.recordsOf, List.filter_eq_nil_iff]
        intro record hRecord hIs
        obtain ⟨other, hOther, hOf⟩ := hKept.owned record hRecord
        exact hFresh other hOther (hOf.trans (by simpa using hIs))
      rw [hId, hCount]
      refine (positions_addRecords ?_).trans (by rw [Nat.zero_add])
      show (tables.recordsOf id).map _ = _
      rw [hNone]
      rfl
  owned record hRecord := by
    rcases mem_records_addRecords hRecord with hOld | hNew
    · obtain ⟨other, hOther, hIs⟩ := hKept.owned record hOld
      exact ⟨other, List.mem_append_left _ hOther, hIs⟩
    · exact ⟨row, List.mem_append_right _ (List.mem_singleton_self row), hId.trans hNew.symm⟩

/-- The rows of an owner, with one of them replaced. -/
theorem owned_update (hKept : WellKept tables) (hRow : row ∈ tables.collections)
    (hId : fresh.id = row.id) (hOwner : fresh.ownerId = row.ownerId) (ownerId : Text) :
    (tables.update fresh).owned ownerId =
      (tables.owned ownerId).map fun other => if other.id = fresh.id then fresh else other := by
  rw [FixedTables.owned, FixedTables.update, List.filter_map, FixedTables.owned]
  congr 1
  refine List.filter_congr fun other hOther => ?_
  by_cases hSame : other.id = fresh.id
  · obtain rfl := hKept.eq_of_id hOther hRow (hSame.trans hId)
    simp [hSame, hOwner]
  · simp [hSame]

theorem totalBytes_replace {rows : List CollectionRow} (fresh : CollectionRow) (more : Nat)
    (hNodup : (rows.map fun row => row.id).Nodup)
    (hSize : ∀ other ∈ rows, other.id = fresh.id → fresh.byteSize = other.byteSize + more) :
    totalBytes (rows.map fun other => if other.id = fresh.id then fresh else other) ≤
      totalBytes rows + more := by
  induction rows with
  | nil => simp [totalBytes]
  | cons first rest ih =>
      rw [List.map_cons, List.nodup_cons] at hNodup
      rw [List.map_cons, totalBytes_cons, totalBytes_cons]
      by_cases hSame : first.id = fresh.id
      · have hRest : (rest.map fun other => if other.id = fresh.id then fresh else other) =
            rest := by
          refine (List.map_congr_left fun other hOther => ?_).trans (List.map_id rest)
          rw [if_neg fun hIs => hNodup.1 (List.mem_map.mpr ⟨other, hOther, hIs.trans hSame.symm⟩)]
          rfl
        have hFirst := hSize first List.mem_cons_self hSame
        rw [hRest, if_pos hSame]
        omega
      · have hRest := ih hNodup.2 fun other hOther => hSize other (List.mem_cons_of_mem _ hOther)
        rw [if_neg hSame]
        omega

theorem within_rewrite (fresh : CollectionRow) (more : Nat) (hKept : WellKept tables)
    (hWithin : ∀ ownerId, Within config (tables.owned ownerId)) (hRow : row ∈ tables.collections)
    (hId : fresh.id = row.id) (hOwner : fresh.ownerId = row.ownerId)
    (hSize : fresh.byteSize = row.byteSize + more)
    (hFits : more = 0 ∨ totalBytes (tables.owned row.ownerId) + more ≤ config.maxBytesPerUser)
    (ownerId : Text) : Within config ((tables.update fresh).owned ownerId) := by
  have hNodup : ((tables.owned ownerId).map fun row => row.id).Nodup :=
    hKept.ids.sublist (List.filter_sublist.map _)
  have hIs : ∀ other ∈ tables.owned ownerId, other.id = fresh.id → other = row :=
    fun other hOther hSame => hKept.eq_of_id (List.mem_of_mem_filter hOther) hRow (hSame.trans hId)
  have hBytes : totalBytes ((tables.update fresh).owned ownerId) ≤ totalBytes (tables.owned ownerId) ∨
      totalBytes ((tables.update fresh).owned ownerId) ≤ config.maxBytesPerUser := by
    rw [owned_update hKept hRow hId hOwner]
    by_cases hMine : row.ownerId = ownerId
    · have hGrown := totalBytes_replace fresh more hNodup fun other hOther hSame =>
        (hIs other hOther hSame).symm ▸ hSize
      subst hMine
      omega
    · refine .inl (totalBytes_replace fresh 0 hNodup fun other hOther hSame => ?_)
      have hOther' := (List.mem_filter.mp hOther).2
      rw [hIs other hOther hSame] at hOther'
      exact absurd (by simpa using hOther') hMine
  have hLength : ((tables.update fresh).owned ownerId).length = (tables.owned ownerId).length := by
    rw [owned_update hKept hRow hId hOwner, List.length_map]
  obtain ⟨hCount, hFitsOrOne⟩ := hWithin ownerId
  exact ⟨hLength ▸ hCount, by omega⟩

/-! ## Every call -/

/-- Every owner is within the quotas, over tables that are well kept. -/
structure Kept (config : CollectionConfig) (tables : FixedTables) : Prop where
  wellKept : WellKept tables
  within : ∀ ownerId, Within config (tables.owned ownerId)

theorem Kept.delete (hKept : Kept config tables) (ids : List Text) :
    Kept config (tables.delete ids) where
  wellKept := hKept.wellKept.delete ids
  within ownerId := (hKept.within ownerId).sublist (owned_delete ids)

theorem Kept.create {new : NewCollection} {expiresAt now : Nat} {written : FixedTables}
    (hMax : 1 ≤ config.maxPerUser) (hKept : Kept config tables)
    (hRun : tables.create config id new expiresAt now = .ok written) : Kept config written := by
  obtain ⟨k, hShortest, hEvict⟩ :=
    FixedTables.evictFor_eq hMax tables new.ownerId new.byteSize
  unfold FixedTables.create at hRun
  rw [hEvict] at hRun
  simp only at hRun
  split at hRun
  · cases hRun
  · rename_i hNew
    obtain rfl := Except.ok.inj hRun
    have hEvicted := hKept.delete (((tables.survivors new.ownerId).take k).map fun row => row.id)
    refine ⟨hEvicted.wellKept.added ?_ rfl rfl, fun ownerId => ?_⟩
    · intro row hRow hId
      exact hNew (List.any_eq_true.mpr ⟨row, hRow, by simpa using hId⟩)
    · rw [owned_added]
      by_cases hMine : (FixedTables.newCollection id new expiresAt now).ownerId = ownerId
      · rw [if_pos hMine, ← hMine]
        exact Within.newcomer _ hShortest hMax (owned_evicted hKept.wellKept new.ownerId k) rfl
      · rw [if_neg hMine, List.append_nil]
        exact hEvicted.within ownerId

theorem Kept.append {schema : Node} {byteSize expiresAt now touched : Nat} {written : FixedTables}
    (hKept : Kept config tables)
    (hRun : tables.append config ownerId id records tag schema byteSize expiresAt now touched =
      .ok written) : Kept config written := by
  unfold FixedTables.append at hRun
  split at hRun
  · cases hRun
  · rename_i hFits
    obtain ⟨row, hLive, hRun⟩ := bind_eq_ok.mp hRun
    obtain rfl := Except.ok.inj hRun
    obtain ⟨hRow, rfl⟩ := liveRow_mem hLive
    refine ⟨hKept.wellKept.rewrite hRow rfl rfl, ?_⟩
    intro owner
    exact within_rewrite (FixedTables.grown row records.length schema byteSize expiresAt touched)
      byteSize hKept.wellKept hKept.within hRow rfl rfl rfl (.inr (by omega)) owner

theorem Kept.markTruncated {now touched : Nat} {written : FixedTables}
    (hKept : Kept config tables)
    (hRun : tables.markTruncated ownerId id now touched = .ok written) : Kept config written := by
  obtain ⟨row, hLive, hRun⟩ := bind_eq_ok.mp hRun
  obtain rfl := Except.ok.inj hRun
  obtain ⟨hRow, rfl⟩ := liveRow_mem hLive
  split
  · exact hKept
  · let marked : CollectionRow := { row with truncated := true, updatedAt := touched }
    have hWritten : WellKept ((tables.addRecords row.id [] [] row.recordCount).update marked) :=
      hKept.wellKept.rewrite hRow rfl rfl
    rw [addRecords_nil] at hWritten
    refine ⟨hWritten, fun owner => ?_⟩
    exact within_rewrite marked 0 hKept.wellKept hKept.within hRow rfl rfl rfl (.inl rfl) owner

theorem Kept.deleteExpired (hKept : Kept config tables) (now : Nat) :
    Kept config (tables.deleteExpired now) := by
  unfold FixedTables.deleteExpired
  split
  · exact hKept
  · exact hKept.delete _

theorem Kept.after (hMax : 1 ≤ config.maxPerUser) (hKept : Kept config tables)
    (call : StoreCall) : Kept config (call.after config tables) := by
  unfold StoreCall.after
  split
  · exact hKept
  · rename_i written hRun
    cases call with
    | create => exact hKept.create hMax hRun
    | append => exact hKept.append hRun
    | markTruncated => exact hKept.markTruncated hRun
    | deleteExpired now =>
        obtain rfl := Except.ok.inj hRun
        exact hKept.deleteExpired now

theorem kept_history (hMax : 1 ≤ config.maxPerUser) (calls : List StoreCall) :
    Kept config (history config calls) := by
  unfold history
  induction calls using List.reverseRecOn with
  | nil =>
      refine ⟨⟨List.nodup_nil, ?_, ?_⟩, fun ownerId => ⟨Nat.zero_le _, .inl (Nat.zero_le _)⟩⟩
      · rintro row ⟨⟩
      · rintro record ⟨⟩
  | append_singleton before call ih =>
      rw [List.foldl_append]
      exact ih.after hMax call

theorem survivors_sorted (tables : FixedTables) (ownerId : Text) :
    (tables.survivors ownerId).Pairwise fun row other => row.key ≤ other.key := by
  have hTotal : Std.Total fun row other : CollectionRow => row.key ≤ other.key :=
    ⟨fun row other => le_total row.key other.key⟩
  have hTrans : IsTrans CollectionRow fun row other => row.key ≤ other.key :=
    ⟨fun _ _ _ => le_trans⟩
  exact List.pairwise_insertionSort _ _

/-- What an eviction of well kept tables deletes: the first of the owner's collections, and the
records of these. -/
theorem evicted_iff (hKept : WellKept tables) (ownerId : Text) (k : Nat) :
    let doomed := (tables.survivors ownerId).take k
    let evicted := tables.delete (doomed.map fun row => row.id)
    (∀ row, row ∈ evicted.collections ↔ row ∈ tables.collections ∧ row ∉ doomed) ∧
      ∀ record, record ∈ evicted.records ↔
        record ∈ tables.records ∧ ∀ row ∈ doomed, row.id ≠ record.collectionId := by
  refine ⟨fun row => ?_, fun record => ?_⟩
  · rw [mem_collections_delete]
    refine and_congr_right fun hRow => not_congr ?_
    constructor
    · intro hId
      obtain ⟨other, hOther, hSame⟩ := List.mem_map.mp hId
      have hIn := (FixedTables.mem_survivors.mp (List.mem_of_mem_take hOther)).1
      exact hKept.eq_of_id hIn hRow hSame ▸ hOther
    · exact fun hDoomed => List.mem_map_of_mem hDoomed
  · rw [mem_records_delete, List.mem_map]
    simp only [not_exists, not_and, ne_eq]

/-- After every serial history the quotas of every owner hold, the positions of a collection count
its records, and no record has outlived its collection.  `_evict_for` deletes the shortest prefix
that makes room for the newcomer, and an append that raises changes nothing. -/
theorem quotas_hold (hMax : 1 ≤ config.maxPerUser) (calls : List StoreCall) :
    let tables := history config calls
    (∀ ownerId, (tables.owned ownerId).length ≤ config.maxPerUser ∧
      (totalBytes (tables.owned ownerId) ≤ config.maxBytesPerUser ∨
        (tables.owned ownerId).length = 1)) ∧
    (∀ row ∈ tables.collections,
      (tables.recordsOf row.id).map RecordRow.position = List.range row.recordCount) ∧
    (∀ record ∈ tables.records, ∃ row ∈ tables.collections, row.id = record.collectionId) ∧
    (∀ ownerId incoming,
      (tables.survivors ownerId).Perm (tables.owned ownerId) ∧
      ((tables.survivors ownerId).Pairwise fun row other => row.key ≤ other.key) ∧
      ∃ k evicted, Shortest (Room config incoming) (tables.survivors ownerId) k ∧
        tables.evictFor config ownerId incoming = some evicted ∧
        (∀ row, row ∈ evicted.collections ↔
          row ∈ tables.collections ∧ row ∉ (tables.survivors ownerId).take k) ∧
        ∀ record, record ∈ evicted.records ↔ record ∈ tables.records ∧
          ∀ row ∈ (tables.survivors ownerId).take k, row.id ≠ record.collectionId) ∧
    ∀ ownerId id records tag schema byteSize expiresAt now touched refused,
      tables.append config ownerId id records tag schema byteSize expiresAt now touched =
        .error refused →
      (StoreCall.append ownerId id records tag schema byteSize expiresAt now touched).after config
        tables = tables := by
  intro tables
  have hKept : Kept config tables := kept_history hMax calls
  refine ⟨hKept.within, hKept.wellKept.positions, hKept.wellKept.owned, ?_, ?_⟩
  · intro ownerId incoming
    obtain ⟨k, hShortest, hEvict⟩ := FixedTables.evictFor_eq hMax tables ownerId incoming
    obtain ⟨hCollections, hRecords⟩ := evicted_iff hKept.wellKept ownerId k
    exact ⟨FixedTables.survivors_perm, survivors_sorted tables ownerId, k, _, hShortest, hEvict,
      hCollections, hRecords⟩
  · intro ownerId id records tag schema byteSize expiresAt now touched refused hRun
    rw [StoreCall.after, StoreCall.run, hRun]

end Calls

/-! ## One collection at a time -/

def largeBody : NewCollection where
  ownerId := "u".toList
  label := []
  kind := .json
  source := []
  schema := .leaf .null
  envelope := []
  records := [[], []]
  tag := []
  byteSize := 7
  truncated := false

/-- The second of two collections takes the place of the first, though it is too large itself. -/
theorem quotas_hold_of_two :
    ((history { maxPerUser := 1, maxBytesPerUser := 5 }
      [.create ['a'] largeBody 9 0, .create ['b'] largeBody 9 1]).owned ['u']).length ≤ 1 :=
  ((quotas_hold (by decide) [.create ['a'] largeBody 9 0, .create ['b'] largeBody 9 1]).1 ['u']).1

end Collections
end OctoForge
