import OctoForge.Mcp.Mirror

/-!
# The mirror converges

After a sync the records of a server are those of its tools, and nothing else in the store has
changed.  What the database takes for the start of a title decides which records are deleted.
-/

namespace OctoForge
namespace Instructions

variable {table table' : Table} {model : String} {uuid : InstructionId} {vector : Option Embedding}
  {row : InstructionRow}

/-- The slot has a record with the content that the registry does not own, and the records of
the other slots are as they were. -/
def SavedAs (slot : Slot) (content : String) (before after : Table) : Prop :=
  (∃ row ∈ after.rows, row.slot = slot ∧ row.content = content ∧ row.system = false) ∧
    ∀ row, row.slot ≠ slot → (row ∈ after.rows ↔ row ∈ before.rows)

theorem savedAs_refl (hRow : row ∈ table.rows) (hSystem : row.system = false) :
    SavedAs row.slot row.content table table :=
  ⟨⟨row, hRow, rfl, rfl, hSystem⟩, fun _ _ => Iff.rfl⟩

theorem savedAs_update {draft : InstructionDraft} (hRow : row ∈ table.rows)
    (hSystem : draft.system = false) :
    SavedAs row.slot draft.content table (table.update row.id (Edit.ofDraft row draft)) := by
  have hChanged : ∀ {α : Type} [DecidableEq α] (loaded new : α),
      (changed loaded new).getD loaded = new := by
    intro α _ loaded new
    unfold changed
    split
    · rename_i hSame
      exact hSame.symm
    · rfl
  constructor
  · refine ⟨(Edit.ofDraft row draft).apply row, List.mem_map.mpr ⟨row, hRow, if_pos rfl⟩, rfl,
      hChanged row.content draft.content, ?_⟩
    exact (hChanged row.system draft.system).trans hSystem
  · intro other hSlot
    have hOther : ∀ {old}, old ∈ table.rows → old.id = row.id → old.slot ≠ other.slot := by
      intro old hOld hId hSame
      obtain rfl := Table.eq_of_id hOld hRow hId
      exact hSlot hSame.symm
    constructor
    · intro hMem
      obtain ⟨old, hOld, hEdited⟩ := List.mem_map.mp hMem
      split at hEdited
      · rename_i hId
        exact absurd (by rw [← hEdited]; rfl) (hOther hOld hId)
      · rwa [← hEdited]
    · intro hMem
      exact List.mem_map.mpr ⟨other, hMem, if_neg fun hId => hOther hMem hId rfl⟩

theorem savedAs_insert {new : InstructionRow} (hInsert : table.insert new = some table')
    (hSystem : new.system = false) : SavedAs new.slot new.content table table' := by
  have hRows : table'.rows = table.rows ++ [new] := by
    unfold Table.insert at hInsert
    split at hInsert
    · cases hInsert
    · split at hInsert
      · cases hInsert
      · rw [← Option.some.inj hInsert]
  refine ⟨⟨new, by simp [hRows], rfl, rfl, hSystem⟩, fun other hSlot => ?_⟩
  have hOther : other ≠ new := fun hSame => hSlot (by rw [hSame])
  simp [hRows, hOther]

namespace InstructionService

variable {kind : InstructionType} {title content : String} {tags : List String}

/-- What a draft of `save_public` does to the table when it is not refused. -/
theorem finish_embedding {draft : InstructionDraft} (hSystem : draft.system = false)
    (hDone : finish model uuid vector 5 (.embedding draft true) table = (.returned, table')) :
    SavedAs draft.slot draft.content table table' := by
  obtain ⟨embedding, hEmbed⟩ : ∃ embedding,
      finish model uuid vector 5 (.embedding draft true) table =
        finish model uuid vector 4 (.finding (draft.embed embedding model)) table := by
    cases vector with
    | none => exact ⟨[], rfl⟩
    | some embedding => exact ⟨embedding, rfl⟩
  rw [hEmbed] at hDone
  have hSlot : (draft.embed embedding model).slot = draft.slot := rfl
  cases hFound : table.findRow draft.slot with
  | some existing =>
      obtain ⟨hRow, hSame⟩ := Table.findRow_eq_some.mp hFound
      have hById : ∃ found, table.byId existing.id = some found :=
        Option.isSome_iff_exists.mp (List.find?_isSome.mpr ⟨existing, hRow, by simp⟩)
      obtain ⟨found, hById⟩ := hById
      simp only [finish, next, hSlot, hFound, hById] at hDone
      obtain ⟨-, rfl⟩ := Prod.mk.inj hDone
      have hSystem' : (draft.embed embedding model).system = false := hSystem
      rw [← hSame]
      exact savedAs_update hRow hSystem'
  | none =>
      cases hInsert : table.insert ((draft.embed embedding model).toRow uuid) with
      | some inserted =>
          simp only [finish, next, hSlot, hFound, hInsert] at hDone
          obtain ⟨-, rfl⟩ := Prod.mk.inj hDone
          exact savedAs_insert hInsert hSystem
      | none =>
          simp only [finish, next, hSlot, hFound, hInsert] at hDone
          cases hDone

/-- A `save_public` that has returned. -/
theorem finish_savePublic
    (hDone : finish model uuid vector maxSteps (.called (.savePublic kind title content tags))
      table = (.returned, table')) : SavedAs (publicSlot kind title) content table table' := by
  have hBegin : finish model uuid vector maxSteps (.called (.savePublic kind title content tags))
      table = finish model uuid vector 5 (table.beginSavePublic kind title content tags) table :=
    rfl
  rw [hBegin, Table.beginSavePublic] at hDone
  cases hFound : table.findRow (publicSlot kind title) with
  | none =>
      rw [hFound] at hDone
      exact finish_embedding rfl hDone
  | some existing =>
      simp only [hFound] at hDone
      obtain ⟨hRow, hSlot⟩ := Table.findRow_eq_some.mp hFound
      split at hDone
      · cases hDone
      · rename_i hSystem
        split at hDone
        · rename_i hSame
          obtain ⟨-, rfl⟩ := Prod.mk.inj hDone
          rw [← hSlot, ← hSame.1]
          exact savedAs_refl hRow (by simpa using hSystem)
        · exact finish_embedding rfl hDone

/-- A `save_public` is refused where the registry owns the record. -/
theorem system_of_finish_savePublic
    (hDone : finish model uuid vector maxSteps (.called (.savePublic kind title content tags))
      table = (.returned, table')) (hRow : row ∈ table.rows)
    (hSlot : row.slot = publicSlot kind title) : row.system = false := by
  have hBegin : finish model uuid vector maxSteps (.called (.savePublic kind title content tags))
      table = finish model uuid vector 5 (table.beginSavePublic kind title content tags) table :=
    rfl
  have hFound : table.findRow (publicSlot kind title) = some row :=
    Table.findRow_eq_some.mpr ⟨hRow, hSlot⟩
  rw [hBegin, Table.beginSavePublic] at hDone
  simp only [hFound] at hDone
  split at hDone
  · cases hDone
  · rename_i hSystem
    simpa using hSystem

/-- A `delete_public` that has returned: the record with that id is gone. -/
theorem finish_deletePublic {id : InstructionId}
    (hDone : finish model uuid vector maxSteps (.called (.deletePublic id)) table =
      (.returned, table')) :
    ∃ record ∈ table.rows, record.id = id ∧
      ∀ row, row ∈ table'.rows ↔ row ∈ table.rows ∧ row.slot ≠ record.slot := by
  have hBegin : finish model uuid vector maxSteps (.called (.deletePublic id)) table =
      finish model uuid vector 5 (table.beginDeletePublic id) table := rfl
  rw [hBegin, Table.beginDeletePublic] at hDone
  cases hFound : table.byId id with
  | none =>
      rw [hFound] at hDone
      cases hDone
  | some record =>
      obtain ⟨hRow, hId⟩ := Table.byId_eq_some.mp hFound
      simp only [hFound] at hDone
      split at hDone
      · cases hDone
      · split at hDone
        · cases hDone
        · have hTable : table' = table.delete fun row => row.slot = record.slot := by
            by_cases hAny : (table.rows.any fun row => row.slot = record.slot) = true
            · simp only [finish, next, Table.deleteWhere, hAny, if_true] at hDone
              exact (Prod.mk.inj hDone).2.symm
            · simp only [finish, next, Table.deleteWhere, hAny] at hDone
              exact (Prod.mk.inj hDone).2.symm
          refine ⟨record, hRow, hId, fun row => ?_⟩
          rw [hTable, Table.delete, List.mem_filter]
          simp

end InstructionService
end Instructions

namespace Mcp

open Instructions

variable {outside : Outside} {server : McpServer} {serverName : String} {secret : Option String}
  {tools : List McpToolDescriptor} {table : Table} {sweep swept : Sweep} {row : InstructionRow}

/-- The slot of a tool. -/
def mirrorSlot (serverName toolName : String) : Slot :=
  publicSlot .endpoint (mirrorTitle serverName toolName)

/-- The public records of endpoints that the registry does not own. -/
def IsMirrored (row : InstructionRow) : Prop :=
  row.slot.kind = .endpoint ∧ row.slot.ownerId = none ∧ row.system = false

/-- Those that are titled under the server. -/
def InMirror (serverName : String) (row : InstructionRow) : Prop :=
  IsMirrored row ∧ (mirrorStart serverName).toList <+: row.slot.title.toList

/-- The descriptor is the last one of its name. -/
def LastNamed (tool : McpToolDescriptor) (tools : List McpToolDescriptor) : Prop :=
  ∃ before after, tools = before ++ tool :: after ∧ ∀ other ∈ after, other.name ≠ tool.name

/-- The records of a server are those of its tools, and the others are as they were. -/
structure Mirrors (serverName : String) (tools : List McpToolDescriptor)
    (before after : Table) : Prop where
  /-- A name has one record, with the content of its last descriptor. -/
  exact : ∀ tool, LastNamed tool tools → ∃ row ∈ after.rows, InMirror serverName row ∧
    row.slot.title = mirrorTitle serverName tool.name ∧
    row.content = mirrorContent serverName tool ∧
    ∀ other ∈ after.rows, InMirror serverName other → other.slot.title = row.slot.title →
      other = row
  only : ∀ row ∈ after.rows, InMirror serverName row →
    ∃ tool ∈ tools, row.slot.title = mirrorTitle serverName tool.name
  others : ∀ row, ¬InMirror serverName row → (row ∈ after.rows ↔ row ∈ before.rows)

/-- A sync that is given the same tools writes nothing. -/
def Settled (outside : Outside) (server : McpServer) (tools : List McpToolDescriptor)
    (stores : Stores) : Prop :=
  ∀ again : Outside, again.fold = outside.fold → ∀ secret,
    again.listing server secret = .ok tools →
      (again.sweep server.name tools stores.instructions).2.asked = [] ∧
        (again.syncServer server secret stores).1 =
          .ok { toolNames := tools.map (·.name), updated := 0, removed := 0 } ∧
        (again.syncServer server secret stores).2.instructions = stores.instructions

/-! ## The two dictionaries -/

theorem mirrorTitle_injective {toolName toolName' : String}
    (hSame : mirrorTitle serverName toolName = mirrorTitle serverName toolName') :
    toolName = toolName' := by
  have hLists : (mirrorStart serverName).toList ++ toolName.toList =
      (mirrorStart serverName).toList ++ toolName'.toList := by
    rw [← String.toList_append, ← String.toList_append]
    exact congrArg String.toList hSame
  exact String.toList_injective (List.append_cancel_left hLists)

theorem start_prefix_mirrorTitle (serverName toolName : String) :
    (mirrorStart serverName).toList <+: (mirrorTitle serverName toolName).toList := by
  rw [mirrorTitle, String.toList_append]
  exact List.prefix_append _ _

theorem mem_desired {title : String} {tool : McpToolDescriptor} :
    (title, tool) ∈ Outside.desired serverName tools ↔
      title = mirrorTitle serverName tool.name ∧ LastNamed tool tools := by
  rw [Outside.desired, Dict.mem_ofPairs]
  constructor
  · rintro ⟨before, after, hPairs, hLast⟩
    obtain ⟨first, rest, rfl, -, hRest⟩ := List.map_eq_append_iff.mp hPairs
    obtain ⟨found, second, rfl, hFound, rfl⟩ := List.map_eq_cons_iff.mp hRest
    obtain ⟨hTitle, rfl⟩ := Prod.mk.inj hFound
    refine ⟨hTitle.symm, first, second, rfl, fun other hOther hName => ?_⟩
    exact hLast _ (List.mem_map_of_mem hOther) (by rw [← hTitle, ← hName])
  · rintro ⟨rfl, before, after, rfl, hLast⟩
    refine ⟨_, _, by rw [List.map_append, List.map_cons], fun other hOther => ?_⟩
    obtain ⟨found, hFound, rfl⟩ := List.mem_map.mp hOther
    exact fun hTitle => hLast found hFound (mirrorTitle_injective hTitle)

theorem nodup_desired : ((Outside.desired serverName tools).map (·.1)).Nodup :=
  Dict.nodup_ofPairs _

/-- Every tool has a last descriptor of its name. -/
theorem exists_lastNamed (serverName : String) {tool : McpToolDescriptor} (hTool : tool ∈ tools) :
    ∃ last, LastNamed last tools ∧ last.name = tool.name := by
  have hPair : (mirrorTitle serverName tool.name, tool) ∈
      tools.map fun tool => (mirrorTitle serverName tool.name, tool) :=
    List.mem_map_of_mem hTool
  obtain ⟨last, hLast⟩ := Dict.exists_lastOf hPair
  obtain ⟨hTitle, hNamed⟩ := mem_desired.mp (Dict.mem_ofPairs.mpr hLast)
  exact ⟨last, hNamed, (mirrorTitle_injective hTitle).symm⟩

theorem LastNamed.mem {tool : McpToolDescriptor} (hLast : LastNamed tool tools) : tool ∈ tools := by
  obtain ⟨before, after, rfl, -⟩ := hLast
  exact List.mem_append_right _ List.mem_cons_self

theorem slot_of_isMirrored {title : String} (hMirrored : IsMirrored row)
    (hTitle : row.slot.title = title) : row.slot = publicSlot .endpoint title := by
  obtain ⟨hKind, hOwner, -⟩ := hMirrored
  cases hSlot : row.slot
  simp_all [publicSlot]

/-- The database lists the record under the server. -/
def Outside.Lists (outside : Outside) (serverName : String) (row : InstructionRow) : Prop :=
  IsMirrored row ∧
    Like.startsWith outside.fold (mirrorStart serverName).toList row.slot.title.toList = true

theorem mem_listPublicByPrefix :
    row ∈ table.listPublicByPrefix outside.fold outside.goesFirst .endpoint
        (mirrorStart serverName) ↔ row ∈ table.rows ∧ outside.Lists serverName row := by
  rw [Table.listPublicByPrefix, (List.perm_insertionSort _ _).mem_iff, List.mem_filter,
    Outside.Lists, IsMirrored]
  simp only [Bool.and_eq_true, decide_eq_true_eq, Bool.not_eq_true', and_assoc]

theorem mem_existing {title : String} :
    (title, row) ∈ outside.existing serverName table ↔
      title = row.slot.title ∧ row ∈ table.rows ∧ outside.Lists serverName row := by
  rw [Outside.existing, Dict.mem_ofPairs]
  constructor
  · intro hLast
    obtain ⟨record, hRecord, hSame⟩ := List.mem_map.mp hLast.mem
    obtain ⟨hTitle, rfl⟩ := Prod.mk.inj hSame
    exact ⟨hTitle.symm, mem_listPublicByPrefix.mp hRecord⟩
  · rintro ⟨rfl, hListed⟩
    have hPair : (row.slot.title, row) ∈ (table.listPublicByPrefix outside.fold outside.goesFirst
        .endpoint (mirrorStart serverName)).map fun record => (record.slot.title, record) :=
      List.mem_map_of_mem (mem_listPublicByPrefix.mpr hListed)
    obtain ⟨found, hFound⟩ := Dict.exists_lastOf hPair
    obtain ⟨record, hRecord, hSame⟩ := List.mem_map.mp hFound.mem
    obtain ⟨hTitle, rfl⟩ := Prod.mk.inj hSame
    obtain ⟨hRow, hMirrored, -⟩ := mem_listPublicByPrefix.mp hRecord
    -- A title has one public record of an endpoint.
    have hSlot : record.slot = row.slot :=
      (slot_of_isMirrored hMirrored hTitle).trans (slot_of_isMirrored hListed.2.1 rfl).symm
    rwa [Table.eq_of_slot hRow hListed.1 hSlot] at hFound

theorem nodup_existing : ((outside.existing serverName table).map (·.1)).Nodup :=
  Dict.nodup_ofPairs _

/-! ## The loops -/

theorem perform_eq {request : Request} (hDone : outside.perform request sweep = (true, swept)) :
    InstructionService.finish outside.embeddingModel (outside.freshId sweep.asked.length)
      (outside.vector sweep.asked.length) InstructionService.maxSteps (.called request)
      sweep.table = (.returned, swept.table) := by
  unfold Outside.perform at hDone
  obtain ⟨hCall, rfl⟩ := Prod.mk.inj hDone
  exact Prod.ext (of_decide_eq_true hCall) rfl

/-- The slot of a title among those that are wanted. -/
def IsWanted (wanted : List (String × McpToolDescriptor)) (slot : Slot) : Prop :=
  ∃ entry ∈ wanted, slot = publicSlot .endpoint entry.1

variable {existing found : List (String × InstructionRow)}
  {wanted : List (String × McpToolDescriptor)}

/-- What the loop over the tools leaves. -/
theorem saveAll_spec (hNodup : (wanted.map (·.1)).Nodup)
    (hExisting : ∀ entry ∈ wanted, ∀ record, Dict.get existing entry.1 = some record →
      record ∈ sweep.table.rows ∧ record.slot = publicSlot .endpoint entry.1 ∧
        record.system = false)
    (hDone : outside.saveAll serverName existing wanted sweep = (true, swept)) :
    (∀ row, ¬IsWanted wanted row.slot → (row ∈ swept.table.rows ↔ row ∈ sweep.table.rows)) ∧
      ∀ entry ∈ wanted,
        (∃ row ∈ swept.table.rows, row.slot = publicSlot .endpoint entry.1 ∧
          row.content = mirrorContent serverName entry.2 ∧ row.system = false) ∧
        ∀ row ∈ sweep.table.rows, row.slot = publicSlot .endpoint entry.1 → row.system = false := by
  induction wanted generalizing sweep with
  | nil =>
      obtain ⟨-, rfl⟩ := Prod.mk.inj hDone
      exact ⟨fun _ _ => Iff.rfl, fun _ hEntry => absurd hEntry List.not_mem_nil⟩
  | cons entry rest ih =>
      obtain ⟨title, tool⟩ := entry
      obtain ⟨hTitle, hNodup⟩ := List.nodup_cons.mp hNodup
      have hHead := hExisting (title, tool) List.mem_cons_self
      have hRest : ∀ entry ∈ rest, publicSlot .endpoint entry.1 ≠ publicSlot .endpoint title := by
        intro entry hEntry hSlot
        have hSame : entry.1 = title := congrArg Slot.title hSlot
        rw [← hSame] at hTitle
        exact hTitle (List.mem_map.mpr ⟨entry, hEntry, rfl⟩)
      -- One turn leaves the slots of the others alone and settles its own.
      have hTurn : ∀ next : Sweep, SavedAs (publicSlot .endpoint title)
          (mirrorContent serverName tool) sweep.table next.table →
          (∀ row ∈ sweep.table.rows, row.slot = publicSlot .endpoint title → row.system = false) →
          outside.saveAll serverName existing rest next = (true, swept) →
          (∀ row, ¬IsWanted ((title, tool) :: rest) row.slot →
            (row ∈ swept.table.rows ↔ row ∈ sweep.table.rows)) ∧
          ∀ entry ∈ (title, tool) :: rest,
            (∃ row ∈ swept.table.rows, row.slot = publicSlot .endpoint entry.1 ∧
              row.content = mirrorContent serverName entry.2 ∧ row.system = false) ∧
            ∀ row ∈ sweep.table.rows, row.slot = publicSlot .endpoint entry.1 →
              row.system = false := by
        intro next hSaved hFree hDone
        obtain ⟨⟨saved, hSavedMem, hSlot, hContent, hSystem⟩, hOthers⟩ := hSaved
        obtain ⟨hKept, hMore⟩ := ih hNodup (fun entry hEntry record hRecord => by
          obtain ⟨hMem, hAt, hNot⟩ := hExisting entry (List.mem_cons_of_mem _ hEntry) record hRecord
          refine ⟨(hOthers record ?_).mpr hMem, hAt, hNot⟩
          rw [hAt]
          exact hRest entry hEntry) hDone
        constructor
        · intro row hWanted
          have hNot : ¬IsWanted rest row.slot := by
            rintro ⟨entry, hEntry, hAt⟩
            exact hWanted ⟨entry, List.mem_cons_of_mem _ hEntry, hAt⟩
          rw [hKept row hNot]
          exact hOthers row fun hAt => hWanted ⟨_, List.mem_cons_self, hAt⟩
        · intro entry hEntry
          rcases List.mem_cons.mp hEntry with rfl | hEntry
          · refine ⟨⟨saved, (hKept saved ?_).mpr hSavedMem, hSlot, hContent, hSystem⟩, hFree⟩
            rintro ⟨other, hOther, hAt⟩
            exact hRest other hOther (hAt.symm.trans hSlot)
          · obtain ⟨hThere, hFreeThere⟩ := hMore entry hEntry
            refine ⟨hThere, fun row hRow hAt => hFreeThere row ((hOthers row ?_).mpr hRow) hAt⟩
            rw [hAt]
            exact hRest entry hEntry
      rw [Outside.saveAll] at hDone
      split at hDone
      · rename_i hSame
        obtain ⟨record, hRecord, hContent⟩ := (Option.any_eq_true _ _).mp hSame
        obtain ⟨hMem, hAt, hSystem⟩ := hHead record hRecord
        refine hTurn sweep ?_ (fun row hRow hSlot => ?_) hDone
        · rw [← hAt, ← of_decide_eq_true hContent]
          exact savedAs_refl hMem hSystem
        · rwa [Table.eq_of_slot hRow hMem (hSlot.trans hAt.symm)]
      · split at hDone
        · cases hDone
        · rename_i next hPerform
          have hSaved := InstructionService.finish_savePublic (perform_eq hPerform)
          have hFree : ∀ row ∈ sweep.table.rows, row.slot = publicSlot .endpoint title →
              row.system = false := fun row hRow hSlot =>
            InstructionService.system_of_finish_savePublic (perform_eq hPerform) hRow hSlot
          exact hTurn { next with updated := next.updated + 1 } hSaved hFree hDone

/-- A record of the loop over the records that is to go. -/
def Goes (wanted : List (String × McpToolDescriptor)) (found : List (String × InstructionRow))
    (slot : Slot) : Prop :=
  ∃ entry ∈ found, Dict.get wanted entry.1 = none ∧ slot = entry.2.slot

/-- What the loop over the records leaves. -/
theorem deleteAll_spec (hNodup : (found.map (·.1)).Nodup)
    (hTitles : ∀ entry ∈ found, entry.1 = entry.2.slot.title)
    (hFound : ∀ entry ∈ found, Dict.get wanted entry.1 = none → entry.2 ∈ sweep.table.rows)
    (hDone : outside.deleteAll wanted found sweep = (true, swept)) :
    ∀ row, row ∈ swept.table.rows ↔ row ∈ sweep.table.rows ∧ ¬Goes wanted found row.slot := by
  induction found generalizing sweep with
  | nil =>
      obtain ⟨-, rfl⟩ := Prod.mk.inj hDone
      simp [Goes]
  | cons entry rest ih =>
      obtain ⟨title, record⟩ := entry
      obtain ⟨hTitle, hRestNodup⟩ := List.nodup_cons.mp hNodup
      have hRestTitles : ∀ entry ∈ rest, entry.1 = entry.2.slot.title :=
        fun entry hEntry => hTitles entry (List.mem_cons_of_mem _ hEntry)
      have hGoes : ∀ slot, Goes wanted ((title, record) :: rest) slot ↔
          Dict.get wanted title = none ∧ slot = record.slot ∨ Goes wanted rest slot := by
        intro slot
        simp [Goes]
      rw [Outside.deleteAll] at hDone
      split at hDone
      · rename_i hWanted
        have hNot : Dict.get wanted title ≠ none := by
          intro hNone
          simp [hNone] at hWanted
        intro row
        rw [ih hRestNodup hRestTitles
          (fun entry hEntry => hFound entry (List.mem_cons_of_mem _ hEntry)) hDone row, hGoes]
        simp [hNot]
      · rename_i hWanted
        have hNone : Dict.get wanted title = none := by simpa using hWanted
        split at hDone
        · cases hDone
        · rename_i next hPerform
          obtain ⟨gone, hGone, hId, hRows⟩ :=
            InstructionService.finish_deletePublic (perform_eq hPerform)
          -- No other row has the id of the record that was found.
          obtain rfl : gone = record :=
            Table.eq_of_id hGone (hFound _ List.mem_cons_self hNone) hId
          have hKept : ∀ entry ∈ rest, Dict.get wanted entry.1 = none →
              entry.2 ∈ ({ next with removed := next.removed + 1 } : Sweep).table.rows := by
            intro entry hEntry hGet
            refine (hRows entry.2).mpr
              ⟨hFound entry (List.mem_cons_of_mem _ hEntry) hGet, fun hSlot => ?_⟩
            have hSame : entry.1 = title := by
              rw [hRestTitles entry hEntry, hSlot]
              exact (hTitles _ List.mem_cons_self).symm
            rw [← hSame] at hTitle
            exact hTitle (List.mem_map.mpr ⟨entry, hEntry, rfl⟩)
          intro row
          rw [ih hRestNodup hRestTitles hKept hDone row, hGoes]
          simp only [hRows, hNone, true_and, not_or, and_assoc]

/-! ## A sync -/

theorem isWanted_iff {slot : Slot} :
    IsWanted (Outside.desired serverName tools) slot ↔
      ∃ tool ∈ tools, slot = mirrorSlot serverName tool.name := by
  constructor
  · rintro ⟨⟨title, tool⟩, hEntry, hSlot⟩
    obtain ⟨rfl, hLast⟩ := mem_desired.mp hEntry
    exact ⟨tool, hLast.mem, hSlot⟩
  · rintro ⟨tool, hTool, hSlot⟩
    obtain ⟨last, hLast, hName⟩ := exists_lastNamed serverName hTool
    refine ⟨_, mem_desired.mpr ⟨rfl, hLast⟩, ?_⟩
    rw [hSlot, ← hName]
    rfl

theorem isWanted_of_get {title : String} (hMirrored : IsMirrored row)
    (hTitle : title = row.slot.title)
    (hGet : (Dict.get (Outside.desired serverName tools) title).isSome) :
    IsWanted (Outside.desired serverName tools) row.slot := by
  obtain ⟨tool, hTool⟩ := Option.isSome_iff_exists.mp hGet
  exact ⟨_, (Dict.get_eq_some nodup_desired).mp hTool, slot_of_isMirrored hMirrored hTitle.symm⟩

theorem get_isSome_of_isWanted (hWanted : IsWanted (Outside.desired serverName tools) row.slot) :
    (Dict.get (Outside.desired serverName tools) row.slot.title).isSome := by
  obtain ⟨⟨title, tool⟩, hEntry, hSlot⟩ := hWanted
  have hTitle : row.slot.title = title := congrArg Slot.title hSlot
  rw [hTitle, (Dict.get_eq_some nodup_desired).mpr hEntry]
  rfl

/-- What the writes of a sync leave: the records of the tools, and those of the others that the
database does not list. -/
structure Swept (outside : Outside) (serverName : String) (tools : List McpToolDescriptor)
    (before after : Table) : Prop where
  saved : ∀ tool, LastNamed tool tools → ∃ row ∈ after.rows,
    row.slot = mirrorSlot serverName tool.name ∧
      row.content = mirrorContent serverName tool ∧ row.system = false
  free : ∀ row ∈ before.rows, (∃ tool ∈ tools, row.slot = mirrorSlot serverName tool.name) →
    row.system = false
  kept : ∀ row, (¬∃ tool ∈ tools, row.slot = mirrorSlot serverName tool.name) →
    (row ∈ after.rows ↔ row ∈ before.rows ∧ ¬outside.Lists serverName row)

theorem swept_of_sweep (hDone : outside.sweep serverName tools table = (true, swept)) :
    Swept outside serverName tools table swept.table := by
  unfold Outside.sweep at hDone
  simp only at hDone
  split at hDone
  · cases hDone
  rename_i saved hSaves
  have hExisting : ∀ entry ∈ Outside.desired serverName tools, ∀ record,
      Dict.get (outside.existing serverName table) entry.1 = some record →
        record ∈ table.rows ∧ record.slot = publicSlot .endpoint entry.1 ∧
          record.system = false := by
    intro entry _ record hRecord
    obtain ⟨hTitle, hRow, hMirrored, -⟩ :=
      mem_existing.mp ((Dict.get_eq_some nodup_existing).mp hRecord)
    exact ⟨hRow, slot_of_isMirrored hMirrored hTitle.symm, hMirrored.2.2⟩
  obtain ⟨hKept, hSaved⟩ := saveAll_spec nodup_desired hExisting hSaves
  have hTitles : ∀ entry ∈ outside.existing serverName table, entry.1 = entry.2.slot.title :=
    fun entry hEntry => (mem_existing.mp hEntry).1
  -- What is to go is not wanted, so the saves have left it in its place.
  have hFound : ∀ entry ∈ outside.existing serverName table,
      Dict.get (Outside.desired serverName tools) entry.1 = none → entry.2 ∈ saved.table.rows := by
    intro entry hEntry hGet
    obtain ⟨hTitle, hRow, hMirrored, -⟩ := mem_existing.mp hEntry
    refine (hKept entry.2 fun hWanted => ?_).mpr hRow
    have hSome := get_isSome_of_isWanted hWanted
    rw [← hTitle, hGet] at hSome
    cases hSome
  have hRows := deleteAll_spec nodup_existing hTitles hFound hDone
  have hStays : ∀ row : InstructionRow, IsWanted (Outside.desired serverName tools) row.slot →
      ¬Goes (Outside.desired serverName tools) (outside.existing serverName table) row.slot := by
    rintro row hWanted ⟨entry, hEntry, hGet, hSlot⟩
    have hSome := get_isSome_of_isWanted hWanted
    rw [hSlot, ← hTitles entry hEntry, hGet] at hSome
    cases hSome
  refine ⟨fun tool hLast => ?_, fun row hRow hTool => ?_, fun row hTool => ?_⟩
  · have hEntry : (mirrorTitle serverName tool.name, tool) ∈ Outside.desired serverName tools :=
      mem_desired.mpr ⟨rfl, hLast⟩
    obtain ⟨⟨row, hRow, hSlot, hContent, hSystem⟩, -⟩ := hSaved _ hEntry
    exact ⟨row, (hRows row).mpr ⟨hRow, hStays row ⟨_, hEntry, hSlot⟩⟩, hSlot, hContent, hSystem⟩
  · obtain ⟨entry, hEntry, hSlot⟩ := isWanted_iff.mpr hTool
    exact (hSaved entry hEntry).2 row hRow hSlot
  · have hWanted : ¬IsWanted (Outside.desired serverName tools) row.slot := mt isWanted_iff.mp hTool
    rw [hRows, hKept row hWanted, and_congr_right_iff]
    intro hRow
    refine not_congr ⟨?_, fun hLists => ?_⟩
    · rintro ⟨entry, hEntry, -, hSlot⟩
      obtain ⟨-, hMem, hLists⟩ := mem_existing.mp hEntry
      rwa [Table.eq_of_slot hRow hMem hSlot]
    · refine ⟨(row.slot.title, row), mem_existing.mpr ⟨rfl, hRow, hLists⟩, ?_, rfl⟩
      rw [← Option.not_isSome_iff_eq_none]
      exact fun hGet => hWanted (isWanted_of_get hLists.1 rfl hGet)

theorem lists_of_inMirror (outside : Outside) (hIn : InMirror serverName row) :
    outside.Lists serverName row :=
  ⟨hIn.1, Like.startsWith_of_prefix hIn.2⟩

/-- What is saved for a tool is a record of the mirror. -/
theorem inMirror_of_slot {toolName : String} (hSlot : row.slot = mirrorSlot serverName toolName)
    (hSystem : row.system = false) : InMirror serverName row := by
  refine ⟨⟨by rw [hSlot]; rfl, by rw [hSlot]; rfl, hSystem⟩, ?_⟩
  rw [hSlot]
  exact start_prefix_mirrorTitle serverName toolName

section Swept

variable {before after : Table}

theorem Swept.mirrors (hSwept : Swept outside serverName tools before after)
    (hStarts : ∀ row ∈ before.rows, outside.Lists serverName row →
      (mirrorStart serverName).toList <+: row.slot.title.toList) :
    Mirrors serverName tools before after := by
  refine ⟨fun tool hLast => ?_, fun row hRow hIn => ?_, fun row hOut => ?_⟩
  · obtain ⟨row, hRow, hSlot, hContent, hSystem⟩ := hSwept.saved tool hLast
    refine ⟨row, hRow, inMirror_of_slot hSlot hSystem, by rw [hSlot]; rfl, hContent, ?_⟩
    intro other hOther hIn hTitle
    refine Table.eq_of_slot hOther hRow ?_
    rw [slot_of_isMirrored hIn.1 hTitle, hSlot]
    rfl
  · by_contra hNone
    have hTool : ¬∃ tool ∈ tools, row.slot = mirrorSlot serverName tool.name := by
      rintro ⟨tool, hTool, hSlot⟩
      exact hNone ⟨tool, hTool, by rw [hSlot]; rfl⟩
    exact ((hSwept.kept row hTool).mp hRow).2 (lists_of_inMirror outside hIn)
  · by_cases hTool : ∃ tool ∈ tools, row.slot = mirrorSlot serverName tool.name
    · -- Its slot is that of a tool, so it would be a record of the registry.
      obtain ⟨tool, hTool', hSlot⟩ := hTool
      constructor
      · intro hRow
        obtain ⟨last, hLast, hName⟩ := exists_lastNamed serverName hTool'
        obtain ⟨saved, hSaved, hAt, -, hSystem⟩ := hSwept.saved last hLast
        rw [hName, ← hSlot] at hAt
        rw [Table.eq_of_slot hSaved hRow hAt] at hSystem
        exact absurd (inMirror_of_slot hSlot hSystem) hOut
      · intro hRow
        have hSystem := hSwept.free row hRow ⟨tool, hTool', hSlot⟩
        exact absurd (inMirror_of_slot hSlot hSystem) hOut
    · rw [hSwept.kept row hTool, and_iff_left_iff_imp]
      intro hRow hLists
      exact hOut ⟨hLists.1, hStarts row hRow hLists⟩

theorem Swept.starts (hSwept : Swept outside serverName tools before after)
    (hMirrors : Mirrors serverName tools before after) (hRow : row ∈ before.rows)
    (hLists : outside.Lists serverName row) :
    (mirrorStart serverName).toList <+: row.slot.title.toList := by
  by_contra hNot
  have hAfter : row ∈ after.rows := (hMirrors.others row fun hIn => hNot hIn.2).mpr hRow
  have hTool : ¬∃ tool ∈ tools, row.slot = mirrorSlot serverName tool.name := by
    rintro ⟨tool, -, hSlot⟩
    rw [hSlot] at hNot
    exact hNot (start_prefix_mirrorTitle serverName tool.name)
  exact ((hSwept.kept row hTool).mp hAfter).2 hLists

end Swept

theorem saveAll_of_all
    (hAll : ∀ entry ∈ wanted, (Dict.get existing entry.1).any
      fun record => record.content = mirrorContent serverName entry.2) :
    outside.saveAll serverName existing wanted sweep = (true, sweep) := by
  induction wanted with
  | nil => rfl
  | cons entry rest ih =>
      have hHead := hAll entry List.mem_cons_self
      rw [Outside.saveAll, if_pos hHead]
      exact ih fun other hOther => hAll other (List.mem_cons_of_mem _ hOther)

theorem deleteAll_of_all (hAll : ∀ entry ∈ found, (Dict.get wanted entry.1).isSome) :
    outside.deleteAll wanted found sweep = (true, sweep) := by
  induction found with
  | nil => rfl
  | cons entry rest ih =>
      have hHead := hAll entry List.mem_cons_self
      rw [Outside.deleteAll, if_pos hHead]
      exact ih fun other hOther => hAll other (List.mem_cons_of_mem _ hOther)

/-- After a sweep there is nothing to write. -/
theorem Swept.sweep_eq {again : Outside} {before after : Table}
    (hSwept : Swept outside serverName tools before after) (hFold : again.fold = outside.fold) :
    again.sweep serverName tools after = (true, { table := after }) := by
  have hSaves : again.saveAll serverName (again.existing serverName after)
      (Outside.desired serverName tools) { table := after } = (true, { table := after }) := by
    refine saveAll_of_all fun entry hEntry => ?_
    obtain ⟨hTitle, hLast⟩ := mem_desired.mp hEntry
    obtain ⟨row, hRow, hSlot, hContent, hSystem⟩ := hSwept.saved entry.2 hLast
    have hLists := lists_of_inMirror again (inMirror_of_slot hSlot hSystem)
    have hGet : Dict.get (again.existing serverName after) entry.1 = some row := by
      refine (Dict.get_eq_some nodup_existing).mpr (mem_existing.mpr ⟨?_, hRow, hLists⟩)
      rw [hTitle, hSlot]
      rfl
    rw [hGet]
    simpa using hContent
  have hDeletes : again.deleteAll (Outside.desired serverName tools)
      (again.existing serverName after) { table := after } = (true, { table := after }) := by
    refine deleteAll_of_all fun entry hEntry => ?_
    obtain ⟨hTitle, hRow, hMirrored, hStarts⟩ := mem_existing.mp hEntry
    have hLists : outside.Lists serverName entry.2 := ⟨hMirrored, by rwa [← hFold]⟩
    have hTool : ∃ tool ∈ tools, entry.2.slot = mirrorSlot serverName tool.name := by
      by_contra hNone
      exact ((hSwept.kept entry.2 hNone).mp hRow).2 hLists
    rw [hTitle]
    exact get_isSome_of_isWanted (isWanted_iff.mpr hTool)
  unfold Outside.sweep
  simp only [hSaves, hDeletes]

/-- A sync that has succeeded. -/
theorem swept_of_syncServer {stores : Stores} {outcome : SyncOutcome}
    (hList : outside.listing server secret = .ok tools)
    (hDone : (outside.syncServer server secret stores).1 = .ok outcome) :
    Swept outside server.name tools stores.instructions
      (outside.syncServer server secret stores).2.instructions := by
  unfold Outside.syncServer at hDone ⊢
  rw [hList] at hDone ⊢
  cases hSweep : outside.sweep server.name tools stores.instructions with
  | mk done swept =>
      cases done with
      | false =>
          simp only [hSweep] at hDone
          cases hDone
      | true =>
          simp only [hSweep]
          exact swept_of_sweep hSweep

theorem settled {stores after : Stores}
    (hSwept : Swept outside server.name tools stores.instructions after.instructions) :
    Settled outside server tools after := by
  intro again hFold secret hList
  have hSweep := hSwept.sweep_eq hFold
  have hSync : again.syncServer server secret after =
      (.ok { toolNames := tools.map (·.name), updated := 0, removed := 0 },
        after.markSynced server.id none again.now) := by
    simp only [Outside.syncServer, hList, hSweep]
  rw [hSync, hSweep]
  exact ⟨rfl, rfl, rfl⟩

/-- The mirror converges where what the database lists under the server is titled under it. -/
theorem sync_converges_iff {stores : Stores} {outcome : SyncOutcome}
    (hList : outside.listing server secret = .ok tools)
    (hDone : (outside.syncServer server secret stores).1 = .ok outcome) :
    (Mirrors server.name tools stores.instructions
        (outside.syncServer server secret stores).2.instructions ∧
      Settled outside server tools (outside.syncServer server secret stores).2) ↔
      ∀ row ∈ stores.instructions.rows, outside.Lists server.name row →
        (mirrorStart server.name).toList <+: row.slot.title.toList := by
  have hSwept := swept_of_syncServer hList hDone
  constructor
  · rintro ⟨hMirrors, -⟩ row hRow hLists
    exact hSwept.starts hMirrors hRow hLists
  · intro hStarts
    exact ⟨hSwept.mirrors hStarts, settled hSwept⟩

/-- A server that lists these tools, and a database that folds so. -/
def served (fold : Char → Char) (tools : List McpToolDescriptor) : Outside where
  listTools := fun _ _ => .ok tools
  format := fun _ value => .ok value
  fold := fold
  goesFirst := fun title title' => title ≤ title'
  freshId := fun k => "id-" ++ toString k
  vector := fun _ => none

def github : McpServer := { id := "1", name := "github", url := "https://mcp.example.com" }

def searchTool : McpToolDescriptor :=
  { name := "search", description := "Search.", inputSchema := [] }

theorem sync_converges_search :
    Mirrors github.name [searchTool] ({} : Stores).instructions
        ((served id [searchTool]).syncServer github none {}).2.instructions ∧
      Settled (served id [searchTool]) github [searchTool]
        ((served id [searchTool]).syncServer github none {}).2 := by
  have hList : (served id [searchTool]).listing github none = .ok [searchTool] := rfl
  have hDone : ((served id [searchTool]).syncServer github none {}).1 =
      .ok { toolNames := ["search"], updated := 1, removed := 0 } := rfl
  exact (sync_converges_iff hList hDone).mpr fun _ hRow => absurd hRow List.not_mem_nil

/-- A record that somebody has published under a title of his own. -/
def strayRow : InstructionRow :=
  { id := "7", slot := publicSlot .endpoint "mcp/GitHub/search", content := "" }

/-- SQLite folds the letters of ASCII, and the stray record is deleted. -/
theorem sync_deletes_stray :
    let stores : Stores := { instructions := { rows := [strayRow] } }
    ((served Char.toLower []).syncServer github none stores).1 =
        .ok { toolNames := [], updated := 0, removed := 1 } ∧
      ¬Mirrors "github" [] stores.instructions
        ((served Char.toLower []).syncServer github none stores).2.instructions := by
  refine ⟨rfl, fun hMirrors => ?_⟩
  have hOut : ¬InMirror "github" strayRow := fun hIn => absurd hIn.2 (by decide)
  have hAfter := (hMirrors.others strayRow hOut).mpr (List.mem_singleton_self strayRow)
  exact absurd hAfter List.not_mem_nil

end Mcp
end OctoForge
