import OctoForge.Instructions.Service
import OctoForge.Sequence.Places

/-!
# Whose record a save writes

What a save has seen of the public record holds until it writes, as long as no record is
adopted by the registry under its hands and nobody else's record takes the place of its
own.  A row that has been loaded may be published in the meantime, but it keeps its author.
-/

namespace OctoForge
namespace Instructions

open Coop

/-! ## The invariant -/

/-- What holds of every stored row. -/
structure InstructionRow.Proper (row : InstructionRow) : Prop where
  system_public : row.system = true → row.slot.ownerId = none
  author_of_owner : ∀ userId, row.slot.ownerId = some userId →
    row.authorId = none ∨ row.authorId = some userId

structure InstructionDraft.Proper (draft : InstructionDraft) : Prop where
  system_public : draft.system = true → draft.slot.ownerId = none ∧ draft.authorId = none
  author_of_owner : ∀ userId, draft.slot.ownerId = some userId → draft.authorId = some userId

/-- A row is still what was loaded, or has been published since. -/
def InstructionRow.Follows (row loaded : InstructionRow) : Prop :=
  row.slot.kind = loaded.slot.kind ∧ row.slot.title = loaded.slot.title ∧
    (row.slot.ownerId = loaded.slot.ownerId ∨ row.slot.ownerId = none)

/-- A row that is about to be published keeps the author it is going to have, and has it where
somebody else has published it. -/
def InstructionRow.Departs (row loaded : InstructionRow) : Prop :=
  ∀ userId, loaded.slot.ownerId = some userId →
    row.slot.ownerId = some userId ∧ (loaded.authorId ≠ none → row.authorId = some userId) ∨
      row.slot.ownerId = none ∧ row.authorId = some userId

def Call.loadedId : Call → Option InstructionId
  | .updating _ loaded => some loaded.id
  | .publishing loaded => some loaded.id
  | _ => none

structure Call.Fits (rows : List InstructionRow) (drawn : List InstructionId) (call : Call) :
    Prop where
  proper : ∀ draft, call.draft = some draft → draft.Proper
  /-- The published record of the author is his, and the registry does not own it. -/
  held : ∀ slot userId, call.editor slot = some userId → slot.ownerId = none →
    ∀ row ∈ rows, row.slot = slot → row.system = false ∧ row.authorId = some userId
  loaded : ∀ draft loaded, call = .updating draft loaded → loaded.slot = draft.slot ∧
    ∀ row ∈ rows, row.id = loaded.id → row.Follows loaded ∧
      ∀ userId, draft.authorId = some userId → row.BelongsTo userId
  departs : ∀ loaded, call = .publishing loaded → loaded.Proper ∧
    ∀ row ∈ rows, row.id = loaded.id → row.Follows loaded ∧ row.Departs loaded
  known : ∀ id, call.loadedId = some id → id ∈ drawn

structure Inv (s : InstructionService) : Prop where
  proper : ∀ row ∈ s.table.rows, row.Proper
  known : ∀ row ∈ s.table.rows, row.id ∈ s.drawn
  fits : ∀ call ∈ s.calls, call.Fits s.table.rows s.drawn

/-! ## The statements -/

namespace Table

variable {table table' : Table} {row : InstructionRow}

theorem insert_eq_some (hInsert : table.insert row = some table') :
    table'.rows = table.rows ++ [row] := by
  unfold insert at hInsert
  split at hInsert
  · exact absurd hInsert (by simp)
  · split at hInsert
    · exact absurd hInsert (by simp)
    · obtain rfl := Option.some.inj hInsert
      rfl

theorem publish_eq_some {loaded : InstructionRow} (hPublish : table.publish loaded = some table') :
    table'.rows =
      table.rows.map fun row => if row.id = loaded.id then published loaded row else row := by
  simp only [publish, Option.dite_none_right_eq_some] at hPublish
  obtain ⟨_, hPublish⟩ := hPublish
  obtain rfl := Option.some.inj hPublish
  rfl

end Table

/-! ## What a statement does to the other calls -/

/-- The row a call may meet has become another one, and what the call relies on still
holds. -/
structure Spares (call : Call) (row row' : InstructionRow) : Prop where
  id_eq : row'.id = row.id
  follows : row'.Follows row
  held : ∀ slot userId, call.editor slot = some userId → slot.ownerId = none → row'.slot = slot →
    (row.slot = slot → row.system = false ∧ row.authorId = some userId) →
      row'.system = false ∧ row'.authorId = some userId
  loaded : ∀ draft loaded userId, call = .updating draft loaded → row.id = loaded.id →
    draft.authorId = some userId → row.BelongsTo userId → row'.BelongsTo userId
  departs : ∀ loaded, call = .publishing loaded → row.id = loaded.id → row.Departs loaded →
    row'.Departs loaded

section Spares

variable {rows rows' : List InstructionRow} {drawn drawn' : List InstructionId} {call : Call}
  {draft : InstructionDraft} {loaded row : InstructionRow}

theorem InstructionRow.Follows.trans {row' : InstructionRow} (hFirst : row'.Follows row)
    (hSecond : row.Follows loaded) : row'.Follows loaded := by
  obtain ⟨hKind, hTitle, hOwner⟩ := hFirst
  obtain ⟨hKind', hTitle', hOwner'⟩ := hSecond
  refine ⟨hKind.trans hKind', hTitle.trans hTitle', ?_⟩
  rcases hOwner with hSame | hNone
  · rcases hOwner' with hSame' | hNone'
    · exact .inl (hSame.trans hSame')
    · exact .inr (hSame.trans hNone')
  · exact .inr hNone

theorem Spares.refl (call : Call) (row : InstructionRow) : Spares call row row :=
  ⟨rfl, ⟨rfl, rfl, .inl rfl⟩, fun _ _ _ _ hSlot hHeld => hHeld hSlot,
    fun _ _ _ _ _ _ hOwn => hOwn, fun _ _ _ hDeparts => hDeparts⟩

theorem Call.Fits.of_spares (hFits : call.Fits rows drawn)
    (hSpares : ∀ row' ∈ rows', ∃ row ∈ rows, Spares call row row') (hDrawn : drawn ⊆ drawn') :
    call.Fits rows' drawn' := by
  refine ⟨hFits.proper, ?_, ?_, ?_, fun id hId => hDrawn (hFits.known id hId)⟩
  · intro slot userId hEditor hPublic row' hRow' hSlot
    obtain ⟨row, hRow, hSpare⟩ := hSpares row' hRow'
    exact hSpare.held slot userId hEditor hPublic hSlot
      (hFits.held slot userId hEditor hPublic row hRow)
  · intro draft loaded hCall
    obtain ⟨hSlot, hAll⟩ := hFits.loaded draft loaded hCall
    refine ⟨hSlot, fun row' hRow' hId => ?_⟩
    obtain ⟨row, hRow, hSpare⟩ := hSpares row' hRow'
    obtain ⟨hFollows, hOwn⟩ := hAll row hRow (hSpare.id_eq.symm.trans hId)
    refine ⟨hSpare.follows.trans hFollows, fun userId hAuthor => ?_⟩
    exact hSpare.loaded draft loaded userId hCall (hSpare.id_eq.symm.trans hId) hAuthor
      (hOwn userId hAuthor)
  · intro loaded hCall
    obtain ⟨hProper, hAll⟩ := hFits.departs loaded hCall
    refine ⟨hProper, fun row' hRow' hId => ?_⟩
    obtain ⟨row, hRow, hSpare⟩ := hSpares row' hRow'
    obtain ⟨hFollows, hDeparts⟩ := hAll row hRow (hSpare.id_eq.symm.trans hId)
    exact ⟨hSpare.follows.trans hFollows,
      hSpare.departs loaded hCall (hSpare.id_eq.symm.trans hId) hDeparts⟩

/-! ### The UPDATE of a save -/

theorem system_edit (draft : InstructionDraft) (loaded row : InstructionRow) :
    ((Edit.ofDraft loaded draft).apply row).system = row.system ∨
      ((Edit.ofDraft loaded draft).apply row).system = draft.system ∧ draft.system ≠ loaded.system := by
  simp only [Edit.apply, Edit.ofDraft, changed]
  split
  · exact .inl rfl
  · rename_i hNot
    exact .inr ⟨rfl, hNot⟩

theorem author_edit (draft : InstructionDraft) (loaded row : InstructionRow) :
    ((Edit.ofDraft loaded draft).apply row).authorId = row.authorId ∨
      ∃ userId, draft.authorId = some userId ∧
        ((Edit.ofDraft loaded draft).apply row).authorId = some userId := by
  simp only [Edit.apply, Edit.ofDraft, changed]
  cases hAuthor : draft.authorId with
  | none => exact .inl rfl
  | some userId =>
      simp only [reduceCtorEq, if_false]
      split
      · exact .inl rfl
      · exact .inr ⟨userId, rfl, rfl⟩

/-- The row of an adoption is in the slot it was found in. -/
theorem slot_of_follows (hFollows : row.Follows loaded) (hPublic : loaded.slot.ownerId = none) :
    row.slot = loaded.slot := by
  obtain ⟨hKind, hTitle, hOwner⟩ := hFollows
  have hNone : row.slot.ownerId = loaded.slot.ownerId := by
    rcases hOwner with hSame | hGone
    · exact hSame
    · exact hGone.trans hPublic.symm
  cases hRow : row.slot
  cases hLoaded : loaded.slot
  simp_all

theorem author_of_belongs {userId userId' : UserId} (hOwn : row.BelongsTo userId)
    (hPublic : row.slot.ownerId = none) (hAuthor : row.authorId = some userId') :
    userId = userId' := by
  rcases hOwn with hOwner | ⟨-, -, hAuthor'⟩
  · exact absurd (hPublic.symm.trans hOwner) (by simp)
  · exact Option.some.inj (hAuthor'.symm.trans hAuthor)

/-- What a save or a registry upsert writes into a row. -/
theorem spares_edit {writer : Call} (hWriter : writer.Fits rows drawn)
    (hWrites : writer = .updating draft loaded) (hRow : row ∈ rows) (hId : row.id = loaded.id)
    (hFree : draft.system = false ∨ loaded.system = true ∨
      call.editor loaded.slot = none ∧ call.hasLoaded loaded.id = false) :
    Spares call row ((Edit.ofDraft loaded draft).apply row) := by
  obtain ⟨hSlot, hAll⟩ := hWriter.loaded draft loaded hWrites
  obtain ⟨hFollows, hOwn⟩ := hAll row hRow hId
  have hProper := hWriter.proper draft (by rw [hWrites]; rfl)
  -- an adoption is of a public record, and nobody is on his way to it
  have hAdopted : ((Edit.ofDraft loaded draft).apply row).system = true → row.system = false →
      row.slot = loaded.slot ∧ call.editor loaded.slot = none ∧ call.hasLoaded loaded.id = false := by
    intro hAfter hBefore
    rcases system_edit draft loaded row with hSame | ⟨hIs, hChanged⟩
    · exact absurd (hAfter.symm.trans (hSame.trans hBefore)) (by simp)
    · have hSystem : draft.system = true := hIs.symm.trans hAfter
      have hPublic : loaded.slot.ownerId = none := by
        rw [hSlot]
        exact (hProper.system_public hSystem).1
      refine ⟨slot_of_follows hFollows hPublic, ?_⟩
      rcases hFree with hNo | hOld | hFree
      · exact absurd (hNo.symm.trans hSystem) (by simp)
      · exact absurd (hSystem.trans hOld.symm) hChanged
      · exact hFree
  refine ⟨rfl, ⟨rfl, rfl, .inl rfl⟩, ?_, ?_, ?_⟩
  · intro slot userId hEditor hPublic hIn hHeld
    obtain ⟨hNotSystem, hAuthor⟩ := hHeld hIn
    constructor
    · by_contra hAfter
      obtain ⟨hSame, hNone, -⟩ := hAdopted (by simpa using hAfter) hNotSystem
      rw [← hSame, show row.slot = slot from hIn, hEditor] at hNone
      exact absurd hNone (by simp)
    · rcases author_edit draft loaded row with hSame | ⟨other, hBy, hIs⟩
      · exact hSame.trans hAuthor
      · have hNone : row.slot.ownerId = none := by
          rw [show row.slot = slot from hIn]
          exact hPublic
        rw [hIs, author_of_belongs (hOwn other hBy) hNone hAuthor]
  · rintro draft' loaded' userId rfl hLoaded hAuthor' (hOwner | ⟨hPublic, hNotSystem, hAuthor⟩)
    · exact .inl hOwner
    · refine .inr ⟨hPublic, ?_, ?_⟩
      · by_contra hAfter
        obtain ⟨-, -, hNot⟩ := hAdopted (by simpa using hAfter) hNotSystem
        have hBoth : loaded'.id = loaded.id := hLoaded.symm.trans hId
        simp [Call.hasLoaded, hAuthor', hBoth] at hNot
      · rcases author_edit draft loaded row with hSame | ⟨other, hBy, hIs⟩
        · exact hSame.trans hAuthor
        · rw [hIs, author_of_belongs (hOwn other hBy) hPublic hAuthor]
  · rintro loaded' rfl - hDeparts userId hOwner'
    rcases hDeparts userId hOwner' with ⟨hOwner, hKeeps⟩ | ⟨hPublic, hAuthor⟩
    · refine .inl ⟨hOwner, fun hSome => ?_⟩
      rcases author_edit draft loaded row with hSame | ⟨other, hBy, hIs⟩
      · exact hSame.trans (hKeeps hSome)
      · rcases hOwn other hBy with hPrivate | ⟨hNone, -⟩
        · rw [hIs, ← hPrivate]
          exact hOwner
        · exact absurd (hNone.symm.trans hOwner) (by simp)
    · refine .inr ⟨hPublic, ?_⟩
      rcases author_edit draft loaded row with hSame | ⟨other, hBy, hIs⟩
      · exact hSame.trans hAuthor
      · rw [hIs, author_of_belongs (hOwn other hBy) hPublic hAuthor]

/-! ### The UPDATE of a publication -/

/-- A public record is published without effect. -/
theorem published_of_public (hPublic : loaded.slot.ownerId = none) :
    Table.published loaded row = row := by
  have hAuthor : publishedAuthor loaded = loaded.authorId := by
    rw [publishedAuthor, hPublic, Option.or_none]
  simp [Table.published, hPublic, hAuthor, changed]

theorem author_published {userId : UserId} (hOwner : loaded.slot.ownerId = some userId)
    (hDeparts : row.Departs loaded) : (Table.published loaded row).authorId = some userId := by
  have hRow : loaded.authorId ≠ none → row.authorId = some userId := by
    intro hSome
    rcases hDeparts userId hOwner with ⟨-, hKeeps⟩ | ⟨-, hAuthor⟩
    · exact hKeeps hSome
    · exact hAuthor
  cases hAuthor : loaded.authorId with
  | none => simp [Table.published, publishedAuthor, hAuthor, hOwner, changed]
  | some author =>
      have hIs := hRow (by simp [hAuthor])
      simp [Table.published, publishedAuthor, hAuthor, changed, hIs]

theorem publishedAuthor_eq {userId : UserId} (hOwner : loaded.slot.ownerId = some userId)
    (hProper : loaded.Proper) : publishedAuthor loaded = some userId := by
  rcases hProper.author_of_owner userId hOwner with hNone | hSome
  · simp [publishedAuthor, hNone, hOwner]
  · simp [publishedAuthor, hSome]

theorem spares_published {writer : Call} (hWriter : writer.Fits rows drawn)
    (hWrites : writer = .publishing loaded) (hRow : row ∈ rows) (hRowProper : row.Proper)
    (hId : row.id = loaded.id)
    (hFree : loaded.slot.ownerId = none ∨
      call.editor (publicSlot loaded.slot.kind loaded.slot.title) = none ∨
        call.editor (publicSlot loaded.slot.kind loaded.slot.title) = publishedAuthor loaded) :
    Spares call row (Table.published loaded row) := by
  obtain ⟨hProper, hAll⟩ := hWriter.departs loaded hWrites
  obtain ⟨hFollows, hDeparts⟩ := hAll row hRow hId
  cases hOwner : loaded.slot.ownerId with
  | none =>
      rw [published_of_public hOwner]
      exact Spares.refl call row
  | some author =>
      have hAuthor := author_published hOwner hDeparts
      have hSystem : (Table.published loaded row).system = row.system := rfl
      have hPublic : (Table.published loaded row).slot.ownerId = none := by
        simp [Table.published, hOwner]
      have hPrivate : ∀ userId, row.slot.ownerId = some userId → row.system = false := by
        intro userId hIs
        by_contra hNot
        exact absurd ((hRowProper.system_public (by simpa using hNot)).symm.trans hIs) (by simp)
      refine ⟨rfl, ⟨rfl, rfl, .inr hPublic⟩, ?_, ?_, ?_⟩
      · -- A save that edits the slot in place is its author's.
        intro slot userId hEditor hSlotPublic hIn hHeld
        have hSlot : slot = publicSlot loaded.slot.kind loaded.slot.title := by
          rw [← hIn]
          simp [Table.published, hOwner, publicSlot, hFollows.1, hFollows.2.1]
        constructor
        · rw [hSystem]
          rcases hDeparts author hOwner with ⟨hRowOwner, -⟩ | ⟨hNone, -⟩
          · exact hPrivate author hRowOwner
          · have hSame : (Table.published loaded row).slot = row.slot := by
              simp only [Table.published, hOwner, reduceCtorEq, if_false]
              rw [← hNone]
            exact (hHeld (hSame.symm.trans hIn)).1
        · rw [hAuthor]
          rcases hFree with hNone | hNobody | hHim
          · exact absurd (hNone.symm.trans hOwner) (by simp)
          · rw [← hSlot, hEditor] at hNobody
            exact absurd hNobody (by simp)
          · rw [← hSlot, hEditor, publishedAuthor_eq hOwner hProper] at hHim
            exact hHim.symm
      -- A save of a record that is in the store is its owner's, or its author's.
      · rintro draft' loaded' userId rfl - - (hRowOwner | ⟨hRowPublic, hNotSystem, hRowAuthor⟩)
        · refine .inr ⟨hPublic, hPrivate userId hRowOwner, ?_⟩
          rcases hDeparts author hOwner with ⟨hHis, -⟩ | ⟨hNone, -⟩
          · rw [hAuthor, ← hHis]
            exact hRowOwner
          · exact absurd (hNone.symm.trans hRowOwner) (by simp)
        · refine .inr ⟨hPublic, hNotSystem, ?_⟩
          rcases hDeparts author hOwner with ⟨hHis, -⟩ | ⟨-, hHis⟩
          · exact absurd (hRowPublic.symm.trans hHis) (by simp)
          · rw [hAuthor, ← hHis]
            exact hRowAuthor
      -- Another publication has departed from the same author.
      · rintro loaded' rfl - hDeparts' userId hOwner'
        refine .inr ⟨hPublic, ?_⟩
        rcases hDeparts' userId hOwner' with ⟨hRowOwner, -⟩ | ⟨hRowPublic, hRowAuthor⟩
        · rcases hDeparts author hOwner with ⟨hHis, -⟩ | ⟨hNone, -⟩
          · rw [hAuthor, ← hHis]
            exact hRowOwner
          · exact absurd (hNone.symm.trans hRowOwner) (by simp)
        · rcases hDeparts author hOwner with ⟨hHis, -⟩ | ⟨-, hHis⟩
          · exact absurd (hRowPublic.symm.trans hHis) (by simp)
          · rw [hAuthor, ← hHis]
            exact hRowAuthor

end Spares

/-! ## Steps -/

section Steps

variable {s s' : InstructionService} {k : Nat} {call call' : Call} {table : Table}
  {uuid : InstructionId} {vector : Option Embedding}

/-- A call goes on: the rows of the others are spared, and it fits the rows itself. -/
theorem Inv.of_rows (hProper : ∀ row ∈ table.rows, row.Proper)
    (hKnown : ∀ row ∈ table.rows, row.id ∈ s.drawn ++ [uuid])
    (hOthers : ∀ other ∈ s.calls, other.Fits table.rows (s.drawn ++ [uuid]))
    (hNew : call'.Fits table.rows (s.drawn ++ [uuid])) :
    Inv { s with table, calls := s.calls.set k call', drawn := s.drawn ++ [uuid] } :=
  ⟨hProper, hKnown, Sequence.forall_mem_set hOthers hNew⟩

/-- A call that only reads. -/
theorem Inv.read (hInv : Inv s) (hNew : call'.Fits s.table.rows (s.drawn ++ [uuid])) :
    Inv { s with calls := s.calls.set k call', drawn := s.drawn ++ [uuid] } := by
  have hMore : s.drawn ⊆ s.drawn ++ [uuid] := List.subset_append_left _ _
  exact Inv.of_rows hInv.proper (fun row hRow => hMore (hInv.known row hRow))
    (fun other hOther => (hInv.fits other hOther).of_spares
      (fun row hRow => ⟨row, hRow, Spares.refl other row⟩) hMore) hNew

theorem fits_ended {rows : List InstructionRow} {drawn : List InstructionId}
    (hEnded : call' = .returned ∨ call' = .raised) : call'.Fits rows drawn := by
  rcases hEnded with rfl | rfl <;>
    exact ⟨by simp [Call.draft], by simp [Call.editor, Call.draft], by simp, by simp,
      by simp [Call.loadedId]⟩

/-- A draft that only the registry or an integration writes. -/
theorem fits_draft {rows : List InstructionRow} {drawn : List InstructionId}
    {draft : InstructionDraft} (hCall : call'.draft = some draft) (hProper : draft.Proper)
    (hHeld : ∀ userId, draft.authorId = some userId → draft.slot.ownerId = none →
      ∀ row ∈ rows, row.slot = draft.slot → row.system = false ∧ row.authorId = some userId)
    (hNotYet : call'.loadedId = none) : call'.Fits rows drawn := by
  refine ⟨?_, ?_, ?_, ?_, by simp [hNotYet]⟩
  · intro draft' hDraft
    exact Option.some.inj (hCall.symm.trans hDraft) ▸ hProper
  · intro slot userId hEditor hPublic row hRow hSlot
    simp only [Call.editor, hCall, Option.bind_some] at hEditor
    split at hEditor
    · rename_i hIs
      subst hIs
      exact hHeld userId hEditor hPublic row hRow hSlot
    · exact absurd hEditor (by simp)
  · rintro draft' loaded rfl
    exact absurd hNotYet (by simp [Call.loadedId])
  · rintro loaded rfl
    exact absurd hNotYet (by simp [Call.loadedId])

/-- A call that has a draft keeps what is known of it. -/
theorem Call.Fits.goOn {rows : List InstructionRow} {drawn drawn' : List InstructionId}
    {draft draft' : InstructionDraft} (hFits : call.Fits rows drawn)
    (hDraft : call.draft = some draft) (hCall : call'.draft = some draft')
    (hSame : draft'.slot = draft.slot ∧ draft'.system = draft.system ∧
      draft'.authorId = draft.authorId) (hNotYet : call'.loadedId = none) :
    call'.Fits rows drawn' := by
  obtain ⟨hSlot, hSystem, hAuthor⟩ := hSame
  have hProper := hFits.proper draft hDraft
  refine fits_draft hCall ⟨?_, ?_⟩ ?_ hNotYet
  · rw [hSlot, hSystem, hAuthor]
    exact hProper.system_public
  · rw [hSlot, hAuthor]
    exact hProper.author_of_owner
  · intro userId hBy hPublic row hRow hIn
    refine hFits.held draft'.slot userId ?_ hPublic row hRow hIn
    simp [Call.editor, hDraft, hSlot, ← hAuthor, hBy]

theorem fits_beginSave (userId : UserId) (kind : InstructionType)
    (title content : String) (tags : List String) {drawn : List InstructionId} :
    (s.table.beginSave userId kind title content tags).Fits s.table.rows drawn := by
  unfold Table.beginSave
  simp only
  split
  · exact fits_ended (.inr rfl)
  · rename_i hNotSystem
    refine fits_draft rfl ⟨by simp, ?_⟩ ?_ rfl
    · intro owner hOwner
      simp only at hOwner
      split at hOwner
      · exact absurd hOwner (by simp)
      · exact hOwner
    · intro author hAuthor hPublic row hRow hSlot
      simp only [Option.some.injEq] at hAuthor
      subst hAuthor
      simp only at hPublic hSlot
      split at hPublic
      · rename_i hEdit
        rw [if_pos hEdit] at hSlot
        obtain ⟨published, hFound, hHis⟩ := (Option.any_eq_true _ _).mp hEdit
        obtain ⟨hMem, hIs⟩ := Table.findRow_eq_some.mp hFound
        have hSame : row = published := Table.eq_of_slot hRow hMem (hSlot.trans hIs.symm)
        subst hSame
        refine ⟨?_, of_decide_eq_true hHis⟩
        simpa [hFound] using hNotSystem
      · exact absurd hPublic (by simp)

theorem fits_upsert {rows : List InstructionRow} {drawn : List InstructionId}
    {draft : InstructionDraft} {loaded : InstructionRow} (hFits : call.Fits s.table.rows drawn)
    (hDraft : call.draft = some draft) (hFound : s.table.findRow draft.slot = some loaded)
    (hRows : rows = s.table.rows) (hKnown : loaded.id ∈ drawn) :
    (Call.updating draft loaded).Fits rows drawn := by
  subst hRows
  obtain ⟨hMem, hSlot⟩ := Table.findRow_eq_some.mp hFound
  have hProper := hFits.proper draft hDraft
  refine ⟨?_, ?_, ?_, by simp, ?_⟩
  · intro draft' hDraft'
    exact Option.some.inj hDraft' ▸ hProper
  · intro slot userId hEditor
    refine hFits.held slot userId ?_
    rw [← hEditor, Call.editor, Call.editor, hDraft]
    rfl
  · intro draft' loaded' hIs
    obtain ⟨rfl, rfl⟩ := Call.updating.inj hIs
    refine ⟨hSlot, fun row hRow hId => ?_⟩
    -- Only one row has the id.
    obtain rfl := Table.eq_of_id hRow hMem hId
    refine ⟨⟨rfl, rfl, .inl rfl⟩, fun userId hAuthor => ?_⟩
    cases hOwner : draft.slot.ownerId with
    | none =>
        right
        rw [hSlot]
        refine ⟨hOwner, hFits.held draft.slot userId ?_ hOwner row hRow hSlot⟩
        simp [Call.editor, hDraft, hAuthor]
    | some owner =>
        left
        rw [hSlot, hOwner]
        exact (hProper.author_of_owner owner hOwner).symm.trans hAuthor
  · intro id hId
    exact Option.some.inj hId ▸ hKnown

theorem fits_publishing {loaded : InstructionRow} {drawn : List InstructionId} (hInv : Inv s)
    (hMem : loaded ∈ s.table.rows) (hKnown : loaded.id ∈ drawn) :
    (Call.publishing loaded).Fits s.table.rows drawn := by
  refine ⟨by simp [Call.draft], by simp [Call.editor, Call.draft], by simp, ?_, ?_⟩
  · intro loaded' hIs
    obtain rfl := Call.publishing.inj hIs
    have hProper := hInv.proper loaded hMem
    refine ⟨hProper, fun row hRow hId => ?_⟩
    obtain rfl := Table.eq_of_id hRow hMem hId
    refine ⟨⟨rfl, rfl, .inl rfl⟩, fun userId hOwner => .inl ⟨hOwner, fun hSome => ?_⟩⟩
    exact (hProper.author_of_owner userId hOwner).resolve_left hSome
  · intro id hId
    exact Option.some.inj hId ▸ hKnown

/-- A call ends with a statement that replaces some rows by others. -/
theorem Inv.rewrite (hInv : Inv s) (hEnded : call' = .returned ∨ call' = .raised)
    (hProper : ∀ row ∈ table.rows, row.Proper)
    (hSpares : ∀ other ∈ s.calls, ∀ row' ∈ table.rows, ∃ row ∈ s.table.rows,
      Spares other row row')
    (hIds : ∀ row' ∈ table.rows, ∃ row ∈ s.table.rows, row'.id = row.id) :
    Inv { s with table, calls := s.calls.set k call', drawn := s.drawn ++ [uuid] } := by
  have hMore : s.drawn ⊆ s.drawn ++ [uuid] := List.subset_append_left _ _
  refine Inv.of_rows hProper (fun row' hRow' => ?_) (fun other hOther => ?_) (fits_ended hEnded)
  · obtain ⟨row, hRow, hId⟩ := hIds row' hRow'
    exact hMore (hId ▸ hInv.known row hRow)
  · exact (hInv.fits other hOther).of_spares (hSpares other hOther) hMore

/-- A call ends with a statement that changes the rows with an id. -/
theorem Inv.edit (hInv : Inv s) {id : InstructionId} {change : InstructionRow → InstructionRow}
    (hRows : table.rows = s.table.rows.map fun row => if row.id = id then change row else row)
    (hSameId : ∀ row, (change row).id = row.id)
    (hProper : ∀ row ∈ s.table.rows, row.id = id → (change row).Proper)
    (hSpares : ∀ other ∈ s.calls, ∀ row ∈ s.table.rows, row.id = id →
      Spares other row (change row)) :
    Inv { s with table, calls := s.calls.set k .returned, drawn := s.drawn ++ [uuid] } := by
  have hFrom : ∀ row' ∈ table.rows, ∃ row ∈ s.table.rows,
      (if row.id = id then change row else row) = row' :=
    fun row' hRow' => List.mem_map.mp (hRows ▸ hRow')
  refine hInv.rewrite (.inl rfl) (fun row' hRow' => ?_) (fun other hOther row' hRow' => ?_)
    fun row' hRow' => ?_
  · obtain ⟨row, hRow, rfl⟩ := hFrom row' hRow'
    split
    · rename_i hId
      exact hProper row hRow hId
    · exact hInv.proper row hRow
  · obtain ⟨row, hRow, rfl⟩ := hFrom row' hRow'
    refine ⟨row, hRow, ?_⟩
    split
    · rename_i hId
      exact hSpares other hOther row hRow hId
    · exact Spares.refl other row
  · obtain ⟨row, hRow, rfl⟩ := hFrom row' hRow'
    refine ⟨row, hRow, ?_⟩
    split
    · exact hSameId row
    · rfl

theorem Inv.delete (hInv : Inv s) (goes : InstructionRow → Bool)
    (hEnded : call' = .returned ∨ call' = .raised) :
    Inv { s with
      table := s.table.delete goes, calls := s.calls.set k call', drawn := s.drawn ++ [uuid] } := by
  have hLeft : ∀ row ∈ (s.table.delete goes).rows, row ∈ s.table.rows :=
    fun row hRow => List.mem_of_mem_filter hRow
  exact hInv.rewrite hEnded (fun row hRow => hInv.proper row (hLeft row hRow))
    (fun other _ row hRow => ⟨row, hLeft row hRow, Spares.refl other row⟩)
    fun row hRow => ⟨row, hLeft row hRow, rfl⟩

theorem proper_edit {draft : InstructionDraft} {loaded row : InstructionRow} (hRow : row.Proper)
    (hDraft : draft.Proper) (hSlot : loaded.slot = draft.slot) (hFollows : row.Follows loaded)
    (hOwn : ∀ userId, draft.authorId = some userId → row.BelongsTo userId) :
    ((Edit.ofDraft loaded draft).apply row).Proper := by
  refine ⟨fun hSystem => ?_, fun userId hOwner => ?_⟩
  · rcases system_edit draft loaded row with hSame | ⟨hIs, -⟩
    · exact hRow.system_public (hSame.symm.trans hSystem)
    · have hPublic := (hDraft.system_public (hIs.symm.trans hSystem)).1
      change row.slot.ownerId = none
      rw [slot_of_follows hFollows (hSlot ▸ hPublic), hSlot]
      exact hPublic
  · change row.slot.ownerId = some userId at hOwner
    rcases author_edit draft loaded row with hSame | ⟨other, hBy, hIs⟩
    · rw [hSame]
      exact hRow.author_of_owner userId hOwner
    · rcases hOwn other hBy with hHis | ⟨hPublic, -⟩
      · exact .inr (hIs.trans (hHis.symm.trans hOwner))
      · exact absurd (hPublic.symm.trans hOwner) (by simp)

theorem Inv.update (hInv : Inv s) {draft : InstructionDraft} {loaded : InstructionRow}
    (hCall : s.calls[k]? = some (.updating draft loaded))
    (hFree : s.undisturbed (.resume k uuid vector) = true) :
    Inv { s with
      table := s.table.update loaded.id (Edit.ofDraft loaded draft)
      calls := s.calls.set k .returned, drawn := s.drawn ++ [uuid] } := by
  have hWriter := hInv.fits _ (List.mem_of_getElem? hCall)
  obtain ⟨hSlot, hAll⟩ := hWriter.loaded draft loaded rfl
  have hDraft := hWriter.proper draft rfl
  refine hInv.edit rfl (fun _ => rfl) (fun row hRow hId => ?_) fun other hOther row hRow hId => ?_
  · obtain ⟨hFollows, hOwn⟩ := hAll row hRow hId
    exact proper_edit (hInv.proper row hRow) hDraft hSlot hFollows hOwn
  · refine spares_edit hWriter rfl hRow hId ?_
    simp only [InstructionService.undisturbed, hCall, Bool.or_eq_true, Bool.not_eq_true',
      List.all_eq_true, Bool.and_eq_true, decide_eq_true_iff] at hFree
    rcases hFree with (hNo | hOld) | hFree
    · exact .inl hNo
    · exact .inr (.inl hOld)
    · exact .inr (.inr (hFree other hOther))

theorem proper_published {loaded row : InstructionRow} (hRow : row.Proper) :
    (Table.published loaded row).Proper := by
  cases hOwner : loaded.slot.ownerId with
  | none =>
      rw [published_of_public hOwner]
      exact hRow
  | some author =>
      have hPublic : (Table.published loaded row).slot.ownerId = none := by
        simp [Table.published, hOwner]
      exact ⟨fun _ => hPublic, fun userId hIs => absurd (hPublic.symm.trans hIs) (by simp)⟩

theorem Inv.publish (hInv : Inv s) {loaded : InstructionRow}
    (hCall : s.calls[k]? = some (.publishing loaded))
    (hFree : s.undisturbed (.resume k uuid vector) = true)
    (hPublish : s.table.publish loaded = some table) :
    Inv { s with table, calls := s.calls.set k .returned, drawn := s.drawn ++ [uuid] } := by
  have hWriter := hInv.fits _ (List.mem_of_getElem? hCall)
  refine hInv.edit (Table.publish_eq_some hPublish) (fun _ => rfl) (fun row hRow _ => ?_)
    fun other hOther row hRow hId => ?_
  · exact proper_published (hInv.proper row hRow)
  · refine spares_published hWriter rfl hRow (hInv.proper row hRow) hId ?_
    simp only [InstructionService.undisturbed, hCall, Bool.or_eq_true, List.all_eq_true,
      decide_eq_true_iff] at hFree
    rcases hFree with hNo | hFree
    · exact .inl hNo
    · exact .inr (hFree other hOther)

theorem Inv.insert (hInv : Inv s) {draft : InstructionDraft}
    (hCall : s.calls[k]? = some (.inserting draft)) (hUuid : uuid ∉ s.drawn)
    (hFree : s.undisturbed (.resume k uuid vector) = true)
    (hInsert : s.table.insert (draft.toRow uuid) = some table) :
    Inv { s with table, calls := s.calls.set k .returned, drawn := s.drawn ++ [uuid] } := by
  have hWriter := hInv.fits _ (List.mem_of_getElem? hCall)
  have hDraft := hWriter.proper draft rfl
  have hRows := Table.insert_eq_some hInsert
  have hMore : s.drawn ⊆ s.drawn ++ [uuid] := List.subset_append_left _ _
  have hCases : ∀ row ∈ table.rows, row ∈ s.table.rows ∨ row = draft.toRow uuid := by
    intro row hRow
    rw [hRows] at hRow
    rcases List.mem_append.mp hRow with hOld | hNew
    · exact .inl hOld
    · exact .inr (List.mem_singleton.mp hNew)
  refine Inv.of_rows (fun row hRow => ?_) (fun row hRow => ?_) (fun other hOther => ?_)
    (fits_ended (.inl rfl))
  · rcases hCases row hRow with hOld | rfl
    · exact hInv.proper row hOld
    · exact ⟨fun hSystem => (hDraft.system_public hSystem).1,
        fun userId hOwner => .inr (hDraft.author_of_owner userId hOwner)⟩
  · rcases hCases row hRow with hOld | rfl
    · exact hMore (hInv.known row hOld)
    · exact List.mem_append_right _ (List.mem_singleton_self uuid)
  · have hFits := hInv.fits other hOther
    -- the row is new, so nobody has loaded it
    have hUnknown : ∀ id, other.loadedId = some id → (draft.toRow uuid).id ≠ id := by
      rintro id hLoaded rfl
      exact hUuid (hFits.known _ hLoaded)
    refine ⟨hFits.proper, ?_, ?_, ?_, fun id hId => hMore (hFits.known id hId)⟩
    · intro slot userId hEditor hPublic row hRow hSlot
      rcases hCases row hRow with hOld | rfl
      · exact hFits.held slot userId hEditor hPublic row hOld hSlot
      · have hIs : draft.slot = slot := hSlot
        simp only [InstructionService.undisturbed, hCall, Bool.or_eq_true, List.all_eq_true,
          decide_eq_true_iff, hIs, hPublic, ne_eq, not_true_eq_false, false_or] at hFree
        have hAuthor : draft.authorId = some userId := by
          rcases hFree other hOther with hNone | hHim
          · exact absurd (hNone.symm.trans hEditor) (by simp)
          · exact hHim.symm.trans hEditor
        refine ⟨?_, hAuthor⟩
        by_contra hSystem
        have hNobody := (hDraft.system_public (by simpa [InstructionDraft.toRow] using hSystem)).2
        exact absurd (hNobody.symm.trans hAuthor) (by simp)
    · intro draft' loaded hIs
      obtain ⟨hSlot, hAll⟩ := hFits.loaded draft' loaded hIs
      refine ⟨hSlot, fun row hRow hId => ?_⟩
      rcases hCases row hRow with hOld | rfl
      · exact hAll row hOld hId
      · exact absurd hId (hUnknown loaded.id (by rw [hIs]; rfl))
    · intro loaded hIs
      obtain ⟨hProper, hAll⟩ := hFits.departs loaded hIs
      refine ⟨hProper, fun row hRow hId => ?_⟩
      rcases hCases row hRow with hOld | rfl
      · exact hAll row hOld hId
      · exact absurd hId (hUnknown loaded.id (by rw [hIs]; rfl))

theorem fits_savePublic (kind : InstructionType) (title content : String) (tags : List String)
    {drawn : List InstructionId} :
    (s.table.beginSavePublic kind title content tags).Fits s.table.rows drawn := by
  have hDraft : (Call.embedding { slot := publicSlot kind title, content, tags } true).Fits
      s.table.rows drawn :=
    fits_draft rfl ⟨by simp, by simp [publicSlot]⟩ (by simp) rfl
  unfold Table.beginSavePublic
  simp only
  split
  · split
    · exact fits_ended (.inr rfl)
    · split
      · exact fits_ended (.inl rfl)
      · exact hDraft
  · exact hDraft

theorem fits_saveSystem (kind : InstructionType) (title content : String) (tags : List String)
    {drawn : List InstructionId} :
    (s.table.beginSaveSystem kind title content tags).Fits s.table.rows drawn := by
  unfold Table.beginSaveSystem
  simp only
  split
  · exact fits_ended (.inl rfl)
  · exact fits_draft rfl ⟨fun _ => ⟨rfl, rfl⟩, by simp [publicSlot]⟩ (by simp) rfl

theorem fits_beginPublish (hInv : Inv s) (id : InstructionId) :
    (s.table.beginPublish id).Fits s.table.rows (s.drawn ++ [uuid]) := by
  unfold Table.beginPublish
  split
  · rename_i row hRow
    have hMem := (Table.byId_eq_some.mp hRow).1
    split
    · exact fits_ended (.inr rfl)
    · exact fits_publishing hInv hMem (List.mem_append_left _ (hInv.known row hMem))
  · exact fits_ended (.inr rfl)

theorem fits_beginDeletePublic (id : InstructionId) {drawn : List InstructionId} :
    (s.table.beginDeletePublic id).Fits s.table.rows drawn := by
  unfold Table.beginDeletePublic
  split
  · split
    · exact fits_ended (.inr rfl)
    · split
      · exact fits_ended (.inr rfl)
      · exact ⟨by simp [Call.draft], by simp [Call.editor, Call.draft], by simp, by simp,
          by simp [Call.loadedId]⟩
  · exact fits_ended (.inr rfl)

theorem Inv.deleteWhere (hInv : Inv s) (goes : InstructionRow → Bool) :
    Inv { s with
      table := (s.table.deleteWhere goes).2, calls := s.calls.set k (s.table.deleteWhere goes).1
      drawn := s.drawn ++ [uuid] } := by
  refine hInv.delete goes ?_
  simp only [Table.deleteWhere]
  split
  · exact .inl rfl
  · exact .inr rfl

theorem keeps_next (hInv : Inv s) (hCall : s.calls[k]? = some call) (hUuid : uuid ∉ s.drawn)
    (hFree : s.undisturbed (.resume k uuid vector) = true)
    (hNext : s.next uuid vector call = some (call', table)) :
    Inv { s with table, calls := s.calls.set k call', drawn := s.drawn ++ [uuid] } := by
  have hFits := hInv.fits call (List.mem_of_getElem? hCall)
  -- Both lookups of an upsert go on with a row of the table.
  have hFound : ∀ {draft row}, call.draft = some draft → s.table.findRow draft.slot = some row →
      (Call.updating draft row).Fits s.table.rows (s.drawn ++ [uuid]) := by
    intro draft row hDraft hRow
    have hKnown := List.mem_append_left [uuid] (hInv.known row (Table.findRow_eq_some.mp hRow).1)
    have hMore : call.Fits s.table.rows (s.drawn ++ [uuid]) :=
      hFits.of_spares (fun row hRow => ⟨row, hRow, Spares.refl call row⟩)
        (List.subset_append_left _ _)
    exact fits_upsert hMore hDraft hRow rfl hKnown
  cases call with
  | called request =>
      cases request with
      | save userId kind title content tags =>
          obtain ⟨rfl, rfl⟩ := Prod.mk.inj (Option.some.inj hNext)
          exact hInv.read (fits_beginSave userId kind title content tags)
      | savePublic kind title content tags =>
          obtain ⟨rfl, rfl⟩ := Prod.mk.inj (Option.some.inj hNext)
          exact hInv.read (fits_savePublic kind title content tags)
      | saveSystem kind title content tags =>
          obtain ⟨rfl, rfl⟩ := Prod.mk.inj (Option.some.inj hNext)
          exact hInv.read (fits_saveSystem kind title content tags)
      | publish id =>
          obtain ⟨rfl, rfl⟩ := Prod.mk.inj (Option.some.inj hNext)
          exact hInv.read (fits_beginPublish hInv id)
      | delete userId id =>
          obtain ⟨rfl, rfl⟩ := Prod.mk.inj (Option.some.inj hNext)
          exact hInv.deleteWhere _
      | deletePublic id =>
          obtain ⟨rfl, rfl⟩ := Prod.mk.inj (Option.some.inj hNext)
          exact hInv.read (fits_beginDeletePublic id)
      | deleteSystem title kind =>
          obtain ⟨rfl, rfl⟩ := Prod.mk.inj (Option.some.inj hNext)
          exact hInv.deleteWhere _
  | embedding draft lenient =>
      simp only [InstructionService.next] at hNext
      split at hNext
      · obtain ⟨rfl, rfl⟩ := Prod.mk.inj (Option.some.inj hNext)
        exact hInv.read (hFits.goOn rfl rfl ⟨rfl, rfl, rfl⟩ rfl)
      · split at hNext
        · obtain ⟨rfl, rfl⟩ := Prod.mk.inj (Option.some.inj hNext)
          exact hInv.read (hFits.goOn rfl rfl ⟨rfl, rfl, rfl⟩ rfl)
        · obtain ⟨rfl, rfl⟩ := Prod.mk.inj (Option.some.inj hNext)
          exact hInv.read (fits_ended (.inr rfl))
  | finding draft =>
      simp only [InstructionService.next] at hNext
      split at hNext
      · rename_i row hRow
        obtain ⟨rfl, rfl⟩ := Prod.mk.inj (Option.some.inj hNext)
        exact hInv.read (hFound rfl hRow)
      · obtain ⟨rfl, rfl⟩ := Prod.mk.inj (Option.some.inj hNext)
        exact hInv.read (hFits.goOn rfl rfl ⟨rfl, rfl, rfl⟩ rfl)
  | updating draft loaded =>
      simp only [InstructionService.next] at hNext
      split at hNext
      · obtain ⟨rfl, rfl⟩ := Prod.mk.inj (Option.some.inj hNext)
        exact hInv.update hCall hFree
      · obtain ⟨rfl, rfl⟩ := Prod.mk.inj (Option.some.inj hNext)
        exact hInv.read (fits_ended (.inr rfl))
  | inserting draft =>
      simp only [InstructionService.next] at hNext
      split at hNext
      · rename_i table' hInsert
        obtain ⟨rfl, rfl⟩ := Prod.mk.inj (Option.some.inj hNext)
        exact hInv.insert hCall hUuid hFree hInsert
      · obtain ⟨rfl, rfl⟩ := Prod.mk.inj (Option.some.inj hNext)
        exact hInv.read (hFits.goOn rfl rfl ⟨rfl, rfl, rfl⟩ rfl)
  | refinding draft =>
      simp only [InstructionService.next] at hNext
      split at hNext
      · rename_i row hRow
        obtain ⟨rfl, rfl⟩ := Prod.mk.inj (Option.some.inj hNext)
        exact hInv.read (hFound rfl hRow)
      · obtain ⟨rfl, rfl⟩ := Prod.mk.inj (Option.some.inj hNext)
        exact hInv.read (fits_ended (.inr rfl))
  | publishing loaded =>
      simp only [InstructionService.next] at hNext
      split at hNext
      · split at hNext
        · rename_i table' hPublish
          obtain ⟨rfl, rfl⟩ := Prod.mk.inj (Option.some.inj hNext)
          exact hInv.publish hCall hFree hPublish
        · obtain ⟨rfl, rfl⟩ := Prod.mk.inj (Option.some.inj hNext)
          exact hInv.read (fits_ended (.inr rfl))
      · obtain ⟨rfl, rfl⟩ := Prod.mk.inj (Option.some.inj hNext)
        exact hInv.read (fits_ended (.inr rfl))
  | deleting slot =>
      obtain ⟨rfl, rfl⟩ := Prod.mk.inj (Option.some.inj hNext)
      exact hInv.deleteWhere _
  | returned => exact absurd hNext (by simp [InstructionService.next])
  | raised => exact absurd hNext (by simp [InstructionService.next])

theorem keeps_step (m : InstructionService.Move) (hInv : Inv s) (hFree : s.undisturbed m = true)
    (hStep : InstructionService.machine.step s m = some s') : Inv s' := by
  cases m with
  | call request =>
      obtain rfl := Option.some.inj hStep
      refine ⟨hInv.proper, hInv.known, fun other hOther => ?_⟩
      rcases List.mem_append.mp hOther with hOld | hNew
      · exact hInv.fits other hOld
      · rw [List.mem_singleton.mp hNew]
        exact ⟨by simp [Call.draft], by simp [Call.editor, Call.draft], by simp, by simp,
          by simp [Call.loadedId]⟩
  | resume k uuid vector =>
      simp only [InstructionService.machine] at hStep
      split at hStep
      · exact absurd hStep (by simp)
      · rename_i hUuid
        obtain ⟨call, hCall, hStep⟩ := Option.bind_eq_some_iff.mp hStep
        obtain ⟨⟨call', table⟩, hNext, rfl⟩ := Option.map_eq_some_iff.mp hStep
        exact keeps_next hInv hCall hUuid hFree hNext

/-! ## What a save writes -/

theorem update_rightful {draft : InstructionDraft} {loaded row : InstructionRow} {userId : UserId}
    (hFits : (Call.updating draft loaded).Fits s.table.rows s.drawn)
    (hAuthor : draft.authorId = some userId) (hRow : s.table.byId loaded.id = some row) :
    Rightful userId draft.slot.kind draft.slot.title s.table.rows
      (s.table.update loaded.id (Edit.ofDraft loaded draft)).rows := by
  obtain ⟨hSlot, hAll⟩ := hFits.loaded draft loaded rfl
  obtain ⟨hIs, above, below, hRows, hAbove⟩ := List.find?_eq_some_iff_append.mp hRow
  have hId : row.id = loaded.id := by simpa using hIs
  have hMem : row ∈ s.table.rows := hRows ▸ List.mem_append_right _ List.mem_cons_self
  obtain ⟨⟨hKind, hTitle, -⟩, hOwn⟩ := hAll row hMem hId
  have hKeys := s.table.primaryKey
  rw [hRows, List.map_append, List.map_cons, List.nodup_middle, List.nodup_cons,
    ← List.map_append] at hKeys
  -- The id is the key, so the update changes one row.
  have hOthers : ∀ other ∈ above ++ below,
      (if other.id = loaded.id then (Edit.ofDraft loaded draft).apply other else other) = other := by
    intro other hOther
    refine if_neg fun hSame => hKeys.1 ?_
    rw [hId, ← hSame]
    exact List.mem_map_of_mem hOther
  have hUpdated : (s.table.update loaded.id (Edit.ofDraft loaded draft)).rows =
      above ++ (Edit.ofDraft loaded draft).apply row :: below := by
    simp only [Table.update, hRows, List.map_append, List.map_cons, if_pos hId]
    congr 1
    · refine (List.map_congr_left fun other hOther => ?_).trans (List.map_id' above)
      exact hOthers other (List.mem_append_left _ hOther)
    · congr 1
      refine (List.map_congr_left fun other hOther => ?_).trans (List.map_id' below)
      exact hOthers other (List.mem_append_right _ hOther)
  rw [hUpdated, hRows]
  refine .changed ?_ ?_ (hOwn userId hAuthor) ⟨rfl, rfl⟩
  · rw [hKind, hSlot]
  · rw [hTitle, hSlot]

theorem insert_rightful {draft : InstructionDraft} {userId : UserId} (hProper : draft.Proper)
    (hAuthor : draft.authorId = some userId)
    (hInsert : s.table.insert (draft.toRow uuid) = some table) :
    Rightful userId draft.slot.kind draft.slot.title s.table.rows table.rows := by
  rw [Table.insert_eq_some hInsert]
  refine .added rfl rfl ?_
  cases hOwner : draft.slot.ownerId with
  | some owner =>
      exact .inl (hOwner.trans ((hProper.author_of_owner owner hOwner).symm.trans hAuthor))
  | none =>
      refine .inr ⟨hOwner, ?_, hAuthor⟩
      by_contra hSystem
      have hNobody := (hProper.system_public (by simpa [InstructionDraft.toRow] using hSystem)).2
      exact absurd (hNobody.symm.trans hAuthor) (by simp)

/-- A step of a save leaves the table alone, or it is its last one and writes a record that is
the user's to write. -/
theorem save_step (hInv : Inv s) {userId : UserId} {kind : InstructionType} {title : String}
    (hCall : s.calls[k]? = some call) (hSaver : call.saver = some (userId, kind, title))
    (hNext : s.next uuid vector call = some (call', table)) :
    table.rows = s.table.rows ∨
      Rightful userId kind title s.table.rows table.rows ∧ call' = .returned := by
  have hFits := hInv.fits call (List.mem_of_getElem? hCall)
  cases call with
  | called request =>
      cases request with
      | save =>
          obtain ⟨-, rfl⟩ := Prod.mk.inj (Option.some.inj hNext)
          exact .inl rfl
      | _ => exact absurd hSaver (by simp [Call.saver, Call.draft])
  | embedding draft lenient =>
      simp only [InstructionService.next] at hNext
      split at hNext
      · obtain ⟨-, rfl⟩ := Prod.mk.inj (Option.some.inj hNext)
        exact .inl rfl
      · split at hNext <;>
          (obtain ⟨-, rfl⟩ := Prod.mk.inj (Option.some.inj hNext)
           exact .inl rfl)
  | finding draft =>
      simp only [InstructionService.next] at hNext
      split at hNext <;>
        (obtain ⟨-, rfl⟩ := Prod.mk.inj (Option.some.inj hNext)
         exact .inl rfl)
  | refinding draft =>
      simp only [InstructionService.next] at hNext
      split at hNext <;>
        (obtain ⟨-, rfl⟩ := Prod.mk.inj (Option.some.inj hNext)
         exact .inl rfl)
  -- The two steps that write are the last ones of a save.
  | updating draft loaded =>
      simp only [Call.saver, Call.draft, Option.bind_some, Option.map_eq_some_iff,
        Prod.mk.injEq] at hSaver
      obtain ⟨author, hAuthor, rfl, rfl, rfl⟩ := hSaver
      simp only [InstructionService.next] at hNext
      split at hNext
      · rename_i row hRow
        obtain ⟨rfl, rfl⟩ := Prod.mk.inj (Option.some.inj hNext)
        exact .inr ⟨update_rightful hFits hAuthor hRow, rfl⟩
      · obtain ⟨-, rfl⟩ := Prod.mk.inj (Option.some.inj hNext)
        exact .inl rfl
  | inserting draft =>
      simp only [Call.saver, Call.draft, Option.bind_some, Option.map_eq_some_iff,
        Prod.mk.injEq] at hSaver
      obtain ⟨author, hAuthor, rfl, rfl, rfl⟩ := hSaver
      simp only [InstructionService.next] at hNext
      split at hNext
      · rename_i table' hInsert
        obtain ⟨rfl, rfl⟩ := Prod.mk.inj (Option.some.inj hNext)
        exact .inr ⟨insert_rightful (hFits.proper draft rfl) hAuthor hInsert, rfl⟩
      · obtain ⟨-, rfl⟩ := Prod.mk.inj (Option.some.inj hNext)
        exact .inl rfl
  | publishing loaded => exact absurd hSaver (by simp [Call.saver, Call.draft])
  | deleting slot => exact absurd hSaver (by simp [Call.saver, Call.draft])
  | returned => exact absurd hSaver (by simp [Call.saver, Call.draft])
  | raised => exact absurd hSaver (by simp [Call.saver, Call.draft])

end Steps

/-! ## Runs -/

/-- In a run in which no record is adopted or replaced while a save is on its way to it, a step
of a save leaves the table alone, or it is its last one and changes one record: a private one
of the user, or a public one that he is the author of and the registry does not own. -/
theorem saves_respect_ownership {table : Table} (hProper : ∀ row ∈ table.rows, row.Proper)
    {embeddingModel : String} {moves : List InstructionService.Move} {s s' : InstructionService}
    (hRun : InstructionService.machine.run moves { table, embeddingModel } = some s)
    (hFree : InstructionService.machine.always InstructionService.undisturbed moves
      { table, embeddingModel } = true)
    {k : Nat} {uuid : InstructionId} {vector : Option Embedding} {call : Call}
    (hCall : s.calls[k]? = some call) {userId : UserId} {kind : InstructionType} {title : String}
    (hSaver : call.saver = some (userId, kind, title))
    (hStep : InstructionService.machine.step s (.resume k uuid vector) = some s') :
    s'.table.rows = s.table.rows ∨
      Rightful userId kind title s.table.rows s'.table.rows ∧ s'.calls[k]? = some .returned := by
  have hStart : Inv { table, embeddingModel } :=
    ⟨hProper, fun row hRow => List.mem_map_of_mem hRow, by simp⟩
  have hInv : Inv s :=
    Machine.run_keeps_of_always (fun _ m _ hInv hCond hStep => keeps_step m hInv hCond hStep)
      hStart hFree hRun
  simp only [InstructionService.machine, hCall, Option.bind_some] at hStep
  split at hStep
  · exact absurd hStep (by simp)
  · obtain ⟨⟨call', table'⟩, hNext, rfl⟩ := Option.map_eq_some_iff.mp hStep
    rcases save_step hInv hCall hSaver hNext with hSame | ⟨hRightful, rfl⟩
    · exact .inl hSame
    · refine .inr ⟨hRightful, ?_⟩
      rw [List.getElem?_set_self (List.getElem?_eq_some_iff.mp hCall).1]

/-- A skill the user has published. -/
def publishedSkill : InstructionRow where
  id := "r1"
  slot := publicSlot .skill "report"
  content := "old"
  authorId := some "u1"

def withSkill : Table where
  rows := [publishedSkill]

/-- The author edits his skill. -/
def authorEdit : List InstructionService.Move :=
  [.call (.save "u1" .skill "report" "mine" []), .resume 0 "a" none, .resume 0 "b" (some [1]),
    .resume 0 "c" none]

theorem saves_respect_ownership_of_authorEdit :
    ∃ s s', InstructionService.machine.run authorEdit { table := withSkill } = some s ∧
      InstructionService.machine.step s (.resume 0 "d" none) = some s' ∧
        Rightful "u1" .skill "report" s.table.rows s'.table.rows := by
  have hRuns : (InstructionService.machine.run authorEdit { table := withSkill }).bind (fun s =>
      (InstructionService.machine.step s (.resume 0 "d" none)).map fun s' =>
        (s.calls[0]?.bind Call.saver, s.table.rows.map (·.content),
          s'.table.rows.map (·.content))) =
      some (some ("u1", .skill, "report"), ["old"], ["mine"]) := by
    decide +kernel
  obtain ⟨s, hRun, hRest⟩ := Option.bind_eq_some_iff.mp hRuns
  obtain ⟨s', hStep, hEnd⟩ := Option.map_eq_some_iff.mp hRest
  simp only [Prod.mk.injEq] at hEnd
  obtain ⟨hSaver, hBefore, hAfter⟩ := hEnd
  obtain ⟨call, hCall, hSaver⟩ := Option.bind_eq_some_iff.mp hSaver
  have hProper : ∀ row ∈ withSkill.rows, row.Proper := by
    intro row hRow
    rw [List.mem_singleton.mp hRow]
    exact ⟨fun _ => rfl, fun _ hOwner => absurd hOwner (by simp [publishedSkill, publicSlot])⟩
  refine ⟨s, s', hRun, hStep, ?_⟩
  rcases saves_respect_ownership hProper hRun (by decide +kernel) hCall hSaver hStep with
    hSame | ⟨hRightful, -⟩
  · rw [hSame, hBefore] at hAfter
    exact absurd hAfter (by decide)
  · exact hRightful

/-- The registry adopts the skill while the edit of its author waits for its embedding. -/
def adoptedMeanwhile : List InstructionService.Move :=
  [.call (.save "u1" .skill "report" "mine" []), .resume 0 "a" none,
    .call (.saveSystem .skill "report" "registry" []), .resume 1 "b" none, .resume 1 "c" (some [1]),
    .resume 1 "d" none, .resume 1 "e" none, .resume 0 "f" (some [1]), .resume 0 "g" none]

def adoptedSkill : InstructionRow :=
  { publishedSkill with
    content := "registry", embedding := [1], embeddingModel := some "unknown", version := 2
    system := true }

/-- The edit overwrites the system record and takes it from the registry. -/
theorem system_record_overwritten :
    ∃ s s', InstructionService.machine.run adoptedMeanwhile { table := withSkill } = some s ∧
      InstructionService.machine.step s (.resume 0 "h" none) = some s' ∧
        s.calls[0]?.bind Call.saver = some ("u1", .skill, "report") ∧
          s.table.rows = [adoptedSkill] ∧
            s'.table.rows = [{ adoptedSkill with content := "mine", version := 3, system := false }] ∧
              ¬ Rightful "u1" .skill "report" s.table.rows s'.table.rows := by
  have hRuns : (InstructionService.machine.run adoptedMeanwhile { table := withSkill }).bind
      (fun s => (InstructionService.machine.step s (.resume 0 "h" none)).map fun s' =>
        (s.calls[0]?.bind Call.saver, s.table.rows, s'.table.rows)) =
      some (some ("u1", .skill, "report"), [adoptedSkill],
        [{ adoptedSkill with content := "mine", version := 3, system := false }]) := by
    decide +kernel
  obtain ⟨s, hRun, hRest⟩ := Option.bind_eq_some_iff.mp hRuns
  obtain ⟨s', hStep, hEnd⟩ := Option.map_eq_some_iff.mp hRest
  simp only [Prod.mk.injEq] at hEnd
  obtain ⟨hSaver, hBefore, hAfter⟩ := hEnd
  refine ⟨s, s', hRun, hStep, hSaver, hBefore, hAfter, fun hRightful => ?_⟩
  rw [hBefore, hAfter] at hRightful
  generalize hOld : [adoptedSkill] = before at hRightful
  generalize hNew : [{ adoptedSkill with content := "mine", version := 3, system := false }] =
    after at hRightful
  cases hRightful with
  | @changed above below row _ _ _ hOwn _ =>
      have hMem : row ∈ [adoptedSkill] := hOld ▸ List.mem_append_right above List.mem_cons_self
      obtain rfl := List.mem_singleton.mp hMem
      rcases hOwn with hPrivate | ⟨-, hNotSystem, -⟩
      · exact absurd hPrivate (by decide)
      · exact absurd hNotSystem (by decide)
  | added =>
      have hLength := congrArg List.length hNew
      rw [← hOld] at hLength
      simp at hLength

end Instructions
end OctoForge
