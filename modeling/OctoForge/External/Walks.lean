import Mathlib.Data.List.Nodup
import OctoForge.External.Truncation
import OctoForge.Fallible

/-!
# What a walk collects

The walk over the pages of an endpoint makes no more requests than there are pages allowed, and
presents every value of the pagination param once: page numbers and offsets only grow, and a cursor
that has been seen ends the walk.  What it stores is what the pages it accepted hold, page by page.
-/

namespace OctoForge
namespace External

open Collections Fallible

/-! ## The values presented -/

/-- The cursor is at a value that has not been presented. -/
inductive Fresh (pagination : PaginationSpec) : Cursor → (presented : List Text) → Prop
  | number {n : Int} {seen presented : List Text} (hKind : pagination.kind ≠ .cursor)
      (hNodup : presented.Nodup) (hBelow : ∀ t ∈ presented, ∃ m < n, t = Text.ofInt m) :
      Fresh pagination ⟨.number n, seen⟩ presented
  /-- The cursors seen are those presented and the current one. -/
  | token {value : Text} {presented : List Text} (hKind : pagination.kind = .cursor)
      (hNodup : (presented ++ [value]).Nodup) :
      Fresh pagination ⟨.token value, presented ++ [value]⟩ presented

section Cursors

variable {pagination : PaginationSpec} {cursor next : Cursor} {presented : List Text}
  {parsed : ParsedBody} {batchSize : Nat}

theorem fresh_start (pagination : PaginationSpec) : Fresh pagination (.start pagination) [] := by
  unfold Cursor.start
  split
  · rename_i hKind
    show Fresh pagination ⟨.token [], [] ++ [[]]⟩ []
    exact .token hKind (List.nodup_singleton _)
  · rename_i hKind
    exact .number hKind List.nodup_nil (by simp)

theorem Fresh.nodup (hFresh : Fresh pagination cursor presented) :
    (presented ++ [cursor.position.paramValue]).Nodup := by
  cases hFresh with
  | number hKind hNodup hBelow =>
      rw [List.nodup_append]
      refine ⟨hNodup, List.nodup_singleton _, fun t hMem value hValue => ?_⟩
      obtain rfl := List.mem_singleton.mp hValue
      obtain ⟨m, hLess, rfl⟩ := hBelow t hMem
      exact fun hSame => absurd (Text.ofInt_injective hSame) (by omega)
  | token hKind hNodup => exact hNodup

/-- A number that has grown is still above those presented, the last one included. -/
theorem Fresh.grow {n more : Int} {seen : List Text} (hKind : pagination.kind ≠ .cursor)
    (hFresh : Fresh pagination ⟨.number n, seen⟩ presented) (hMore : 0 < more) :
    Fresh pagination ⟨.number (n + more), seen⟩ (presented ++ [Text.ofInt n]) := by
  have hNodup := hFresh.nodup
  cases hFresh with
  | number _ _ hBelow =>
      refine .number hKind hNodup fun t hMem => ?_
      rcases List.mem_append.mp hMem with hOld | hNew
      · obtain ⟨m, hLess, rfl⟩ := hBelow t hOld
        exact ⟨m, by omega, rfl⟩
      · obtain rfl := List.mem_singleton.mp hNew
        exact ⟨n, by omega, rfl⟩

theorem Fresh.advance (hFresh : Fresh pagination cursor presented) (hBatch : 0 < batchSize)
    (hNext : cursor.advance pagination parsed batchSize = some next) :
    Fresh pagination next (presented ++ [cursor.position.paramValue]) := by
  unfold Cursor.advance at hNext
  split at hNext
  · rename_i n hKind hPosition
    obtain rfl := Option.some.inj hNext
    obtain ⟨position, seen⟩ := cursor
    obtain rfl : position = .number n := hPosition
    exact hFresh.grow (by rw [hKind]; nofun) (by omega)
  · rename_i n hKind hPosition
    obtain rfl := Option.some.inj hNext
    obtain ⟨position, seen⟩ := cursor
    obtain rfl : position = .number n := hPosition
    exact hFresh.grow (by rw [hKind]; nofun) (by omega)
  · rename_i hKind
    cases hFresh with
    | number hNot => exact absurd hKind hNot
    | @token value presented _ hNodup =>
        split at hNext
        · cases hNext
        · rename_i found _
          split at hNext
          · cases hNext
          · rename_i hUnseen
            obtain rfl := Option.some.inj hNext
            refine .token hKind (List.nodup_append.mpr ⟨hNodup, List.nodup_singleton _, ?_⟩)
            intro t hMem other hOther
            obtain rfl := List.mem_singleton.mp hOther
            exact fun hSame => hUnseen (hSame ▸ hMem)
  · cases hNext

end Cursors

/-! ## The records of the collection -/

/-- The collection of the sink holds the records of before and those added; a sink that has no
collection has added none. -/
structure Sink.Holds (before added : List (Text × Payload)) (sink : Sink) (tables : Tables) :
    Prop where
  stored : ∀ id, sink.collectionId = some id → tables.recordsAt id = before ++ added
  unstored : sink.collectionId = none → before = [] ∧ added = []

/-- The records a walk finds in the collection it pours into. -/
def Call.recordsBefore (call : Call) (tables : Tables) : List (Text × Payload) :=
  match call.intoId with
  | none => []
  | some id => tables.recordsAt id

section Sinks

variable {tier : Tier} {sink sink' : Sink} {tables after : Tables} {parsed : ParsedBody}
  {byteSize : Nat} {before added : List (Text × Payload)}

theorem Sink.Holds.mono (hHolds : Sink.Holds before added sink tables)
    (hRows : after.rows = tables.rows) : Sink.Holds before added sink after where
  stored id hId := (Tables.recordsAt_congr hRows id).trans (hHolds.stored id hId)
  unstored := hHolds.unstored

theorem holds_start (call : Call) (user : Text) (tables : Tables) :
    Sink.Holds (call.recordsBefore tables) []
      (Sink.start user call.source call.label call.intoId) tables where
  stored id hId := by
    have hInto : call.intoId = some id := hId
    rw [Call.recordsBefore, hInto, List.append_nil]
  unstored hNone := by
    have hInto : call.intoId = none := hNone
    rw [Call.recordsBefore, hInto]
    exact ⟨rfl, rfl⟩

/-- A batch is added behind what is there, under the tag of the sink. -/
theorem Sink.Holds.add_ok (hHolds : Sink.Holds before added sink tables)
    (hRun : sink.add tier parsed byteSize tables = (.ok sink', after)) :
    sink'.source = sink.source ∧
      Sink.Holds before (added ++ parsed.records.map fun payload => (sink.source, payload)) sink'
        after := by
  obtain ⟨schema, middle, hRows, ⟨hNone, passport, hCreate, rfl⟩ | ⟨id, hId, hAppend, rfl⟩⟩ :=
    Sink.add_ok_cases hRun
  · refine ⟨rfl, fun id hSome => ?_, nofun⟩
    obtain rfl : passport.id = id := Option.some.inj hSome
    obtain ⟨rfl, rfl⟩ := hHolds.unstored hNone
    exact Tier.recordsAt_create hCreate
  · refine ⟨rfl, fun other hSome => ?_, nofun⟩
    obtain rfl : id = other := Option.some.inj hSome
    rw [Tier.recordsAt_append hAppend, Tables.recordsAt_congr hRows, hHolds.stored id hId,
      List.append_assoc]

theorem Sink.recordsAt_finish {capped : Bool} {answer : Except StoreError (Option Passport)}
    {id : Text} (hId : sink.collectionId = some id)
    (hRun : sink.finish tier capped tables = (answer, after)) :
    after.recordsAt id = tables.recordsAt id := by
  unfold Sink.finish at hRun
  simp only [hId] at hRun
  have hMarked : ∀ done middle,
      (if capped then tier.markTruncated tables sink.ownerId id else (.ok (), tables)) =
        (done, middle) → middle.recordsAt id = tables.recordsAt id := by
    intro done middle hMark
    cases capped with
    | true => exact Tier.recordsAt_markTruncated hMark
    | false => rw [← (Prod.mk.inj hMark).2]
  split at hRun
  · rename_i hMark
    obtain ⟨-, rfl⟩ := Prod.mk.inj hRun
    exact hMarked _ _ hMark
  · rename_i middle hMark
    have hRead : after.rows = middle.rows := by
      split at hRun
      · rename_i hPassport
        obtain ⟨-, rfl⟩ := Prod.mk.inj hRun
        exact Tier.rows_passport hPassport
      · rename_i hPassport
        obtain ⟨-, rfl⟩ := Prod.mk.inj hRun
        exact Tier.rows_passport hPassport
    rw [Tables.recordsAt_congr hRead, hMarked _ _ hMark]

/-- A sink that is finished as cut has marked its collection. -/
theorem Sink.marked_finish {found : Option Passport} {id : Text}
    (hId : sink.collectionId = some id)
    (hRun : sink.finish tier true tables = (.ok found, after)) : after.marked id = true := by
  unfold Sink.finish at hRun
  simp only [hId, if_true] at hRun
  split at hRun
  · cases hRun
  · rename_i middle hMark
    split at hRun
    · cases hRun
    · rename_i hPassport
      obtain ⟨-, rfl⟩ := Prod.mk.inj hRun
      rw [Tables.marked_congr (Tier.rows_passport hPassport), Tier.marked_of_markTruncated hMark]

end Sinks

/-! ## The loop -/

namespace Executor

variable {e : Executor} {tier : Tier} {call : Call} {pagination : PaginationSpec}
  {ask : Nat → Params → Except Text Page}

/-- What holds of the walk in every turn, holds of how the loop is left. -/
theorem walkPages_keeps {I : (left : Nat) → Walk → Prop} {F : Walk → Prop}
    (hCeiling : ∀ walk, I 0 walk → F walk)
    (hUnanswered : ∀ left walk, I (left + 1) walk → F walk.asking)
    (hLeft : ∀ left walk page ending after, I (left + 1) walk →
      e.visit tier call pagination (walk.answered page) page = (some ending, after) → F after)
    (hOn : ∀ left walk page after, I (left + 1) walk →
      e.visit tier call pagination (walk.answered page) page = (none, after) → I left after)
    {left : Nat} {walk : Walk} (hWalk : I left walk) :
    F (e.walkPages tier call pagination ask left walk).2 := by
  induction left generalizing walk with
  | zero => exact hCeiling walk hWalk
  | succ left ih =>
      rw [walkPages]
      split
      · exact hUnanswered left walk hWalk
      · rename_i page _
        split
        · rename_i ending after hVisit
          exact hLeft left walk page ending after hWalk hVisit
        · rename_i after hVisit
          exact ih (hOn left walk page after hWalk hVisit)

/-- The records of a page in the shape they are stored in. -/
def pageRecords (e : Executor) (spec : ToolSpec) (page : Page) : List Payload :=
  match e.records? spec page with
  | .ok (some parsed) => (e.shaped spec parsed).records
  | _ => []

/-- The page is no error, and has records. -/
def Parses (e : Executor) (spec : ToolSpec) (page : Page) : Prop :=
  page.status < 400 ∧ ∃ parsed, e.records? spec page = .ok (some parsed)

/-- The store refuses the records of the page. -/
def Refuses (e : Executor) (tier : Tier) (call : Call) (walk : Walk) (page : Page) : Prop :=
  ∃ parsed refused earlier after, e.records? call.spec page = .ok (some parsed) ∧
    earlier.rows = walk.tables.rows ∧
    walk.sink.add tier (e.shaped call.spec parsed) page.scrubbed.length earlier =
      (.error refused, after)

/-- What a turn makes of a page: it does not parse, or it is refused, or it is stored. -/
theorem visit_cases (walk : Walk) (page : Page) :
    (∃ ending after, e.visit tier call pagination (walk.answered page) page =
        (some ending, (walk.answered page).unpoured after) ∧ after.rows = walk.tables.rows ∧
        (¬ e.Parses call.spec page ∨
          e.Refuses tier call ((walk.answered page).unpoured after) page)) ∨
    ∃ parsed sink after, e.StoresPage tier call walk page parsed sink after ∧
      ((∃ ending cursor, e.visit tier call pagination (walk.answered page) page =
          (some ending, ((walk.answered page).poured sink after).onto cursor)) ∨
        ∃ cursor, walk.cursor.advance pagination parsed parsed.records.length = some cursor ∧
          e.visit tier call pagination (walk.answered page) page =
            (none, ((walk.answered page).poured sink after).onto cursor)) := by
  -- The turn ends with the status, with a body that does not parse, or with what the store says.
  by_cases hStatus : 400 ≤ page.status
  · refine .inl ⟨if walk.pages = 0 then .refused page else .stopped true, walk.tables, ?_, rfl,
      .inl fun hParses => absurd hParses.1 (by omega)⟩
    rw [visit, if_pos hStatus]
    rfl
  · cases hRecords : e.records? call.spec page with
    | error message =>
        refine .inl ⟨.raised message, walk.tables, ?_, rfl, .inl fun hParses => ?_⟩
        · rw [visit, if_neg hStatus, hRecords]
          rfl
        · obtain ⟨-, parsed, hParsed⟩ := hParses
          cases hRecords.symm.trans hParsed
    | ok body =>
        cases body with
        | none =>
            refine .inl ⟨.stopped false, walk.tables, ?_, rfl, .inl fun hParses => ?_⟩
            · rw [visit, if_neg hStatus, hRecords]
              rfl
            · obtain ⟨-, parsed, hParsed⟩ := hParses
              cases hRecords.symm.trans hParsed
        | some parsed =>
            cases hAdd : walk.sink.add tier (e.shaped call.spec parsed) page.scrubbed.length
                walk.tables with
            | mk answer after =>
                cases answer with
                | error refused =>
                    have hRows := Sink.rows_of_add_error hAdd
                    exact .inl ⟨_, after, visit_of_refused (by omega) hRecords hAdd, hRows,
                      .inr ⟨parsed, refused, walk.tables, after, hRecords, hRows.symm, hAdd⟩⟩
                | ok sink =>
                    have hStored : e.StoresPage tier call walk page parsed sink after :=
                      ⟨by omega, hRecords, hAdd⟩
                    refine .inr ⟨parsed, sink, after, hStored, ?_⟩
                    -- The page is stored by now, whatever ends the walk after it.
                    rw [visit_of_stores hStored]
                    cases parsed.recordTruncated with
                    | true => exact .inl ⟨_, walk.cursor, rfl⟩
                    | false =>
                        cases walk.cursor.advance pagination parsed parsed.records.length with
                        | none => exact .inl ⟨_, walk.cursor, rfl⟩
                        | some cursor =>
                            cases reachedDeclaredTotal pagination parsed sink.recordCount with
                            | true => exact .inl ⟨_, cursor, rfl⟩
                            | false => exact .inr ⟨cursor, rfl, rfl⟩

/-- The records of the pages, under the tag of the call. -/
def collected (e : Executor) (call : Call) (pages : List Page) : List (Text × Payload) :=
  (pages.flatMap (e.pageRecords call.spec)).map fun payload => (call.source, payload)

/-- A walk whose pages have all been accepted. -/
structure Filled (e : Executor) (call : Call) (before : List (Text × Payload)) (walk : Walk) :
    Prop where
  asked : walk.asked.length = walk.pages
  parses : ∀ page ∈ walk.asked, e.Parses call.spec page
  source : walk.sink.source = call.source
  holds : Sink.Holds before (e.collected call walk.asked) walk.sink walk.tables
  empty : walk.sink.collectionId = none → walk.pages = 0

/-- A walk between two turns. -/
structure Going (e : Executor) (call : Call) (pagination : PaginationSpec) (ceiling : Nat)
    (before : List (Text × Payload)) (left : Nat) (walk : Walk) : Prop
    extends Filled e call before walk where
  fresh : Fresh pagination walk.cursor walk.presented
  presented : walk.presented.length = walk.pages
  within : walk.pages + left = ceiling

/-- A walk that has ended: the pages accepted are the first ones, and at most one has come after
them. -/
structure Walked (e : Executor) (tier : Tier) (call : Call) (ceiling : Nat)
    (before : List (Text × Payload)) (walk : Walk) : Prop where
  nodup : walk.presented.Nodup
  within : walk.presented.length ≤ ceiling
  pages : walk.pages ≤ walk.asked.length
  last : walk.asked.length ≤ walk.pages + 1
  parses : ∀ page ∈ walk.asked.take walk.pages, e.Parses call.spec page
  rejects : ∀ page ∈ walk.asked.drop walk.pages,
    ¬ e.Parses call.spec page ∨ e.Refuses tier call walk page
  holds : Sink.Holds before (e.collected call (walk.asked.take walk.pages)) walk.sink walk.tables
  empty : walk.sink.collectionId = none → walk.pages = 0

section Runs

variable {ceiling left : Nat} {before : List (Text × Payload)} {walk : Walk} {page : Page}

theorem records_pos {parsed : ParsedBody}
    (hRecords : e.records? call.spec page = .ok (some parsed)) : 0 < parsed.records.length := by
  obtain ⟨found, -, hFilter⟩ := map_eq_ok.mp hRecords
  have hSome := (Option.filter_eq_some_iff.mp hFilter).2
  exact List.length_pos_iff.mpr (by simpa using hSome)

theorem Filled.walked (tier : Tier) (hFilled : Filled e call before walk)
    (hNodup : walk.presented.Nodup) (hWithin : walk.presented.length ≤ ceiling) :
    Walked e tier call ceiling before walk where
  nodup := hNodup
  within := hWithin
  pages := hFilled.asked.ge
  last := by
    rw [hFilled.asked]
    omega
  parses page hPage := hFilled.parses page (List.mem_of_mem_take hPage)
  rejects page hPage := by
    rw [List.drop_eq_nil_of_le hFilled.asked.le] at hPage
    cases hPage
  holds := by
    rw [List.take_of_length_le hFilled.asked.le]
    exact hFilled.holds
  empty := hFilled.empty

/-- The page of the last request is stored. -/
theorem Filled.stored {parsed : ParsedBody} {sink : Sink} {after : Tables}
    (hFilled : Filled e call before walk) (cursor : Cursor)
    (hStored : e.StoresPage tier call walk page parsed sink after) :
    Filled e call before (((walk.answered page).poured sink after).onto cursor) where
  asked := by
    show (walk.asked ++ [page]).length = walk.pages + 1
    rw [List.length_append, hFilled.asked, List.length_singleton]
  parses other hOther := by
    rcases List.mem_append.mp hOther with hOld | hNew
    · exact hFilled.parses other hOld
    · obtain rfl := List.mem_singleton.mp hNew
      exact ⟨hStored.1, parsed, hStored.2.1⟩
  source := (hFilled.holds.add_ok hStored.2.2).1.trans hFilled.source
  holds := by
    have hHolds := (hFilled.holds.add_ok hStored.2.2).2
    have hPage : e.pageRecords call.spec page = (e.shaped call.spec parsed).records := by
      rw [pageRecords, hStored.2.1]
    have hAll : e.collected call (walk.asked ++ [page]) = e.collected call walk.asked ++
        (e.shaped call.spec parsed).records.map fun payload => (call.source, payload) := by
      rw [collected, List.flatMap_append, List.map_append, List.flatMap_singleton, hPage]
      rfl
    rw [hFilled.source] at hHolds
    show Sink.Holds before (e.collected call (walk.asked ++ [page])) sink after
    rw [hAll]
    exact hHolds
  empty := by
    intro hNone
    obtain ⟨schema, middle, -, ⟨-, passport, -, rfl⟩ | ⟨id, -, -, rfl⟩⟩ :=
      Sink.add_ok_cases hStored.2.2
    · cases hNone
    · cases hNone

/-- A request more is within the ceiling. -/
theorem Going.length_asking (hGoing : Going e call pagination ceiling before (left + 1) walk) :
    walk.asking.presented.length ≤ ceiling := by
  have hWithin := hGoing.within
  show (walk.presented ++ [_]).length ≤ ceiling
  rw [List.length_append, hGoing.presented, List.length_singleton]
  omega

theorem Going.walked (tier : Tier) (hGoing : Going e call pagination ceiling before left walk) :
    Walked e tier call ceiling before walk := by
  have hWithin := hGoing.within
  have hPresented := hGoing.presented
  exact hGoing.toFilled.walked tier (List.nodup_append.mp hGoing.fresh.nodup).1 (by omega)

/-- One more request has been made, and is not answered. -/
theorem Going.unanswered (tier : Tier)
    (hGoing : Going e call pagination ceiling before (left + 1) walk) :
    Walked e tier call ceiling before walk.asking := by
  have hFilled : Filled e call before walk.asking :=
    ⟨hGoing.asked, hGoing.parses, hGoing.source, hGoing.holds, hGoing.empty⟩
  exact hFilled.walked tier hGoing.fresh.nodup hGoing.length_asking

/-- The page of the last request is not accepted. -/
theorem Going.rejected {after : Tables}
    (hGoing : Going e call pagination ceiling before (left + 1) walk)
    (hRows : after.rows = walk.tables.rows)
    (hRejects : ¬ e.Parses call.spec page ∨
      e.Refuses tier call ((walk.answered page).unpoured after) page) :
    Walked e tier call ceiling before ((walk.answered page).unpoured after) where
  nodup := hGoing.fresh.nodup
  within := hGoing.length_asking
  pages := by
    show walk.pages ≤ (walk.asked ++ [page]).length
    rw [List.length_append, hGoing.asked]
    omega
  last := by
    show (walk.asked ++ [page]).length ≤ walk.pages + 1
    rw [List.length_append, hGoing.asked, List.length_singleton]
  parses other hOther := by
    have hTake : (walk.asked ++ [page]).take walk.pages = walk.asked := by
      rw [← hGoing.asked, List.take_left]
    exact hGoing.parses other (hTake ▸ hOther)
  rejects other hOther := by
    have hDrop : (walk.asked ++ [page]).drop walk.pages = [page] := by
      rw [← hGoing.asked, List.drop_left]
    have hIn : other ∈ [page] := hDrop ▸ hOther
    obtain rfl := List.mem_singleton.mp hIn
    exact hRejects
  holds := by
    show Sink.Holds before (e.collected call ((walk.asked ++ [page]).take walk.pages)) walk.sink
      after
    rw [← hGoing.asked, List.take_left]
    exact hGoing.holds.mono hRows
  empty := hGoing.empty

/-- The page of the last request is stored, and the cursor goes on. -/
theorem Going.stored {parsed : ParsedBody} {sink : Sink} {after : Tables} {cursor : Cursor}
    (hGoing : Going e call pagination ceiling before (left + 1) walk)
    (hStored : e.StoresPage tier call walk page parsed sink after)
    (hNext : walk.cursor.advance pagination parsed parsed.records.length = some cursor) :
    Going e call pagination ceiling before left
      (((walk.answered page).poured sink after).onto cursor) where
  toFilled := hGoing.toFilled.stored cursor hStored
  fresh := hGoing.fresh.advance (records_pos hStored.2.1) hNext
  presented := by
    show (walk.presented ++ [_]).length = walk.pages + 1
    rw [List.length_append, hGoing.presented, List.length_singleton]
  within := by
    have hWithin := hGoing.within
    show walk.pages + 1 + left = ceiling
    omega

/-- Every walk ends as a walk that has ended should. -/
theorem Going.walkPages (hGoing : Going e call pagination ceiling before left walk) :
    Walked e tier call ceiling before (e.walkPages tier call pagination ask left walk).2 := by
  refine walkPages_keeps ?_ ?_ ?_ ?_ hGoing
  · exact fun walk hGoing => hGoing.walked tier
  · exact fun left walk hGoing => hGoing.unanswered tier
  · intro left walk page ending after hGoing hVisit
    rcases visit_cases walk page with ⟨_, rows, hIs, hRows, hRejects⟩ |
      ⟨parsed, sink, rows, hStored, ⟨_, cursor, hIs⟩ | ⟨cursor, hNext, hIs⟩⟩
    · obtain ⟨-, rfl⟩ := Prod.mk.inj (hIs.symm.trans hVisit)
      exact hGoing.rejected hRows hRejects
    · obtain ⟨-, rfl⟩ := Prod.mk.inj (hIs.symm.trans hVisit)
      exact (hGoing.toFilled.stored cursor hStored).walked tier hGoing.fresh.nodup
        hGoing.length_asking
    · cases hIs.symm.trans hVisit
  · intro left walk page after hGoing hVisit
    rcases visit_cases walk page with ⟨_, rows, hIs, -, -⟩ |
      ⟨parsed, sink, rows, hStored, ⟨_, cursor, hIs⟩ | ⟨cursor, hNext, hIs⟩⟩
    · cases hIs.symm.trans hVisit
    · cases hIs.symm.trans hVisit
    · obtain ⟨-, rfl⟩ := Prod.mk.inj (hIs.symm.trans hVisit)
      exact hGoing.stored hStored hNext

end Runs

/-! ## The call -/

theorem going_start (e : Executor) (call : Call) (pagination : PaginationSpec) (user : Text)
    (tables : Tables) (ceiling : Nat) :
    Going e call pagination ceiling (call.recordsBefore tables) ceiling
      (call.walk pagination user tables) where
  asked := rfl
  parses page hPage := by cases hPage
  source := rfl
  holds := holds_start call user tables
  empty _ := rfl
  fresh := fresh_start pagination
  presented := rfl
  within := Nat.zero_add ceiling

/-- What the end of the loop makes of the tables keeps the records of the collection. -/
theorem recordsAt_endWalk {marks : Marks} {ended : Ending × Walk} {id : Text}
    (hId : ended.2.sink.collectionId = some id) :
    (e.endWalk marks tier call pagination ended).tables.recordsAt id =
      ended.2.tables.recordsAt id := by
  obtain ⟨ending, walk⟩ := ended
  cases ending with
  | raised | refused => rfl
  | stopped capped =>
      show (e.finishWalk marks tier call capped walk).2.recordsAt id = walk.tables.recordsAt id
      cases hFinish : walk.sink.finish tier capped walk.tables with
      | mk answer after =>
          have hRecords := Sink.recordsAt_finish hId hFinish
          rw [finishWalk, hFinish]
          rcases answer with refused | _ | passport <;> exact hRecords

/-- A walk that is stopped by a cap marks its collection, if the store does as it is asked. -/
theorem marked_endWalk {marks : Marks} {walk : Walk} {id : Text} {found : Option Passport}
    {after : Tables} (hId : walk.sink.collectionId = some id)
    (hFinish : walk.sink.finish tier true walk.tables = (.ok found, after)) :
    (e.endWalk marks tier call pagination (.stopped true, walk)).tables.marked id = true := by
  show (e.finishWalk marks tier call true walk).2.marked id = true
  rw [finishWalk, hFinish]
  cases found <;> exact Sink.marked_finish hId hFinish

end Executor

end External
end OctoForge
