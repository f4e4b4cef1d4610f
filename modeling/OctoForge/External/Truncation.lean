import OctoForge.External.Collect

/-!
# Whether a cut is told

A body may be cut by the reader of the wire, and records may be dropped by the parser.  The
text that a call returns says so on some routes and not on others: a parked document never
does, a walk only when the loop counts the way it was stopped as a cap, and an error page only
when it is cut once more.

The text is compared with the one that the same call gives when the marks are left out: where
nothing is told the two are the same.
-/

namespace OctoForge
namespace External

open Collections

/-- The text has the truncation suffix or the note of a passport in it. -/
def Told (text : Text) : Prop :=
  Marks.source.suffix <:+: text ∨ Marks.source.note <:+: text

theorem Told.append_right {text : Text} (hTold : Told text) (after : Text) :
    Told (text ++ after) :=
  hTold.imp List.infix_append_of_infix_left List.infix_append_of_infix_left

instance (text : Text) : Decidable (Told text) := inferInstanceAs (Decidable (_ ∨ _))

theorem told_append_suffix (before : Text) : Told (before ++ Marks.source.suffix) :=
  .inl List.infix_append_right

section Texts

variable {e : Executor} {marks : Marks} {passport : Passport} {page : Page} {body : Text}

theorem told_renderPassport (hCut : passport.truncated = true) :
    Told (renderPassport .source e.wording passport) := by
  rw [renderPassport, if_pos hCut]
  exact .inr (List.infix_append _ _ _)

theorem renderPassport_of_whole (hWhole : passport.truncated = false) :
    renderPassport marks e.wording passport = renderPassport .none e.wording passport := by
  rw [renderPassport, renderPassport, if_neg (by simp [hWhole]), if_neg (by simp [hWhole])]

theorem told_truncate (hLong : e.truncateChars < body.length) : Told (e.truncate .source body) := by
  rw [Executor.truncate, if_neg (by omega)]
  exact told_append_suffix _

theorem truncate_of_le (hShort : body.length ≤ e.truncateChars) : e.truncate marks body = body :=
  if_pos hShort

/-- The body itself tells of a cut on the wire, and of its own length. -/
theorem told_truncated (hCut : page.wireTruncated = true ∨ e.truncateChars < page.scrubbed.length) :
    Told (e.truncated .source page) := by
  rw [Executor.truncated]
  split
  · exact told_append_suffix _
  · rename_i hEnds
    rcases hCut with hWire | hLong
    · rw [hWire, Bool.true_and, Bool.not_eq_true, Bool.not_eq_false'] at hEnds
      exact .inl (List.isSuffixOf_iff_suffix.mp hEnds).isInfix
    · exact told_truncate hLong

theorem truncated_of_whole (hWire : page.wireTruncated = false)
    (hShort : page.scrubbed.length ≤ e.truncateChars) : e.truncated marks page = page.scrubbed := by
  rw [Executor.truncated, hWire, if_neg (by simp), truncate_of_le hShort]

end Texts

/-! ## A call that is shown -/

namespace Executor

variable (e : Executor)

/-- The parser has dropped records of the page. -/
def drops (spec : ToolSpec) (page : Page) : Bool :=
  match e.parsed spec page with
  | .ok (some found) => found.recordTruncated
  | _ => false

/-- The home of documents takes the page. -/
def homeTakes (spill : Spill) (context : SpillContext) (page : Page) (tables : Tables)
    (document : Option Json) : Bool :=
  match spill.documents with
  | none => false
  | some (.memory _) => true
  | some (.database tier) =>
      (tier.create tables (parkedCollection context page.scrubbed document)).1.isOk

/-- The database tier takes the records of the page. -/
def storeTakes (spill : Spill) (spec : ToolSpec) (context : SpillContext) (page : Page)
    (tables : Tables) (found : ParsedBody) : Bool :=
  match spill.store with
  | none => false
  | some tier => (tier.create tables (e.spilledCollection spec context page found)).1.isOk

/-- A body that has been parsed is parked as a document: it is not structured, or a single
document, or there is no database tier for its records. -/
def parksBody (spill : Spill) (context : SpillContext) (page : Page) (tables : Tables) :
    Option ParsedBody → Bool
  | none => homeTakes spill context page tables none
  | some found =>
      !found.records.isEmpty && (found.singleDocument || spill.store.isNone) &&
        homeTakes spill context page tables found.document

/-- The records of a body become a collection. -/
def storesBody (spill : Spill) (spec : ToolSpec) (context : SpillContext) (page : Page)
    (tables : Tables) : Option ParsedBody → Bool
  | none => false
  | some found =>
      !found.records.isEmpty && !(found.singleDocument && spill.documents.isSome) &&
        e.storeTakes spill spec context page tables found

/-- A long body is parked. -/
def parks (spill : Spill) (spec : ToolSpec) (context : SpillContext) (page : Page)
    (tables : Tables) : Bool :=
  match e.parsed spec page with
  | .error _ => false
  | .ok found =>
      decide (spill.inlineMaxChars < page.scrubbed.length) &&
        parksBody spill context page tables found

/-- A long body becomes a collection. -/
def stores (spill : Spill) (spec : ToolSpec) (context : SpillContext) (page : Page)
    (tables : Tables) : Bool :=
  match e.parsed spec page with
  | .error _ => false
  | .ok found =>
      decide (spill.inlineMaxChars < page.scrubbed.length) &&
        e.storesBody spill spec context page tables found

variable {e : Executor} {spill : Spill} {spec : ToolSpec} {context : SpillContext} {page : Page}
  {tables : Tables} {found : ParsedBody} {document : Option Json}

/-- A document has been parked, whatever the marks are. -/
def Parked (run : Marks → Except StoreError (Option Text) × Tables) : Prop :=
  ∃ text after, ∀ marks, run marks = (.ok (some text), after)

/-- A collection has been created, and its passport carries the mark if `cut`. -/
def Kept (wording : Wording) (cut : Bool) (run : Marks → Except StoreError (Option Text) × Tables) :
    Prop :=
  ∃ passport after, passport.truncated = cut ∧
    ∀ marks, run marks = (.ok (some (renderPassport marks wording passport)), after)

/-- The body is left to the caller. -/
def Left (run : Marks → Except StoreError (Option Text) × Tables) : Prop :=
  ∃ answer after, (∀ text, answer ≠ .ok (some text)) ∧ ∀ marks, run marks = (answer, after)

theorem left_of_error {refused : StoreError} {after : Tables}
    {run : Marks → Except StoreError (Option Text) × Tables}
    (hRun : ∀ marks, run marks = (.error refused, after)) : Left run :=
  ⟨.error refused, after, nofun, hRun⟩

theorem left_of_none {after : Tables} {run : Marks → Except StoreError (Option Text) × Tables}
    (hRun : ∀ marks, run marks = (.ok none, after)) : Left run :=
  ⟨.ok none, after, nofun, hRun⟩

/-- The home takes a document, or raises, or is not there. -/
theorem park_cases :
    (homeTakes spill context page tables document = true ∧
        ∃ text after, e.park spill context page document tables = (.ok (some text), after)) ∨
      (homeTakes spill context page tables document = false ∧ spill.documents.isSome = true ∧
        ∃ refused after, e.park spill context page document tables = (.error refused, after)) ∨
      (homeTakes spill context page tables document = false ∧ spill.documents = none ∧
        e.park spill context page document tables = (.ok none, tables)) := by
  unfold homeTakes Executor.park
  cases hHome : spill.documents with
  | none => exact .inr (.inr ⟨rfl, rfl, rfl⟩)
  | some home =>
      cases home with
      | memory freshId => exact .inl ⟨rfl, _, _, rfl⟩
      | database tier =>
          simp only [Home.park]
          cases hCreate : tier.create tables (parkedCollection context page.scrubbed document) with
          | mk answer after =>
              cases answer with
              | ok passport => exact .inl ⟨rfl, _, _, rfl⟩
              | error refused => exact .inr (.inl ⟨rfl, rfl, _, _, rfl⟩)

theorem park_split :
    (homeTakes spill context page tables document = true ∧
        Parked fun _ => e.park spill context page document tables) ∨
      (homeTakes spill context page tables document = false ∧
        Left fun _ => e.park spill context page document tables) := by
  rcases park_cases (e := e) with ⟨hTakes, text, after, hPark⟩ | ⟨hTakes, -, refused, after, hPark⟩ |
    ⟨hTakes, -, hPark⟩
  · exact .inl ⟨hTakes, text, after, fun _ => hPark⟩
  · exact .inr ⟨hTakes, left_of_error fun _ => hPark⟩
  · exact .inr ⟨hTakes, left_of_none fun _ => hPark⟩

/-- The tier takes the records or raises, or there is none and they are parked. -/
theorem storeRecords_cases :
    (spill.store.isSome = true ∧ e.storeTakes spill spec context page tables found = true ∧
        Kept e.wording (page.wireTruncated || found.recordTruncated)
          fun marks => e.storeRecords marks spill spec context page found tables) ∨
      (spill.store.isSome = true ∧ e.storeTakes spill spec context page tables found = false ∧
        Left fun marks => e.storeRecords marks spill spec context page found tables) ∨
      (spill.store = none ∧ e.storeTakes spill spec context page tables found = false ∧
        ∀ marks, e.storeRecords marks spill spec context page found tables =
          e.park spill context page found.document tables) := by
  unfold Executor.storeTakes Executor.storeRecords
  cases hStore : spill.store with
  | none => exact .inr (.inr ⟨rfl, rfl, fun _ => rfl⟩)
  | some tier =>
      cases hCreate : tier.create tables (e.spilledCollection spec context page found) with
      | mk answer after =>
          cases answer with
          | ok passport =>
              refine .inl ⟨rfl, by simp [hCreate, Except.isOk, Except.toBool], passport, after,
                (Tier.create_ok hCreate).1, fun _ => ?_⟩
              simp [hCreate]
          | error refused =>
              refine .inr (.inl ⟨rfl, by simp [hCreate, Except.isOk, Except.toBool],
                @left_of_error refused after _ fun _ => ?_⟩)
              simp [hCreate]

/-- The ways of a body, and what each makes of it. -/
theorem route_cases (body : Option ParsedBody) :
    (parksBody spill context page tables body = true ∧
        Parked fun marks => e.route marks spill spec context page tables body) ∨
      (parksBody spill context page tables body = false ∧
        e.storesBody spill spec context page tables body = true ∧
        Kept e.wording (page.wireTruncated || body.any (·.recordTruncated))
          fun marks => e.route marks spill spec context page tables body) ∨
      (parksBody spill context page tables body = false ∧
        e.storesBody spill spec context page tables body = false ∧
        Left fun marks => e.route marks spill spec context page tables body) := by
  cases body with
  | none =>
      rcases @park_split e spill context page tables none with ⟨hTakes, hParked⟩ | ⟨hTakes, hLeft⟩
      · exact .inl ⟨hTakes, hParked⟩
      · exact .inr (.inr ⟨hTakes, rfl, hLeft⟩)
  | some found =>
      simp only [parksBody, storesBody, route, Option.any_some]
      cases hEmpty : found.records.isEmpty with
      | true => exact .inr (.inr ⟨rfl, rfl, left_of_none fun _ => rfl⟩)
      | false =>
          -- A single document is parked before it is stored, records are stored before they are
          -- parked.
          cases hSingle : found.singleDocument with
          | true =>
              rcases @park_cases e spill context page tables found.document with
                ⟨hTakes, text, after, hPark⟩ | ⟨hTakes, hHome, refused, after, hPark⟩ |
                ⟨hTakes, hHome, hPark⟩
              · exact .inl ⟨by simp [hTakes], text, after, fun _ => by simp [hPark]⟩
              · exact .inr (.inr ⟨by simp [hTakes], by simp [hHome],
                  @left_of_error refused after _ fun _ => by simp [hPark]⟩)
              · rcases @storeRecords_cases e spill spec context page tables found with
                  ⟨-, hStores, hKept⟩ | ⟨-, hStores, hLeft⟩ | ⟨-, hStores, hSame⟩
                · exact .inr (.inl ⟨by simp [hTakes], by simp [hHome, hStores],
                    by simpa [hPark] using hKept⟩)
                · exact .inr (.inr ⟨by simp [hTakes], by simp [hStores],
                    by simpa [hPark] using hLeft⟩)
                · exact .inr (.inr ⟨by simp [hTakes], by simp [hStores],
                    @left_of_none tables _ fun _ => by simp [hPark, hSame]⟩)
          | false =>
              rcases @storeRecords_cases e spill spec context page tables found with
                ⟨hStore, hStores, hKept⟩ | ⟨hStore, hStores, hLeft⟩ | ⟨hStore, hStores, hSame⟩
              · rw [Option.isSome_iff_ne_none] at hStore
                exact .inr (.inl ⟨by simp [hStore], by simp [hStores], by simpa using hKept⟩)
              · rw [Option.isSome_iff_ne_none] at hStore
                exact .inr (.inr ⟨by simp [hStore], by simp [hStores], by simpa using hLeft⟩)
              · rcases @park_split e spill context page tables found.document with
                  ⟨hTakes, hParked⟩ | ⟨hTakes, hLeft⟩
                · exact .inl ⟨by simp [hStore, hTakes], by simpa [hSame] using hParked⟩
                · exact .inr (.inr ⟨by simp [hTakes], by simp [hStores],
                    by simpa [hSame] using hLeft⟩)

theorem spillPage_cases :
    (e.parks spill spec context page tables = true ∧
        ∃ text after, ∀ marks, e.spillPage marks spill spec context page tables =
          (some text, after)) ∨
      (e.parks spill spec context page tables = false ∧
        e.stores spill spec context page tables = true ∧
        ∃ passport after, passport.truncated = (page.wireTruncated || e.drops spec page) ∧
          ∀ marks, e.spillPage marks spill spec context page tables =
            (some (renderPassport marks e.wording passport), after)) ∨
      (e.parks spill spec context page tables = false ∧
        e.stores spill spec context page tables = false ∧
        ∃ after, ∀ marks, e.spillPage marks spill spec context page tables = (none, after)) := by
  unfold parks stores drops spillPage
  by_cases hLong : spill.inlineMaxChars < page.scrubbed.length
  · simp only [if_neg (Nat.not_le.mpr hLong), hLong, decide_true, Bool.true_and]
    cases hParsed : e.parsed spec page with
    | error message => exact .inr (.inr ⟨rfl, rfl, tables, fun _ => rfl⟩)
    | ok body =>
        rcases @route_cases e spill spec context page tables body with
          ⟨hParks, text, after, hRun⟩ | ⟨hParks, hStores, passport, after, hMark, hRun⟩ |
          ⟨hParks, hStores, answer, after, hAnswer, hRun⟩
        · beta_reduce at hRun
          exact .inl ⟨hParks, text, after, fun marks => by simp only [hRun]⟩
        · beta_reduce at hRun
          refine .inr (.inl ⟨hParks, hStores, passport, after, ?_, fun marks => by
            simp only [hRun]⟩)
          rw [hMark]
          cases body <;> rfl
        · beta_reduce at hRun
          refine .inr (.inr ⟨hParks, hStores, after, fun marks => ?_⟩)
          simp only [hRun]
          cases answer with
          | error refused => rfl
          | ok passport =>
              cases passport with
              | none => rfl
              | some text => exact absurd rfl (hAnswer text)
  -- A short body stays inline, whether it can be parsed or not.
  · simp only [if_pos (Nat.not_lt.mp hLong), hLong, decide_false, Bool.false_and]
    cases e.parsed spec page with
    | error message => exact .inr (.inr ⟨rfl, rfl, tables, fun _ => rfl⟩)
    | ok body => exact .inr (.inr ⟨rfl, rfl, tables, fun _ => rfl⟩)

/-! ## What is cut, and what is said -/

variable (e)

/-- The parser is run on the page. -/
def parses (call : Call) (page : Page) : Bool :=
  if call.collect then decide (page.status < 400)
  else if call.into.isSome then (e.tier? call).isSome
  else
    match e.spill, call.user with
    | some spill, some _ => decide (spill.inlineMaxChars < page.scrubbed.length)
    | _, _ => false

/-- Something of the page is missing: the wire reader cut it, or the parser dropped records. -/
def cut (call : Call) (page : Page) : Bool :=
  page.wireTruncated || (e.parses call page && e.drops call.spec page)

/-- The body that is shown is cut, or was cut on the wire. -/
def bodySays (page : Page) : Bool :=
  page.wireTruncated || decide (e.truncateChars < page.scrubbed.length)

/-- A response that is shown tells of its cut: it is not parked, and it becomes a collection,
or its body says so. -/
def shownSays (call : Call) (page : Page) (tables : Tables) : Bool :=
  match e.spill, call.user with
  | some spill, some ownerId =>
      !e.parks spill call.spec ⟨ownerId, call.source⟩ page tables &&
        (e.stores spill call.spec ⟨ownerId, call.source⟩ page tables || e.bodySays page)
  | _, _ => e.bodySays page

variable {e} {call : Call} {marks : Marks}

theorem told_of_bodySays (hSays : e.bodySays page = true) : Told (e.truncated .source page) :=
  told_truncated (by simpa [bodySays] using hSays)

theorem truncated_of_bodySays_false (hSays : e.bodySays page = false) :
    e.truncated marks page = page.scrubbed := by
  obtain ⟨hWire, hShort⟩ : page.wireTruncated = false ∧ page.scrubbed.length ≤ e.truncateChars := by
    simpa [bodySays] using hSays
  exact truncated_of_whole hWire hShort

/-- A response that is cut tells of it, or is shown as it would be without the marks. -/
theorem present_cases (hCut : e.cut call page = true) :
    (e.shownSays call page tables = true ∧
        Told (e.spillOrTruncate .source call.spec call.name call.user page tables).1) ∨
      (e.shownSays call page tables = false ∧
        e.spillOrTruncate .source call.spec call.name call.user page tables =
          e.spillOrTruncate .none call.spec call.name call.user page tables) := by
  -- An inline body tells of the cut by its suffix, or does not say at all.
  have hBody : (e.bodySays page = true ∧ Told (e.truncated .source page)) ∨
      (e.bodySays page = false ∧ e.truncated .source page = e.truncated .none page) := by
    cases hSays : e.bodySays page with
    | true => exact .inl ⟨rfl, told_of_bodySays hSays⟩
    | false =>
        exact .inr ⟨rfl, by
          rw [truncated_of_bodySays_false hSays, truncated_of_bodySays_false hSays]⟩
  have hSource : "endpoint:".toList ++ call.name = call.source := rfl
  unfold shownSays spillOrTruncate
  rw [hSource]
  cases hSpill : e.spill with
  | none => simpa using hBody
  | some spill =>
      cases hUser : call.user with
      | none => simpa using hBody
      | some ownerId =>
          rcases @spillPage_cases e spill call.spec ⟨ownerId, call.source⟩ page tables with
            ⟨hParks, text, after, hRun⟩ | ⟨hParks, hStores, passport, after, hMark, hRun⟩ |
            ⟨hParks, hStores, after, hRun⟩
          · exact .inr ⟨by simp [hParks], by simp [hRun]⟩
          · have hMissing : passport.truncated = true := by
              rw [hMark, Bool.or_eq_true]
              simp only [cut, Bool.or_eq_true, Bool.and_eq_true] at hCut
              exact hCut.imp_right And.right
            refine .inl ⟨by simp [hParks, hStores], ?_⟩
            simp only [hRun]
            exact told_renderPassport hMissing
          · rcases hBody with ⟨hSays, hTold⟩ | ⟨hSays, hSame⟩
            · exact .inl ⟨by simp [hParks, hSays], by simpa [hRun] using hTold⟩
            · exact .inr ⟨by simp [hParks, hStores, hSays], by simp [hRun, hSame]⟩

/-! ## A call that pours into a collection -/

variable (e)

/-- The records of the page are appended, and the passport of the collection is read back with
the mark. -/
def pours (call : Call) (page : Page) (tables : Tables) : Bool :=
  match e.tier? call, e.records? call.spec page with
  | some (tier, user), .ok (some parsed) =>
      match (Sink.start user call.source [] call.intoId).add tier (e.shaped call.spec parsed)
        page.scrubbed.length tables with
      | (.ok sink, after) =>
          match (sink.finish tier true after).1 with
          | .ok (some _) => true
          | _ => false
      | _ => false
  | _, _ => false

variable {e}

theorem drops_of_records? {parsed : ParsedBody}
    (hRecords : e.records? spec page = .ok (some parsed)) :
    e.drops spec page = parsed.recordTruncated := by
  unfold records? at hRecords
  unfold drops
  cases hParsed : e.parsed spec page with
  | error message => simp [hParsed, Except.map] at hRecords
  | ok body =>
      simp only [hParsed, Except.map, Except.ok.injEq, Option.filter_eq_some_iff] at hRecords
      simp only [hRecords.1]

theorem pourInto_cases (hCut : e.cut call page = true) :
    (e.pours call page tables = true ∧ Told (e.pourInto .source call page tables).1.text) ∨
      (e.pours call page tables = false ∧
        e.pourInto .source call page tables = e.pourInto .none call page tables) := by
  unfold pours pourInto
  cases hTier : e.tier? call with
  | none => exact .inr ⟨rfl, rfl⟩
  | some pair =>
      obtain ⟨tier, user⟩ := pair
      cases hRecords : e.records? call.spec page with
      | error message => exact .inr ⟨rfl, rfl⟩
      | ok body =>
          cases body with
          | none => exact .inr ⟨rfl, rfl⟩
          | some parsed =>
              -- The response is cut, so the collection gets its mark.
              have hMissing : (page.wireTruncated || parsed.recordTruncated) = true := by
                rw [← drops_of_records? hRecords, Bool.or_eq_true]
                simp only [cut, Bool.or_eq_true, Bool.and_eq_true] at hCut
                exact hCut.imp_right And.right
              simp only [hMissing]
              cases hAdd : (Sink.start user call.source [] call.intoId).add tier
                  (e.shaped call.spec parsed) page.scrubbed.length tables with
              | mk answer after =>
                  cases answer with
                  | error refused => exact .inr ⟨rfl, rfl⟩
                  | ok sink =>
                      have hCarries := Sink.carries_start.add_ok hAdd
                      cases hFinish : sink.finish tier true after with
                      | mk answer done =>
                          rcases answer with refused | _ | passport
                          · exact .inr ⟨by simp [hFinish], by simp [hFinish]⟩
                          · exact .inr ⟨by simp [hFinish], by simp [hFinish]⟩
                          · refine .inl ⟨by simp [hFinish], ?_⟩
                            simp only [hFinish]
                            exact told_renderPassport (hCarries.finish_ok hFinish)

/-! ## A walk -/

section Walks

variable (e) (tier : Tier) (call : Call) (pagination : PaginationSpec)
  (ask : Nat → Params → Except Text Page)

/-- The next request of a walk is answered. -/
def Answers (walk : Walk) (page : Page) : Prop :=
  ask walk.presented.length (walk.params pagination call.params) = .ok page

/-- The records of a page are stored. -/
def StoresPage (walk : Walk) (page : Page) (parsed : ParsedBody) (sink : Sink) (after : Tables) :
    Prop :=
  page.status < 400 ∧ e.records? call.spec page = .ok (some parsed) ∧
    walk.sink.add tier (e.shaped call.spec parsed) page.scrubbed.length walk.tables =
      (.ok sink, after)

/-- The walk, with so many pages left, is stopped; `capped` are the ways of being stopped that
the loop counts as a cap. -/
inductive Stops : (left : Nat) → Walk → (capped : Bool) → Walk → Prop
  | ceiling (walk : Walk) : Stops 0 walk true walk
  /-- An error status past the first page. -/
  | error {left walk page} (hAsk : Answers call pagination ask walk page)
      (hStatus : 400 ≤ page.status) (hLater : walk.pages ≠ 0) :
      Stops (left + 1) walk true (walk.answered page)
  /-- The quota refuses the records of the page. -/
  | quota {left walk page parsed message after} (hAsk : Answers call pagination ask walk page)
      (hStatus : page.status < 400) (hRecords : e.records? call.spec page = .ok (some parsed))
      (hQuota : walk.sink.add tier (e.shaped call.spec parsed) page.scrubbed.length walk.tables =
        (.error (.quota message), after)) :
      Stops (left + 1) walk true ((walk.answered page).unpoured after)
  /-- The page holds more than `MAX_RECORDS`. -/
  | dropped {left walk page parsed sink after} (hAsk : Answers call pagination ask walk page)
      (hStored : e.StoresPage tier call walk page parsed sink after)
      (hDropped : parsed.recordTruncated = true) :
      Stops (left + 1) walk true ((walk.answered page).poured sink after)
  /-- The page is empty, or does not parse. -/
  | nothing {left walk page} (hAsk : Answers call pagination ask walk page)
      (hStatus : page.status < 400) (hNothing : e.records? call.spec page = .ok none) :
      Stops (left + 1) walk false (walk.answered page)
  /-- There is no next cursor. -/
  | last {left walk page parsed sink after} (hAsk : Answers call pagination ask walk page)
      (hStored : e.StoresPage tier call walk page parsed sink after)
      (hWhole : parsed.recordTruncated = false)
      (hLast : walk.cursor.advance pagination parsed parsed.records.length = none) :
      Stops (left + 1) walk false ((walk.answered page).poured sink after)
  /-- The declared total is reached. -/
  | total {left walk page parsed sink after cursor} (hAsk : Answers call pagination ask walk page)
      (hStored : e.StoresPage tier call walk page parsed sink after)
      (hWhole : parsed.recordTruncated = false)
      (hNext : walk.cursor.advance pagination parsed parsed.records.length = some cursor)
      (hTotal : reachedDeclaredTotal pagination parsed sink.recordCount = true) :
      Stops (left + 1) walk false (((walk.answered page).poured sink after).onto cursor)
  | later {left walk page parsed sink after cursor capped stopped}
      (hAsk : Answers call pagination ask walk page)
      (hStored : e.StoresPage tier call walk page parsed sink after)
      (hWhole : parsed.recordTruncated = false)
      (hNext : walk.cursor.advance pagination parsed parsed.records.length = some cursor)
      (hTotal : reachedDeclaredTotal pagination parsed sink.recordCount = false)
      (hRest : Stops left (((walk.answered page).poured sink after).onto cursor) capped stopped) :
      Stops (left + 1) walk capped stopped

variable {e tier call pagination ask} {walk stopped : Walk} {capped : Bool}

/-- What a turn of the loop is, for a page that is stored. -/
theorem visit_of_stores {parsed : ParsedBody} {sink : Sink} {after : Tables}
    (hStored : e.StoresPage tier call walk page parsed sink after) :
    e.visit tier call pagination (walk.answered page) page =
      if parsed.recordTruncated then (some (.stopped true), (walk.answered page).poured sink after)
      else
        match walk.cursor.advance pagination parsed parsed.records.length with
        | none => (some (.stopped false), (walk.answered page).poured sink after)
        | some cursor =>
            if reachedDeclaredTotal pagination parsed sink.recordCount then
              (some (.stopped false), ((walk.answered page).poured sink after).onto cursor)
            else (none, ((walk.answered page).poured sink after).onto cursor) := by
  obtain ⟨hStatus, hRecords, hAdd⟩ := hStored
  rw [visit, if_neg (by omega), hRecords]
  cases hCursor : walk.cursor.advance pagination parsed parsed.records.length with
  | none =>
      simp only [store, Walk.answered_sink, Walk.answered_tables, Walk.answered_cursor, hAdd, hCursor]
  | some cursor =>
      simp only [store, Walk.answered_sink, Walk.answered_tables, Walk.answered_cursor, hAdd, hCursor]

theorem visit_of_refused {parsed : ParsedBody} {refused : StoreError} {after : Tables}
    (hStatus : page.status < 400) (hRecords : e.records? call.spec page = .ok (some parsed))
    (hAdd : walk.sink.add tier (e.shaped call.spec parsed) page.scrubbed.length walk.tables =
      (.error refused, after)) :
    e.visit tier call pagination (walk.answered page) page =
      (some (match refused with
        | .quota _ => .stopped true
        | refused => .raised refused.message), (walk.answered page).unpoured after) := by
  rw [visit, if_neg (by omega), hRecords]
  cases refused <;> simp only [store, Walk.answered_sink, Walk.answered_tables, hAdd]

theorem walkPages_of_visit {left : Nat} (hAsk : Answers call pagination ask walk page) :
    e.walkPages tier call pagination ask (left + 1) walk =
      match e.visit tier call pagination (walk.answered page) page with
      | (some ending, walk) => (ending, walk)
      | (none, walk) => e.walkPages tier call pagination ask left walk := by
  rcases hVisit : e.visit tier call pagination (walk.answered page) page with ⟨_ | ending, after⟩
  · rw [walkPages, hAsk]
    simp only [hVisit]
  · rw [walkPages, hAsk]
    simp only [hVisit]

theorem walkPages_of_stops {left : Nat}
    (hStops : e.Stops tier call pagination ask left walk capped stopped) :
    e.walkPages tier call pagination ask left walk = (.stopped capped, stopped) := by
  induction hStops with
  | ceiling walk => rfl
  | error hAsk hStatus hLater =>
      rw [walkPages_of_visit hAsk]
      simp [visit, hStatus, hLater]
  | quota hAsk hStatus hRecords hQuota =>
      rw [walkPages_of_visit hAsk]
      simp only [visit_of_refused hStatus hRecords hQuota]
  | dropped hAsk hStored hDropped =>
      rw [walkPages_of_visit hAsk]
      simp only [visit_of_stores hStored, hDropped, if_true]
  | nothing hAsk hStatus hNothing =>
      rw [walkPages_of_visit hAsk]
      simp only [visit, if_neg (Nat.not_le.mpr hStatus), hNothing]
  | last hAsk hStored hWhole hLast =>
      rw [walkPages_of_visit hAsk]
      simp [visit_of_stores hStored, hWhole, hLast]
  | total hAsk hStored hWhole hNext hTotal =>
      rw [walkPages_of_visit hAsk]
      simp [visit_of_stores hStored, hWhole, hNext, hTotal]
  | later hAsk hStored hWhole hNext hTotal hRest ih =>
      rw [walkPages_of_visit hAsk, ← ih]
      simp [visit_of_stores hStored, hWhole, hNext, hTotal]

/-- A loop that is stopped at a page it has stored, or after it. -/
theorem stops_of_stores {left : Nat} {parsed : ParsedBody} {sink : Sink} {after : Tables}
    (hAsk : Answers call pagination ask walk page)
    (hStored : e.StoresPage tier call walk page parsed sink after)
    (hRest : ∀ {walk : Walk}, e.walkPages tier call pagination ask left walk =
      (.stopped capped, stopped) → e.Stops tier call pagination ask left walk capped stopped)
    (hRun : e.walkPages tier call pagination ask (left + 1) walk = (.stopped capped, stopped)) :
    e.Stops tier call pagination ask (left + 1) walk capped stopped := by
  rw [walkPages_of_visit hAsk, visit_of_stores hStored] at hRun
  cases hDropped : parsed.recordTruncated with
  | true =>
      simp only [hDropped, if_true, Prod.mk.injEq, Ending.stopped.injEq] at hRun
      obtain ⟨rfl, rfl⟩ := hRun
      exact .dropped hAsk hStored hDropped
  | false =>
      cases hNext : walk.cursor.advance pagination parsed parsed.records.length with
      | none =>
          simp only [hDropped, hNext] at hRun
          obtain ⟨hCapped, rfl⟩ := Prod.mk.inj hRun
          obtain rfl := Ending.stopped.inj hCapped
          exact .last hAsk hStored hDropped hNext
      | some cursor =>
          cases hTotal : reachedDeclaredTotal pagination parsed sink.recordCount with
          | true =>
              simp only [hDropped, hNext, hTotal, if_true] at hRun
              obtain ⟨hCapped, rfl⟩ := Prod.mk.inj hRun
              obtain rfl := Ending.stopped.inj hCapped
              exact .total hAsk hStored hDropped hNext hTotal
          | false =>
              simp only [hDropped, hNext, hTotal] at hRun
              exact .later hAsk hStored hDropped hNext hTotal (hRest hRun)

/-- A loop that is stopped is stopped in one of those ways. -/
theorem stops_of_walkPages {left : Nat} :
    ∀ {walk : Walk}, e.walkPages tier call pagination ask left walk = (.stopped capped, stopped) →
      e.Stops tier call pagination ask left walk capped stopped := by
  induction left with
  | zero =>
      rintro walk hRun
      obtain ⟨hCapped, rfl⟩ := Prod.mk.inj hRun
      obtain rfl := Ending.stopped.inj hCapped
      exact .ceiling walk
  | succ left ih =>
      intro walk hRun
      cases hAsk : ask walk.presented.length (walk.params pagination call.params) with
      | error message => simp [walkPages, hAsk] at hRun
      | ok page =>
          rw [walkPages_of_visit hAsk] at hRun
          by_cases hStatus : 400 ≤ page.status
          · simp only [visit, if_pos hStatus, Walk.answered_pages] at hRun
            obtain ⟨hEnding, rfl⟩ := Prod.mk.inj hRun
            by_cases hFirst : walk.pages = 0
            · simp [hFirst] at hEnding
            · obtain rfl : true = capped := by simpa [hFirst] using hEnding
              exact .error hAsk hStatus hFirst
          · have hBelow : page.status < 400 := by omega
            cases hRecords : e.records? call.spec page with
            | error message => simp [visit, hStatus, hRecords] at hRun
            | ok body =>
                cases body with
                | none =>
                    simp only [visit, if_neg hStatus, hRecords] at hRun
                    obtain ⟨hCapped, rfl⟩ := Prod.mk.inj hRun
                    obtain rfl := Ending.stopped.inj hCapped
                    exact .nothing hAsk hBelow hRecords
                | some parsed =>
                    cases hAdd : walk.sink.add tier (e.shaped call.spec parsed)
                        page.scrubbed.length walk.tables with
                    | mk answer after =>
                        cases answer with
                        | error refused =>
                            simp only [visit_of_refused hBelow hRecords hAdd] at hRun
                            -- Only a quota stops the walk; any other refusal is an error of the
                            -- call.
                            cases refused with
                            | quota message =>
                                obtain ⟨hCapped, rfl⟩ := Prod.mk.inj hRun
                                obtain rfl := Ending.stopped.inj hCapped
                                exact .quota hAsk hBelow hRecords hAdd
                            | _ => cases hRun
                        | ok sink =>
                            have hStored : e.StoresPage tier call walk page parsed sink after :=
                              ⟨hBelow, hRecords, hAdd⟩
                            exact stops_of_stores hAsk hStored ih (walkPages_of_visit hAsk ▸ hRun)

/-- The mark of the collection is kept until the walk is stopped. -/
theorem Stops.carries {left : Nat} {mark : Bool}
    (hStops : e.Stops tier call pagination ask left walk capped stopped)
    (hCarries : Sink.Carries mark walk.sink walk.tables) :
    Sink.Carries mark stopped.sink stopped.tables := by
  induction hStops with
  | ceiling | error | nothing => exact hCarries
  | quota _ _ _ hQuota => exact hCarries.add_error hQuota
  | dropped _ hStored | last _ hStored | total _ hStored => exact hCarries.add_ok hStored.2.2
  | later _ hStored _ _ _ _ ih => exact ih (hCarries.add_ok hStored.2.2)

theorem visit_below {ending : Option Ending} {walk' : Walk} (hStatus : ¬ 400 ≤ page.status)
    (hVisit : e.visit tier call pagination walk page = (ending, walk')) :
    (∀ page, ending ≠ some (.refused page)) ∧ (ending = none → walk'.pages ≠ 0) := by
  rw [visit, if_neg hStatus] at hVisit
  split at hVisit
  · obtain ⟨rfl, -⟩ := Prod.mk.inj hVisit
    exact ⟨nofun, nofun⟩
  · obtain ⟨rfl, -⟩ := Prod.mk.inj hVisit
    exact ⟨nofun, nofun⟩
  · unfold store at hVisit
    split at hVisit
    · obtain ⟨rfl, -⟩ := Prod.mk.inj hVisit
      exact ⟨nofun, nofun⟩
    · obtain ⟨rfl, -⟩ := Prod.mk.inj hVisit
      exact ⟨nofun, nofun⟩
    · split at hVisit
      · obtain ⟨rfl, -⟩ := Prod.mk.inj hVisit
        exact ⟨nofun, nofun⟩
      · split at hVisit
        · obtain ⟨rfl, -⟩ := Prod.mk.inj hVisit
          exact ⟨nofun, nofun⟩
        · split at hVisit
          · obtain ⟨rfl, -⟩ := Prod.mk.inj hVisit
            exact ⟨nofun, nofun⟩
          · obtain ⟨rfl, rfl⟩ := Prod.mk.inj hVisit
            exact ⟨nofun, fun _ => Nat.succ_ne_zero walk.pages⟩

/-- Only the first page is refused. -/
theorem refused_of_walkPages {left : Nat} :
    ∀ {walk : Walk}, e.walkPages tier call pagination ask left walk = (.refused page, stopped) →
      walk.pages = 0 ∧ 0 < left ∧ Answers call pagination ask walk page ∧ 400 ≤ page.status := by
  induction left with
  | zero => exact fun hRun => nomatch hRun
  | succ left ih =>
      intro walk hRun
      cases hAsk : ask walk.presented.length (walk.params pagination call.params) with
      | error message => simp [walkPages, hAsk] at hRun
      | ok found =>
          rw [walkPages_of_visit hAsk] at hRun
          by_cases hStatus : 400 ≤ found.status
          · simp only [visit, if_pos hStatus, Walk.answered_pages] at hRun
            obtain ⟨hEnding, -⟩ := Prod.mk.inj hRun
            by_cases hFirst : walk.pages = 0
            · obtain rfl : found = page := by simpa [hFirst] using hEnding
              exact ⟨hFirst, left.succ_pos, hAsk, hStatus⟩
            · simp [hFirst] at hEnding
          · cases hVisit : e.visit tier call pagination (walk.answered found) found with
            | mk ending walk' =>
                obtain ⟨hNever, hLater⟩ := visit_below hStatus hVisit
                cases ending with
                | some ending =>
                    simp only [hVisit, Prod.mk.injEq] at hRun
                    exact absurd (congrArg some hRun.1) (hNever page)
                | none =>
                    simp only [hVisit] at hRun
                    exact absurd (ih hRun).1 (hLater rfl)

variable (e tier call pagination ask)

/-- The text of a walk tells of a cut: the first page is an error whose body is cut to size, or
the walk is stopped, its passport is read back, and the stop is one that counts as a cap, or
the collection was marked before. -/
def WalkSays (left : Nat) (walk : Walk) (mark : Bool) : Prop :=
  (∃ page, 0 < left ∧ Answers call pagination ask walk page ∧ 400 ≤ page.status ∧
      e.truncateChars < page.scrubbed.length) ∨
    ∃ capped stopped, e.Stops tier call pagination ask left walk capped stopped ∧
      (capped || mark) = true ∧
      ∃ passport after, stopped.sink.finish tier capped stopped.tables = (.ok (some passport), after)

variable {e tier call pagination ask}

theorem told_of_walkSays {left : Nat} {mark : Bool} (hFirst : walk.pages = 0)
    (hCarries : Sink.Carries mark walk.sink walk.tables)
    (hSays : e.WalkSays tier call pagination ask left walk mark) :
    Told (e.endWalk .source tier call pagination
      (e.walkPages tier call pagination ask left walk)).outcome.text := by
  rcases hSays with ⟨page, hLeft, hAsk, hStatus, hLong⟩ |
    ⟨capped, stopped, hStops, hMark, passport, after, hFinish⟩
  · obtain ⟨left, rfl⟩ := Nat.exists_eq_succ_of_ne_zero hLeft.ne'
    rw [walkPages_of_visit hAsk]
    simp only [visit, if_pos hStatus, Walk.answered_pages, hFirst, if_true, endWalk, firstError,
      Outcome.text]
    exact told_truncate hLong
  · rw [walkPages_of_stops hStops]
    simp only [endWalk, finishWalk, hFinish, Outcome.text]
    have hTruncated := (hStops.carries hCarries).finish_ok hFinish
    exact ((told_renderPassport (hTruncated.trans hMark)).append_right _ |>.append_right _
      |>.append_right _)

theorem endWalk_of_not_walkSays {left : Nat} {mark : Bool}
    (hCarries : Sink.Carries mark walk.sink walk.tables)
    (hSilent : ¬ e.WalkSays tier call pagination ask left walk mark) :
    e.endWalk .source tier call pagination (e.walkPages tier call pagination ask left walk) =
      e.endWalk .none tier call pagination (e.walkPages tier call pagination ask left walk) := by
  cases hRun : e.walkPages tier call pagination ask left walk with
  | mk ending stopped =>
      cases ending with
      | raised message => rfl
      | refused page =>
          obtain ⟨-, hLeft, hAsk, hStatus⟩ := refused_of_walkPages hRun
          have hShort : page.scrubbed.length ≤ e.truncateChars := by
            by_contra hLong
            exact hSilent (.inl ⟨page, hLeft, hAsk, hStatus, Nat.lt_of_not_le hLong⟩)
          simp only [endWalk, firstError, truncate_of_le hShort]
      | stopped capped =>
          have hStops := stops_of_walkPages hRun
          simp only [endWalk, finishWalk]
          cases hFinish : stopped.sink.finish tier capped stopped.tables with
          | mk answer after =>
              rcases answer with refused | _ | passport
              · rfl
              · rfl
              · have hTruncated := (hStops.carries hCarries).finish_ok hFinish
                have hWhole : passport.truncated = false := by
                  rw [hTruncated, ← Bool.not_eq_true]
                  exact fun hMark => hSilent
                    (.inr ⟨capped, stopped, hStops, hMark, passport, after, hFinish⟩)
                simp only [renderPassport_of_whole hWhole]

end Walks

/-! ## Every call -/

variable (e)

/-- The text of a collecting call tells of a cut. -/
def CollectSays (call : Call) (ask : Nat → Params → Except Text Page) (tables : Tables) : Prop :=
  ∃ pagination spill tier user, call.spec.pagination = some pagination ∧ e.spill = some spill ∧
    e.tier? call = some (tier, user) ∧
    e.WalkSays tier call pagination ask (call.ceiling spill).toNat
      (call.walk pagination user tables) (call.intoId.any tables.marked)

/-- The text of a call tells of a cut. -/
def Says (call : Call) (ask : Nat → Params → Except Text Page) (tables : Tables) : Prop :=
  if call.collect then e.CollectSays call ask tables
  else
    ∃ page, ask 0 call.params = .ok page ∧
      if call.into.isSome then e.pours call page tables = true
      else e.shownSays call page tables = true

/-- Something is missing from a page that the call was answered. -/
def CutsSomething (call : Call) (ask : Nat → Params → Except Text Page) (tables : Tables) : Prop :=
  ∃ page ∈ (e.execute .source call ask tables).asked, e.cut call page = true

/-- Whatever is missing, the text that is returned says so. -/
def TellsOfCuts (call : Call) (ask : Nat → Params → Except Text Page) (tables : Tables) : Prop :=
  e.CutsSomething call ask tables → Told (e.execute .source call ask tables).outcome.text

variable {e} {ask : Nat → Params → Except Text Page}

theorem collect_cases :
    (e.CollectSays call ask tables ∧
        Told (e.collectPages .source call ask tables).outcome.text) ∨
      (¬ e.CollectSays call ask tables ∧
        e.collectPages .source call ask tables = e.collectPages .none call ask tables) := by
  by_cases hSays : e.CollectSays call ask tables
  · refine .inl ⟨hSays, ?_⟩
    obtain ⟨pagination, spill, tier, user, hPagination, hSpill, hTier, hSays⟩ := hSays
    simp only [collectPages, hPagination, hSpill, hTier]
    exact told_of_walkSays rfl Sink.carries_start hSays
  · refine .inr ⟨hSays, ?_⟩
    unfold collectPages
    split
    · rfl
    · rename_i pagination spill tier user hPagination hSpill hTier
      exact endWalk_of_not_walkSays Sink.carries_start fun hWalk =>
        hSays ⟨pagination, spill, tier, user, hPagination, hSpill, hTier, hWalk⟩
    · rfl

theorem outcome_of_into (hCollect : call.collect = false) (hInto : call.into.isSome = true)
    (hAsk : ask 0 call.params = .ok page) :
    (e.execute marks call ask tables).outcome = (e.pourInto marks call page tables).1 := by
  simp [execute, hCollect, hInto, hAsk]

theorem outcome_of_plain (hCollect : call.collect = false) (hInto : call.into.isSome = false)
    (hAsk : ask 0 call.params = .ok page) :
    (e.execute marks call ask tables).outcome =
      .result page.status
        ((e.spillOrTruncate marks call.spec call.name call.user page tables).1 ++ page.hint) := by
  simp only [execute, hCollect, hInto, hAsk]
  rfl

/-- A call of one request is answered one page. -/
theorem asked_of_single (hCollect : call.collect = false)
    (hPage : page ∈ (e.execute marks call ask tables).asked) : ask 0 call.params = .ok page := by
  cases hAsk : ask 0 call.params with
  | error message => simp [execute, hCollect, hAsk] at hPage
  | ok found =>
      obtain rfl : page = found := by simpa [execute, hCollect, hAsk] using hPage
      rfl

/-- A call that cuts something tells of it, or its text is the one without marks. -/
theorem execute_cases (hCut : e.CutsSomething call ask tables) :
    (e.Says call ask tables ∧ Told (e.execute .source call ask tables).outcome.text) ∨
      (¬ e.Says call ask tables ∧ (e.execute .source call ask tables).outcome.text =
        (e.execute .none call ask tables).outcome.text) := by
  obtain ⟨page, hPage, hCut⟩ := hCut
  cases hCollect : call.collect with
  | true =>
      simp only [Says, execute, hCollect, if_true]
      exact collect_cases.imp_right fun ⟨hSays, hSame⟩ => ⟨hSays, by rw [hSame]⟩
  | false =>
      have hAsk := asked_of_single hCollect hPage
      cases hInto : call.into.isSome with
      | true =>
          have hSays : e.Says call ask tables ↔ e.pours call page tables = true := by
            simp [Says, hCollect, hAsk, hInto]
          rw [outcome_of_into hCollect hInto hAsk, outcome_of_into hCollect hInto hAsk, hSays]
          rcases @pourInto_cases e page tables call hCut with
            ⟨hPours, hTold⟩ | ⟨hPours, hSame⟩
          · exact .inl ⟨hPours, hTold⟩
          · exact .inr ⟨by simp [hPours], by rw [hSame]⟩
      | false =>
          have hSays : e.Says call ask tables ↔ e.shownSays call page tables = true := by
            simp [Says, hCollect, hAsk, hInto]
          rw [outcome_of_plain hCollect hInto hAsk, outcome_of_plain hCollect hInto hAsk, hSays]
          rcases @present_cases e page tables call hCut with ⟨hShown, hTold⟩ | ⟨hShown, hSame⟩
          · exact .inl ⟨hShown, hTold.append_right _⟩
          · exact .inr ⟨by simp [hShown], by rw [hSame]⟩

end Executor

/-- A call tells of what is missing if and only if it takes a route that says so, or the words
of a mark are in its text anyway. -/
theorem tellsOfCuts_iff (e : Executor) (call : Call) (ask : Nat → Params → Except Text Page)
    (tables : Tables) :
    e.TellsOfCuts call ask tables ↔
      (e.CutsSomething call ask tables →
        e.Says call ask tables ∨ Told (e.execute .none call ask tables).outcome.text) := by
  constructor
  · intro hTells hCut
    rcases Executor.execute_cases hCut with ⟨hSays, -⟩ | ⟨-, hSame⟩
    · exact .inl hSays
    · rw [← hSame]
      exact .inr (hTells hCut)
  · intro hSays hCut
    rcases Executor.execute_cases hCut with ⟨-, hTold⟩ | ⟨hSilent, hSame⟩
    · exact hTold
    · rw [hSame]
      exact (hSays hCut).resolve_left hSilent

/-! ## Two calls that say nothing -/

/-- An executor with a database tier and a memory for documents; no text here is valid JSON. -/
def smallExecutor : Executor where
  parsers :=
    { loads := fun _ => .ok none, csvRows := fun _ => .ok [], lower := id, float := fun _ => none }
  wording :=
    { size := fun n => Text.ofInt n ++ " chars".toList, tokens := fun _ => "~3 tokens".toList,
      schema := fun _ => "\x7b\x7d".toList, minutes := fun _ => 60 }
  spill :=
    some
      { store := some
          { maxPerUser := 20, maxBytesPerUser := 1000, ttlSeconds := 3600, now := id,
            breaks := fun _ => none, freshId := fun _ => "c0".toList },
        documents := some (.memory "d0".toList), inlineMaxChars := 8, collectMaxPages := 20,
        getMaxChars := 100000 }
  truncateChars := 8000

/-- A text that the wire reader has cut. -/
def cutText : Page :=
  { status := 200, scrubbed := "hello, world".toList, contentType := "text/plain".toList,
    wireTruncated := true, hadSecrets := false }

def textCall : Call where
  spec := { method := "GET".toList, urlTemplate := "https://example.com/page".toList }
  name := "page".toList
  params := []
  user := some "u".toList

/-- The first page of a collection, cut inside its first record. -/
def cutPage : Page :=
  { status := 200, scrubbed := "[\x7b\"a\": 1\x7d, \x7b\"a\"".toList,
    contentType := "application/json".toList, wireTruncated := true, hadSecrets := false }

def pagedCall : Call where
  spec :=
    { method := "GET".toList, urlTemplate := "https://example.com/orders?p=\x7bp\x7d".toList,
      params := [("p".toList, ⟨true, .string, []⟩)],
      pagination := some { kind := .page, param := "p".toList, start := 1 } }
  name := "orders".toList
  params := [("p".toList, [])]
  user := some "u".toList
  collect := true

/-- A document is parked, and a page that does not parse is taken for the end of the data. -/
theorem cut_and_not_told :
    ¬ smallExecutor.TellsOfCuts textCall (fun _ _ => .ok cutText) ⟨[], 0⟩ ∧
      ¬ smallExecutor.TellsOfCuts pagedCall (fun _ _ => .ok cutPage) ⟨[], 0⟩ := by
  constructor
  · intro hTells
    have hAsked : cutText ∈ (smallExecutor.execute .source textCall (fun _ _ => .ok cutText)
        ⟨[], 0⟩).asked := List.mem_singleton.mpr rfl
    exact absurd (hTells ⟨cutText, hAsked, rfl⟩) (by decide +kernel)
  · intro hTells
    have hAsked : cutPage ∈ (smallExecutor.execute .source pagedCall (fun _ _ => .ok cutPage)
        ⟨[], 0⟩).asked := List.mem_singleton.mpr rfl
    exact absurd (hTells ⟨cutPage, hAsked, rfl⟩) (by decide +kernel)

end External
end OctoForge
