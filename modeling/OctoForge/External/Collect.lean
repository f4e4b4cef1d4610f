import OctoForge.External.Spill

/-!
# Collecting pages

The walk over the declared pagination, and the call that appends to a collection there is.  The
requests are answered by `ask`, which is given how many have been made and the params of this
one.  What a walk has presented, and what it was answered, is kept with it.
-/

namespace OctoForge
namespace External

open Collections

/-! ## The cursor -/

/-- What the pagination param is set to: a number for pages and offsets, a token of the
server for cursors. -/
inductive Position where
  | number (n : Int)
  | token (value : Text)
  deriving DecidableEq, Repr

/-- `param_value`. -/
def Position.paramValue : Position → Text
  | .number n => Text.ofInt n
  | .token value => value

/-- `_Cursor`, less its spec. -/
structure Cursor where
  position : Position
  seen : List Text
  deriving DecidableEq, Repr

namespace Cursor

def start (pagination : PaginationSpec) : Cursor :=
  match pagination.kind with
  | .cursor => ⟨.token [], [[]]⟩
  | _ => ⟨.number pagination.start, [Text.ofInt pagination.start]⟩

/-- The cursor that a page names, `None` and the empty one apart. -/
def found? (pagination : PaginationSpec) (parsed : ParsedBody) : Option Text :=
  match parsed.document.bind fun value => dottedGet value (pagination.cursorPath.getD []) with
  | some (.string value) => if value.toList.isEmpty then none else some value.toList
  | some (.number n) => some (Text.ofInt n)
  | _ => none

/-- `advance`; `none` when the data says stop. -/
def advance (pagination : PaginationSpec) (cursor : Cursor) (parsed : ParsedBody)
    (batchSize : Nat) : Option Cursor :=
  match pagination.kind, cursor.position with
  | .page, .number n => some { cursor with position := .number (n + 1) }
  | .offset, .number n => some { cursor with position := .number (n + batchSize) }
  | .cursor, _ =>
      match found? pagination parsed with
      | none => none
      | some value =>
          if value ∈ cursor.seen then none else some ⟨.token value, cursor.seen ++ [value]⟩
  | _, .token _ => none

end Cursor

/-- `_reached_declared_total`. -/
def reachedDeclaredTotal (pagination : PaginationSpec) (parsed : ParsedBody) (collected : Nat) :
    Bool :=
  match pagination.totalPath with
  | none => false
  | some path =>
      match parsed.document.bind fun value => dottedGet value path with
      | some (.number total) => decide (total ≤ collected)
      | _ => false

/-! ## The sink -/

/-- `CollectionSink`. -/
structure Sink where
  ownerId : Text
  source : Text
  label : Text := []
  collectionId : Option Text
  startedFromExisting : Bool
  schema : Option Node := none
  recordCount : Nat := 0

namespace Sink

/-- A sink, which may start from a collection there is. -/
def start (ownerId source label : Text) (into : Option Text) : Sink where
  ownerId := ownerId
  source := source
  label := label
  collectionId := into
  startedFromExisting := into.isSome

/-- The schema that the batch is merged into. -/
def current (tier : Tier) (sink : Sink) (tables : Tables) :
    Except StoreError (Option Node) × Tables :=
  match sink.schema, sink.startedFromExisting, sink.collectionId with
  | none, true, some id =>
      match tier.passport tables sink.ownerId id with
      | (.error refused, after) => (.error refused, after)
      | (.ok existing, after) => (.ok (some existing.schema), after)
  | schema, _, _ => (.ok schema, tables)

/-- The collection that the first batch creates. -/
def newCollection (sink : Sink) (parsed : ParsedBody) (schema : Node) (byteSize : Nat) :
    NewCollection where
  ownerId := sink.ownerId
  label := sink.label
  kind := parsed.kind
  source := sink.source
  schema := schema
  envelope := parsed.envelope
  records := parsed.records
  tag := sink.source
  byteSize := byteSize
  truncated := false

/-- What a batch leaves of the sink. -/
def poured (sink : Sink) (id : Text) (schema : Node) (count : Nat) : Sink :=
  { sink with collectionId := some id, schema := some schema, recordCount := sink.recordCount + count }

/-- `add`, once the schema to merge into is known. -/
def write (tier : Tier) (sink : Sink) (parsed : ParsedBody) (byteSize : Nat)
    (schema : Node) (tables : Tables) : Except StoreError Sink × Tables :=
  match sink.collectionId with
  | none =>
      match tier.create tables (sink.newCollection parsed schema byteSize) with
      | (.error refused, after) => (.error refused, after)
      | (.ok passport, after) => (.ok (sink.poured passport.id schema parsed.records.length), after)
  | some id =>
      match tier.append tables sink.ownerId id parsed.records sink.source schema byteSize with
      | (.error refused, after) => (.error refused, after)
      | (.ok _, after) => (.ok (sink.poured id schema parsed.records.length), after)

/-- `add`. -/
def add (tier : Tier) (sink : Sink) (parsed : ParsedBody) (byteSize : Nat) (tables : Tables) :
    Except StoreError Sink × Tables :=
  match sink.current tier tables with
  | (.error refused, after) => (.error refused, after)
  | (.ok schema, after) =>
      sink.write tier parsed byteSize (mergeNodes schema (inferRecords parsed.records)) after

/-- `finish`: the passport, `none` when nothing was ever added. -/
def finish (tier : Tier) (sink : Sink) (truncated : Bool) (tables : Tables) :
    Except StoreError (Option Passport) × Tables :=
  match sink.collectionId with
  | none => (.ok none, tables)
  | some id =>
      match (if truncated then tier.markTruncated tables sink.ownerId id else (.ok (), tables)) with
      | (.error refused, after) => (.error refused, after)
      | (.ok _, after) =>
          match tier.passport after sink.ownerId id with
          | (.error refused, after) => (.error refused, after)
          | (.ok passport, after) => (.ok (some passport), after)

/-! ### The mark of its collection -/

/-- The collection of the sink carries the mark or not, as `mark` says; a sink that has none
yet creates one without. -/
structure Carries (mark : Bool) (sink : Sink) (tables : Tables) : Prop where
  marked : ∀ id, sink.collectionId = some id → tables.marked id = mark
  created : sink.collectionId = none → mark = false

variable {tier : Tier} {sink sink' : Sink} {tables after : Tables} {parsed : ParsedBody}
  {byteSize : Nat} {mark : Bool}

theorem Carries.mono (hCarries : Carries mark sink tables) (hRows : after.rows = tables.rows) :
    Carries mark sink after where
  marked id hId := (Tables.marked_congr hRows id).trans (hCarries.marked id hId)
  created := hCarries.created

theorem carries_start {ownerId source label : Text} {into : Option Text} :
    Carries (into.any tables.marked) (start ownerId source label into) tables where
  marked id hId := by
    obtain rfl : into = some id := hId
    rfl
  created hNone := by
    obtain rfl : into = none := hNone
    rfl

theorem rows_current {answer : Except StoreError (Option Node)}
    (hRun : sink.current tier tables = (answer, after)) : after.rows = tables.rows := by
  unfold current at hRun
  split at hRun
  · split at hRun
    · rename_i hPassport
      obtain ⟨-, rfl⟩ := Prod.mk.inj hRun
      exact Tier.rows_passport hPassport
    · rename_i hPassport
      obtain ⟨-, rfl⟩ := Prod.mk.inj hRun
      exact Tier.rows_passport hPassport
  · obtain ⟨-, rfl⟩ := Prod.mk.inj hRun
    rfl

/-- A batch that is written goes into a new collection, or to the one there is. -/
theorem add_ok_cases (hRun : sink.add tier parsed byteSize tables = (.ok sink', after)) :
    ∃ schema middle, middle.rows = tables.rows ∧
      ((sink.collectionId = none ∧ ∃ passport,
          tier.create middle (sink.newCollection parsed schema byteSize) = (.ok passport, after) ∧
            sink' = sink.poured passport.id schema parsed.records.length) ∨
        ∃ id, sink.collectionId = some id ∧
          tier.append middle sink.ownerId id parsed.records sink.source schema byteSize =
            (.ok (), after) ∧
          sink' = sink.poured id schema parsed.records.length) := by
  unfold add at hRun
  split at hRun
  · cases hRun
  · rename_i current middle hCurrent
    refine ⟨mergeNodes current (inferRecords parsed.records), middle, rows_current hCurrent, ?_⟩
    unfold write at hRun
    cases hId : sink.collectionId with
    | none =>
        simp only [hId] at hRun
        split at hRun
        · cases hRun
        · rename_i passport created hCreate
          obtain ⟨hSink, rfl⟩ := Prod.mk.inj hRun
          exact .inl ⟨rfl, passport, hCreate, (Except.ok.inj hSink).symm⟩
    | some id =>
        simp only [hId] at hRun
        split at hRun
        · cases hRun
        · rename_i appended hAppend
          obtain ⟨hSink, rfl⟩ := Prod.mk.inj hRun
          exact .inr ⟨id, rfl, hAppend, (Except.ok.inj hSink).symm⟩

/-- A batch that is refused leaves the rows as they are. -/
theorem rows_of_add_error {refused : StoreError}
    (hRun : sink.add tier parsed byteSize tables = (.error refused, after)) :
    after.rows = tables.rows := by
  unfold add at hRun
  split at hRun
  · rename_i hCurrent
    obtain ⟨-, rfl⟩ := Prod.mk.inj hRun
    exact rows_current hCurrent
  · rename_i current middle hCurrent
    refine Eq.trans ?_ (rows_current hCurrent)
    unfold write at hRun
    split at hRun
    · split at hRun
      · rename_i hCreate
        obtain ⟨-, rfl⟩ := Prod.mk.inj hRun
        unfold Tier.create at hCreate
        exact Tier.rows_of_transact_error hCreate
      · cases hRun
    · split at hRun
      · rename_i hAppend
        obtain ⟨-, rfl⟩ := Prod.mk.inj hRun
        exact Tier.rows_of_transact_error hAppend
      · cases hRun

/-- A batch that is written keeps the mark as it is. -/
theorem Carries.add_ok (hCarries : Carries mark sink tables)
    (hRun : sink.add tier parsed byteSize tables = (.ok sink', after)) :
    Carries mark sink' after := by
  obtain ⟨schema, middle, hRows, ⟨hNone, passport, hCreate, rfl⟩ | ⟨id, hId, hAppend, rfl⟩⟩ :=
    add_ok_cases hRun
  · refine ⟨fun id hSome => ?_, nofun⟩
    obtain rfl : passport.id = id := Option.some.inj hSome
    rw [(Tier.create_ok hCreate).2, hCarries.created hNone]
    rfl
  · refine ⟨fun other hSome => ?_, nofun⟩
    obtain rfl : id = other := Option.some.inj hSome
    rw [Tier.marked_append hAppend, Tables.marked_congr hRows, hCarries.marked id hId]

theorem Carries.add_error {refused : StoreError} (hCarries : Carries mark sink tables)
    (hRun : sink.add tier parsed byteSize tables = (.error refused, after)) :
    Carries mark sink after := hCarries.mono (rows_of_add_error hRun)

/-- The final passport carries the mark if it is put there now, or was there before. -/
theorem Carries.finish_ok {capped : Bool} {passport : Passport}
    (hCarries : Carries mark sink tables)
    (hRun : sink.finish tier capped tables = (.ok (some passport), after)) :
    passport.truncated = (capped || mark) := by
  unfold finish at hRun
  cases hId : sink.collectionId with
  | none => simp [hId] at hRun
  | some id =>
      simp only [hId] at hRun
      split at hRun
      · cases hRun
      · rename_i done marked hMark
        split at hRun
        · cases hRun
        · rename_i found read hPassport
          obtain ⟨hFound, rfl⟩ := Prod.mk.inj hRun
          obtain rfl := Option.some.inj (Except.ok.inj hFound)
          rw [Tier.truncated_of_passport hPassport]
          cases capped with
          | true => rw [Tier.marked_of_markTruncated hMark]; rfl
          | false =>
              obtain ⟨-, rfl⟩ := Prod.mk.inj hMark
              rw [hCarries.marked id hId]
              rfl

end Sink

/-! ## The walk -/

/-- The params of a call, `validated`. -/
abbrev Params := List (Text × Text)

/-- `{**params, name: value}`. -/
def Params.put (params : Params) (name value : Text) : Params :=
  (name, value) :: params.filter fun param => param.1 != name

/-- The locals of the loop of `_collect_pages`. -/
structure Walk where
  cursor : Cursor
  sink : Sink
  pages : Nat := 0
  status : Nat := 0
  tables : Tables
  /-- The values that have been presented for the pagination param. -/
  presented : List Text := []
  /-- The pages that have been answered. -/
  asked : List Page := []

/-- The params of the next request. -/
def Walk.params (walk : Walk) (pagination : PaginationSpec) (validated : Params) : Params :=
  validated.put pagination.param walk.cursor.position.paramValue

/-- A request is made. -/
def Walk.asking (walk : Walk) : Walk :=
  { walk with presented := walk.presented ++ [walk.cursor.position.paramValue] }

/-- A page has been answered. -/
def Walk.answered (walk : Walk) (page : Page) : Walk :=
  { walk.asking with status := page.status, asked := walk.asked ++ [page] }

@[simp] theorem Walk.answered_sink (walk : Walk) (page : Page) :
    (walk.answered page).sink = walk.sink := rfl

@[simp] theorem Walk.answered_tables (walk : Walk) (page : Page) :
    (walk.answered page).tables = walk.tables := rfl

@[simp] theorem Walk.answered_pages (walk : Walk) (page : Page) :
    (walk.answered page).pages = walk.pages := rfl

@[simp] theorem Walk.answered_cursor (walk : Walk) (page : Page) :
    (walk.answered page).cursor = walk.cursor := rfl

/-- A page has been stored. -/
def Walk.poured (walk : Walk) (sink : Sink) (tables : Tables) : Walk :=
  { walk with sink := sink, tables := tables, pages := walk.pages + 1 }

/-- The cursor has been advanced. -/
def Walk.onto (walk : Walk) (cursor : Cursor) : Walk := { walk with cursor := cursor }

/-- A batch was not stored. -/
def Walk.unpoured (walk : Walk) (tables : Tables) : Walk := { walk with tables := tables }

/-- How the loop is left. -/
inductive Ending where
  | raised (message : Text)
  /-- The first page is an error. -/
  | refused (page : Page)
  | stopped (capped : Bool)

/-- What a call comes to: an `ExternalCallResult`, or the text of an exception. -/
inductive Outcome where
  | result (status : Nat) (body : Text)
  | raised (message : Text)

/-- What the model is shown of it. -/
def Outcome.text : Outcome → Text
  | .result _ body => body
  | .raised message => message

/-- What a call was given. -/
structure Call where
  spec : ToolSpec
  name : Text
  params : Params
  user : Option Text
  collect : Bool := false
  maxPages : Option Int := none
  into : Option Text := none
  label : Text := []

namespace Executor

variable (e : Executor)

/-- The records of a page, `none` when it has none. -/
def records? (spec : ToolSpec) (page : Page) : Except Text (Option ParsedBody) :=
  (e.parsed spec page).map fun found => found.filter fun parsed => !parsed.records.isEmpty

/-- `_store_page` and what the loop makes of it: the walk after the page, and how the loop is
left, if it is. -/
def store (tier : Tier) (call : Call) (pagination : PaginationSpec) (walk : Walk) (page : Page)
    (parsed : ParsedBody) : Option Ending × Walk :=
  match walk.sink.add tier (e.shaped call.spec parsed) page.scrubbed.length walk.tables with
  | (.error (.quota _), after) => (some (.stopped true), walk.unpoured after)
  | (.error refused, after) => (some (.raised refused.message), walk.unpoured after)
  | (.ok sink, after) =>
      if parsed.recordTruncated then (some (.stopped true), walk.poured sink after)
      else
        match walk.cursor.advance pagination parsed parsed.records.length with
        | none => (some (.stopped false), walk.poured sink after)
        | some cursor =>
            if reachedDeclaredTotal pagination parsed sink.recordCount then
              (some (.stopped false), (walk.poured sink after).onto cursor)
            else (none, (walk.poured sink after).onto cursor)

/-- One turn of the loop, once the page is there. -/
def visit (tier : Tier) (call : Call) (pagination : PaginationSpec) (walk : Walk) (page : Page) :
    Option Ending × Walk :=
  if 400 ≤ page.status then
    (some (if walk.pages = 0 then .refused page else .stopped true), walk)
  else
    match e.records? call.spec page with
    | .error message => (some (.raised message), walk)
    | .ok none => (some (.stopped false), walk)
    | .ok (some parsed) => e.store tier call pagination walk page parsed

/-- The rest of the walk, when `ask` answers the requests and so many pages are left. -/
def walkPages (tier : Tier) (call : Call) (pagination : PaginationSpec)
    (ask : Nat → Params → Except Text Page) : (left : Nat) → Walk → Ending × Walk
  | 0, walk => (.stopped true, walk)
  | left + 1, walk =>
      match ask walk.presented.length (walk.params pagination call.params) with
      | .error message => (.raised message, walk.asking)
      | .ok page =>
          match e.visit tier call pagination (walk.answered page) page with
          | (some ending, walk) => (ending, walk)
          | (none, walk) => walkPages tier call pagination ask left walk

end Executor

/-! ## The call -/

/-- What comes of a call, the params of the requests it has made, and the pages it was
answered. -/
structure Answer where
  outcome : Outcome
  requests : List Params
  asked : List Page
  tables : Tables

def collectUnavailable : Text :=
  "collections are not available here (they need Postgres and a user in context); ".toList ++
    "call the endpoint without collect/into".toList

/-- The source tag of an endpoint. -/
def Call.source (call : Call) : Text := "endpoint:".toList ++ call.name

/-- The database tier and the caller, when the call has both. -/
def Executor.tier? (e : Executor) (call : Call) : Option (Tier × Text) :=
  match e.spill.bind (·.store), call.user with
  | some tier, some user => some (tier, user)
  | _, _ => none

/-- `opts.into`, less its prefix. -/
def Call.intoId (call : Call) : Option Text := call.into.map (Text.removeStart refStart)

/-- The page ceiling of a walk. -/
def Call.ceiling (call : Call) (spill : Spill) : Int :=
  match call.maxPages with
  | none => spill.collectMaxPages
  | some pages => if pages = 0 then spill.collectMaxPages else min pages spill.collectMaxPages

/-- A walk that has not begun. -/
def Call.walk (call : Call) (pagination : PaginationSpec) (user : Text) (tables : Tables) :
    Walk where
  cursor := .start pagination
  sink := .start user call.source call.label call.intoId
  tables := tables

/-- The first page was an error: its status, and its body cut to size. -/
def Executor.firstError (e : Executor) (marks : Marks) (page : Page) : Outcome :=
  .result page.status (e.truncate marks page.scrubbed)

/-- The end of a walk that was stopped. -/
def Executor.finishWalk (e : Executor) (marks : Marks) (tier : Tier) (call : Call)
    (capped : Bool) (walk : Walk) : Outcome × Tables :=
  match walk.sink.finish tier capped walk.tables with
  | (.error refused, after) => (.raised refused.message, after)
  | (.ok none, after) =>
      (.result walk.status
        ("collect: '".toList ++ call.name ++ "' returned no records at all".toList), after)
  | (.ok (some passport), after) =>
      (.result walk.status
        (renderPassport marks e.wording passport ++ "\ncollected ".toList ++
          Text.ofInt walk.pages ++ " page(s) this call".toList), after)

/-- The params of the requests of a walk. -/
def Walk.requests (walk : Walk) (pagination : PaginationSpec) (validated : Params) : List Params :=
  walk.presented.map (validated.put pagination.param)

/-- What `_collect_pages` makes of the way its loop was left. -/
def Executor.endWalk (e : Executor) (marks : Marks) (tier : Tier) (call : Call)
    (pagination : PaginationSpec) (ended : Ending × Walk) : Answer :=
  let final : Outcome × Tables :=
    match ended.1 with
    | .raised message => (.raised message, ended.2.tables)
    | .refused page => (e.firstError marks page, ended.2.tables)
    | .stopped capped => e.finishWalk marks tier call capped ended.2
  ⟨final.1, ended.2.requests pagination call.params, ended.2.asked, final.2⟩

def noPagination (name : Text) : Text :=
  "endpoint '".toList ++ name ++
    "' declares no pagination section; collect needs one ".toList ++
    "(add it to the record: kind page/offset/cursor, the param to advance)".toList

/-- `_collect_pages`, with its prerequisites. -/
def Executor.collectPages (e : Executor) (marks : Marks) (call : Call)
    (ask : Nat → Params → Except Text Page) (tables : Tables) : Answer :=
  match call.spec.pagination, e.spill, e.tier? call with
  | none, _, _ => ⟨.raised (noPagination call.name), [], [], tables⟩
  | some pagination, some spill, some (tier, user) =>
      e.endWalk marks tier call pagination
        (e.walkPages tier call pagination ask (call.ceiling spill).toNat
          (call.walk pagination user tables))
  | some _, _, _ => ⟨.raised collectUnavailable, [], [], tables⟩

def noRecords (name : Text) (status : Nat) : Text :=
  "the response of '".toList ++ name ++ "' carried no records to add (HTTP ".toList ++
    Text.ofInt status ++ "); nothing was appended".toList

def nothingAppended (message : Text) : Text :=
  "nothing appended: ".toList ++ message ++
    "; drop an old collection or query what is there".toList

/-- What comes of an `add` that raises. -/
def refusal : StoreError → Text
  | .quota message => nothingAppended message
  | refused => refused.message

/-- `_pour_into`. -/
def Executor.pourInto (e : Executor) (marks : Marks) (call : Call) (page : Page)
    (tables : Tables) : Outcome × Tables :=
  match e.tier? call with
  | none => (.raised collectUnavailable, tables)
  | some (tier, user) =>
      match e.records? call.spec page with
      | .error message => (.raised message, tables)
      | .ok none => (.raised (noRecords call.name page.status), tables)
      | .ok (some parsed) =>
          let sink := Sink.start user call.source [] call.intoId
          match sink.add tier (e.shaped call.spec parsed) page.scrubbed.length tables with
          | (.error refused, after) => (.raised (refusal refused), after)
          | (.ok sink, after) =>
              match sink.finish tier (page.wireTruncated || parsed.recordTruncated) after with
              | (.error refused, after) => (.raised refused.message, after)
              | (.ok none, after) => (.raised [], after)
              | (.ok (some passport), after) =>
                  (.result page.status (renderPassport marks e.wording passport), after)

/-- `NO_CREDENTIAL_HINT`. -/
def noCredentialHint : Text :=
  "\n\n[octoforge] This request carried NO credential: the endpoint record ".toList ++
    "references no secret, so nothing was attached. Do not guess at the secret's ".toList ++
    "value or encoding — fix the record. Declare the secret as ".toList ++
    "auth: \x7b\"secret\": \"<code>\"\x7d or reference it as \x7bsecret.<code>\x7d in a ".toList ++
    "header template, and check secret_list for the codes this user actually has.".toList

/-- The hint, for a bare 401 or 403. -/
def Page.hint (page : Page) : Text :=
  if (page.status = 401 ∨ page.status = 403) ∧ page.hadSecrets = false then noCredentialHint else []

/-- The call of a single request whose response is shown. -/
def Executor.present (e : Executor) (marks : Marks) (call : Call) (page : Page) (tables : Tables) :
    Outcome × Tables :=
  let shown := e.spillOrTruncate marks call.spec call.name call.user page tables
  (.result page.status (shown.1 ++ page.hint), shown.2)

/-- `execute`, once the params are validated. -/
def Executor.execute (e : Executor) (marks : Marks) (call : Call)
    (ask : Nat → Params → Except Text Page) (tables : Tables) : Answer :=
  if call.collect then e.collectPages marks call ask tables
  else
    match ask 0 call.params with
    | .error message => ⟨.raised message, [call.params], [], tables⟩
    | .ok page =>
        let ended :=
          if call.into.isSome then e.pourInto marks call page tables
          else e.present marks call page tables
        ⟨ended.1, [call.params], [page], ended.2⟩

end External
end OctoForge
