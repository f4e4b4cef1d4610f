import OctoForge.External.Request
import OctoForge.Fallible

/-!
# Calls of an endpoint

`execute`, from the content of the record on, and the requests that it sends: one, or as many as
the walk over the pages takes, and each of them is prepared on its own.  Where preparing it fails
no request is sent.
-/

namespace OctoForge
namespace External

open Collections Fallible

/-- `CallOptions`, what is read of them here. -/
structure CallOptions where
  collect : Bool := false
  maxPages : Option Int := none
  into : Option Text := none
  label : Text := []

/-- `ExternalCallExecutor`. -/
structure Service where
  deployment : Deployment
  executor : Executor
  marks : Marks
  /-- What the delegate of a kind makes of the call, where there is one. -/
  delegates : Text → Option Outcome

/-- `_content_kind`. -/
def contentKind (reader : Reader) (content : Text) : Except Text (Option Text) :=
  match reader.loads content with
  | .error message => .error message
  | .ok (some (.object members)) =>
      match Json.lookup members "kind" with
      | some (.string kind) => .ok (if kind.toList.isEmpty then none else some kind.toList)
      | _ => .ok none
  | .ok _ => .ok none

namespace Service

variable (s : Service)

/-- A record of a kind. -/
def delegated (name kind : Text) (options : CallOptions) : Outcome :=
  if options.collect ∨ options.into.isSome then
    .raised ("endpoint '".toList ++ name ++ "' is a kind record (".toList ++
      quotedName s.deployment.reader kind ++
      "); collect/into apply to classic HTTP endpoints only".toList)
  else
    match s.delegates kind with
    | some outcome => outcome
    | none => .raised ("endpoint '".toList ++ name ++ "' declares kind ".toList ++
        quotedName s.deployment.reader kind ++
        ", which this installation has no executor for".toList)

/-- The params, with a placeholder for the one that the walk provides. -/
def offered (spec : ToolSpec) (options : CallOptions) (params : RawParams) : RawParams :=
  match spec.pagination with
  | some pagination =>
      if options.collect && (params.lookup pagination.param).isNone then
        params ++ [(pagination.param, .string "")]
      else params
  | none => params

/-- The call, once its params are validated. -/
def callOf (spec : ToolSpec) (name : Text) (validated : Params) (user : Option Text)
    (options : CallOptions) : Call where
  spec := spec
  name := name
  params := validated
  user := user
  collect := options.collect
  maxPages := options.maxPages
  into := options.into
  label := options.label

/-- `execute`, given what is around each request. -/
def execute (env : Nat → Env) (name content : Text) (params : RawParams) (user : Option Text)
    (options : CallOptions) (tables : Tables) : Answer :=
  match contentKind s.deployment.reader content with
  | .error message => ⟨.raised message, [], [], tables⟩
  | .ok (some kind) => ⟨s.delegated name kind options, [], [], tables⟩
  | .ok none =>
      match parseToolSpec s.deployment.reader content with
      | .error message => ⟨.raised message, [], [], tables⟩
      | .ok spec =>
          match validateParams s.deployment.reader spec (offered spec options params) with
          | .error message =>
              ⟨.raised (message ++ "; the endpoint declares this contract: ".toList ++ content),
                [], [], tables⟩
          | .ok validated =>
              match collectPlan spec with
              | .error message => ⟨.raised message, [], [], tables⟩
              | .ok plan =>
                  s.executor.execute s.marks (callOf spec name validated user options)
                    (fun i params => requestOnce s.deployment (env i) spec plan params user) tables

end Service

/-! ## What is sent -/

/-- A request that is sent, with its number and its params. -/
structure Sent where
  index : Nat
  params : Params
  prepared : Prepared

/-- The requests that are sent of those that are attempted. -/
def sentOf (d : Deployment) (env : Nat → Env) (spec : ToolSpec) (plan : Plan) (user : Option Text)
    (attempts : List Params) : List Sent :=
  attempts.zipIdx.filterMap fun (params, i) =>
    (prepare d (env i) spec plan params user).toOption.map fun prepared => ⟨i, params, prepared⟩

/-- The requests that a call sends. -/
def Service.sent (s : Service) (env : Nat → Env) (name content : Text) (params : RawParams)
    (user : Option Text) (options : CallOptions) (tables : Tables) : List Sent :=
  match parseToolSpec s.deployment.reader content with
  | .error _ => []
  | .ok spec =>
      match collectPlan spec with
      | .error _ => []
      | .ok plan =>
          sentOf s.deployment env spec plan user
            (s.execute env name content params user options tables).requests

theorem mem_of_lookup {β : Type} {values : List (Text × β)} {name : Text} {value : β}
    (hValue : values.lookup name = some value) : (name, value) ∈ values := by
  obtain ⟨before, after, rfl, -⟩ := List.lookup_eq_some_iff.mp hValue
  simp

theorem exists_lookup_of_mem {β : Type} {values : List (Text × β)} {name : Text} {value : β}
    (hMem : (name, value) ∈ values) : ∃ found, values.lookup name = some found := by
  cases hLookup : values.lookup name with
  | some found => exact ⟨found, rfl⟩
  | none =>
      have hOther := List.lookup_eq_none_iff.mp hLookup (name, value) hMem
      simp at hOther

theorem lookup_put_self (params : Params) (name value : Text) :
    (params.put name value).lookup name = some value := by
  rw [Params.put, List.lookup_cons_self]

theorem lookup_put_of_ne {params : Params} {name other : Text} (hOther : other ≠ name) (value : Text) :
    (params.put name value).lookup other = params.lookup other := by
  unfold Params.put
  rw [List.lookup_cons, beq_false_of_ne hOther]
  simp only
  induction params with
  | nil => rfl
  | cons first rest ih =>
      rw [List.filter_cons]
      by_cases hKept : first.1 = name
      · have hSkip : (other == first.1) = false := beq_false_of_ne (hKept ▸ hOther)
        rw [if_neg (by simp [hKept]), List.lookup_cons, hSkip]
        exact ih
      · rw [if_pos (by simp [hKept]), List.lookup_cons, List.lookup_cons, ih]

/-- The params of a request: the validated ones, with a position of the walk where there is one. -/
inductive Requested (spec : ToolSpec) (options : CallOptions) (validated : Params) : Params → Prop
  | single : Requested spec options validated validated
  | page {pagination : PaginationSpec} (value : Text) (hPages : spec.pagination = some pagination)
      (hCollect : options.collect = true) :
      Requested spec options validated (validated.put pagination.param value)

section Requests

variable {s : Service} {env : Nat → Env} {spec : ToolSpec} {name content : Text}
  {params : RawParams} {user : Option Text} {options : CallOptions} {tables : Tables}
  {validated : Params} {plan : Plan}

theorem requested_of_execute {e : Executor} {marks : Marks}
    {ask : Nat → Params → Except Text Page} {attempt : Params}
    (hAttempt : attempt ∈
      (e.execute marks (Service.callOf spec name validated user options) ask tables).requests) :
    Requested spec options validated attempt := by
  unfold Executor.execute at hAttempt
  split at hAttempt
  · rename_i hCollect
    unfold Executor.collectPages at hAttempt
    split at hAttempt
    · cases hAttempt
    · rename_i pagination _ _ _ hPages _ _
      obtain ⟨value, -, rfl⟩ := List.mem_map.mp hAttempt
      exact .page value hPages hCollect
    · cases hAttempt
  · split at hAttempt
    · obtain rfl := List.mem_singleton.mp hAttempt
      exact .single
    · obtain rfl := List.mem_singleton.mp hAttempt
      exact .single

/-- A request that is sent is one that was attempted with validated params, and prepared. -/
theorem mem_sent {request : Sent}
    (hSent : request ∈ s.sent env name content params user options tables) :
    ∃ spec plan validated, parseToolSpec s.deployment.reader content = .ok spec ∧
      collectPlan spec = .ok plan ∧
      validateParams s.deployment.reader spec (Service.offered spec options params) =
        .ok validated ∧
      Requested spec options validated request.params ∧
      prepare s.deployment (env request.index) spec plan request.params user =
        .ok request.prepared := by
  unfold Service.sent at hSent
  split at hSent
  · cases hSent
  · rename_i spec hSpec
    split at hSent
    · cases hSent
    · rename_i plan hPlan
      obtain ⟨⟨attempt, i⟩, hAttempt, hPrepared⟩ := List.mem_filterMap.mp hSent
      obtain ⟨prepared, hPrepare, rfl⟩ := Option.map_eq_some_iff.mp hPrepared
      have hRequest := List.fst_mem_of_mem_zipIdx hAttempt
      have hOk : prepare s.deployment (env i) spec plan attempt user = .ok prepared := by
        cases hIs : prepare s.deployment (env i) spec plan attempt user with
        | error message =>
            rw [hIs] at hPrepare
            cases hPrepare
        | ok found =>
            rw [hIs] at hPrepare
            rw [Option.some.inj hPrepare]
      unfold Service.execute at hRequest
      split at hRequest
      · cases hRequest
      · cases hRequest
      · rw [hSpec] at hRequest
        simp only at hRequest
        split at hRequest
        · cases hRequest
        · rename_i validated hValidated
          rw [hPlan] at hRequest
          exact ⟨spec, plan, validated, hSpec, hPlan, hValidated,
            requested_of_execute hRequest, hOk⟩

end Requests

/-! ## A small service -/

/-- A service whose reader knows the JSON of one record, and no other. -/
def smallService (content : Text) (document : Json) : Service where
  deployment :=
    { reader :=
        { loads := fun text => if text = content then .ok (some document) else .ok none
          csvRows := fun _ => .ok []
          lower := fun text => text.map Char.toLower
          float := fun _ => none
          upper := fun text => text.map Char.toUpper
          repr := fun _ => []
          decodeError := fun _ => [] }
      rules :=
        { lower := fun text => text.map Char.toLower, bracketed := fun _ => true,
          normal := fun _ => true }
      vault :=
        { lower := fun text => text.map Char.toLower, repr := id, apply := fun _ => id }
      whitelist := [] }
  executor :=
    { parsers :=
        { loads := fun _ => .ok none, csvRows := fun _ => .ok [], lower := id,
          float := fun _ => none }
      wording :=
        { size := fun n => Text.ofInt n ++ " chars".toList, tokens := fun _ => "~3 tokens".toList,
          schema := fun _ => "\x7b\x7d".toList, minutes := fun _ => 60 }
      spill :=
        some
          { store := some
              { maxPerUser := 20, maxBytesPerUser := 1000, ttlSeconds := 3600, now := id,
                breaks := fun _ => none, freshId := fun _ => "c0".toList },
            documents := none, inlineMaxChars := 8000, collectMaxPages := 20,
            getMaxChars := 100000 }
      truncateChars := 8000 }
  marks := .source
  delegates := fun _ => none

/-- A network in which every host is public, and a user who has these secrets. -/
def smallEnv (rows : List SecretRow) : Env where
  guard :=
    { allowedOrigins := [], resolve := fun _ => some ["93.184.216.34".toList],
      isBlocked := fun _ => some false }
  userParams := none
  secrets := some rows
  uuid := fun _ => ⟨"0123456789abcdef0123456789abcdef".toList, by decide⟩
  respond := fun _ => .ok ⟨200, "ok".toList, "text/plain".toList, false⟩

end External
end OctoForge
