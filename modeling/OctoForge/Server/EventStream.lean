import OctoForge.Json.RoundTrip
import OctoForge.Llm.Client
import OctoForge.Sequence.Places

/-!
# The event stream of a dialog

The service writes the events of a dialog as frames of an event stream, with heartbeats between
them.  A client reads it one character at a time, and does not see the pieces it arrives in.
-/

namespace OctoForge
namespace Server

open Dialog (MessageRole)
open Llm (ToolCall ChatMessage roleValue stringOf)

/-! ## Frames -/

/-- `LoopEvent`, with what of it is for a client. -/
inductive LoopEvent where
  | iterationStarted (index : Int)
  | textDelta (text : Text)
  | reasoningDelta
  | assistantMessage (role : MessageRole) (content : Text) (interrupted : Bool)
  | toolCallRequested (call : ToolCall)
  | toolCallCompleted (call : ToolCall) (output : Text)
  | toolCallFailed (call : ToolCall) (error : Text)
  | finished (content : Text)
  | cancelled
  | failed (error : Text)
  /-- The delay is a float, as Python writes it. -/
  | retryScheduled (attempt : Int) (delaySeconds reason : Text)
  | processStarted (processId title : Text) (sourceClientMessageId : Option Text)
  | processCompleted (processId title status : Text)

/-- `ConversationEvent`. -/
structure ConversationEvent where
  dialogId : Text
  seq : Int
  payload : LoopEvent
  exchangeId : Option Text := none

def optional (t : Option Text) : Json := (t.map stringOf).getD .null

/-- `_event_details`. -/
def eventDetails : LoopEvent → List (String × Json)
  | .iterationStarted index => [("type", .string "iteration_started"), ("index", .number index)]
  | .textDelta text => [("type", .string "text_delta"), ("text", stringOf text)]
  | .reasoningDelta => [("type", .string "reasoning_delta")]
  | .assistantMessage role content interrupted =>
      [("type", .string "assistant_message"), ("role", .string (roleValue role)),
        ("content", stringOf content), ("interrupted", .bool interrupted)]
  | .toolCallRequested call =>
      [("type", .string "tool_call_requested"), ("name", stringOf call.name),
        ("arguments", .object call.arguments)]
  | .toolCallCompleted call output =>
      [("type", .string "tool_call_completed"), ("name", stringOf call.name),
        ("output", stringOf output)]
  | .toolCallFailed call error =>
      [("type", .string "tool_call_failed"), ("name", stringOf call.name),
        ("error", stringOf error)]
  | .finished content => [("type", .string "finished"), ("content", stringOf content)]
  | .cancelled => [("type", .string "cancelled")]
  | .failed error => [("type", .string "failed"), ("error", stringOf error)]
  | .retryScheduled attempt delaySeconds reason =>
      [("type", .string "retry_scheduled"), ("attempt", .number attempt),
        ("delay_seconds", .float delaySeconds), ("reason", stringOf reason)]
  | .processStarted processId title sourceClientMessageId =>
      [("type", .string "process_started"), ("process_id", stringOf processId),
        ("title", stringOf title), ("source_client_message_id", optional sourceClientMessageId)]
  | .processCompleted processId title status =>
      [("type", .string "process_completed"), ("process_id", stringOf processId),
        ("title", stringOf title), ("status", stringOf status)]

/-- `event_to_payload`. -/
def eventToPayload (event : ConversationEvent) : Json :=
  .object ([("seq", .number event.seq), ("dialog_id", stringOf event.dialogId),
    ("exchange_id", optional event.exchangeId)] ++ eventDetails event.payload)

/-- `encode_frame`. -/
def encodeFrame (payload : Json) : Text := "data: ".toList ++ payload.dumps ++ "\n\n".toList

/-- `encode_heartbeat`. -/
def encodeHeartbeat : Text := ": heartbeat\n\n".toList

/-- What comes of waiting for the queue of a subscription. -/
inductive Waited where
  | event (event : ConversationEvent)
  /-- Nothing for the interval of the heartbeat. -/
  | timeout
  /-- `STREAM_CLOSED`. -/
  | closed

/-- The frame that is yielded. -/
def Waited.frame : Waited → Text
  | .event happened => encodeFrame (eventToPayload happened)
  | .timeout => encodeHeartbeat
  | .closed => []

def Waited.payload : Waited → Option Json
  | .event happened => some (eventToPayload happened)
  | _ => none

def Waited.isOpen : Waited → Bool
  | .closed => false
  | _ => true

/-- `stream`: what comes before the end of the subscription. -/
def yielded (waited : List Waited) : List Waited := waited.takeWhile Waited.isOpen

/-- The text that a response has once these have been yielded. -/
def responseText (frames : List Waited) : Text := frames.flatMap Waited.frame

/-! ## A client -/

/-- A client of an event stream: the line it is in, whether a carriage return has just ended one,
and the data of the event that is not complete. -/
structure Client where
  line : Text := []
  returned : Bool := false
  data : List Text := []

/-- The name and the value of a field; one blank before the value does not count. -/
def fieldOf (line : Text) : Text × Text :=
  let value := (line.dropWhile (· ≠ ':')).drop 1
  (line.takeWhile (· ≠ ':'), if value.head? = some ' ' then value.drop 1 else value)

namespace Client

/-- A line is complete; an empty one ends the event. -/
def endLine (client : Client) : Client × Option Text :=
  if client.line.isEmpty then
    ({ client with data := [] },
      if client.data.isEmpty then none else some (Text.join ['\n'] client.data))
  else
    -- A comment is a field without a name.
    let field := fieldOf client.line
    ({ client with
        line := []
        data := if field.1 = "data".toList then client.data ++ [field.2] else client.data }, none)

/-- One character; both halves of a line end are one end. -/
def read (client : Client) (c : Char) : Client × Option Text :=
  if c = '\n' ∧ client.returned then ({ client with returned := false }, none)
  else if c = '\n' ∨ c = '\r' then
    let ended := client.endLine
    ({ ended.1 with returned := c = '\r' }, ended.2)
  else ({ client with line := client.line ++ [c], returned := false }, none)

/-- Some characters, with the data of the events that they complete. -/
def readAll (client : Client) : Text → Client × List Text
  | [] => (client, [])
  | c :: rest =>
      let next := client.read c
      let last := readAll next.1 rest
      (last.1, next.2.toList ++ last.2)

/-- The pieces that a stream arrives in. -/
def receive (client : Client) : List Text → Client × List Text
  | [] => (client, [])
  | piece :: rest =>
      let next := client.readAll piece
      let last := receive next.1 rest
      (last.1, next.2 ++ last.2)

/-! ## Reading -/

variable {client : Client} {t : Text}

theorem readAll_append (client : Client) (t rest : Text) :
    client.readAll (t ++ rest) =
      (((client.readAll t).1.readAll rest).1,
        (client.readAll t).2 ++ ((client.readAll t).1.readAll rest).2) := by
  induction t generalizing client with
  | nil => rfl
  | cons c t ih =>
      simp only [List.cons_append, readAll, ih, List.append_assoc]

/-- The client does not see where the stream is cut. -/
theorem receive_eq (client : Client) (pieces : List Text) :
    client.receive pieces = client.readAll pieces.flatten := by
  induction pieces generalizing client with
  | nil => rfl
  | cons piece rest ih => rw [receive, List.flatten_cons, readAll_append, ih]

/-- A text without an end of line. -/
def OneLine (t : Text) : Prop := ∀ c ∈ t, c ≠ '\n' ∧ c ≠ '\r'

theorem read_of_ne (client : Client) {c : Char} (hPlain : c ≠ '\n' ∧ c ≠ '\r') :
    client.read c = ({ client with line := client.line ++ [c], returned := false }, none) := by
  rw [read, if_neg (fun hEnd => hPlain.1 hEnd.1), if_neg (not_or.mpr hPlain)]

theorem readAll_oneLine (hOne : OneLine t) (line : Text) (data : List Text) :
    readAll ⟨line, false, data⟩ t = (⟨line ++ t, false, data⟩, []) := by
  induction t generalizing line with
  | nil => rw [List.append_nil]; rfl
  | cons c t ih =>
      obtain ⟨hFirst, hRest⟩ := List.forall_mem_cons.mp hOne
      rw [readAll, read_of_ne _ hFirst]
      dsimp only
      rw [ih hRest, List.append_assoc, List.singleton_append]
      rfl

theorem outputs_of_prefix {front : Text} (hFront : front <+: t)
    (hNone : (client.readAll t).2 = []) :
    (client.readAll front).2 = [] := by
  obtain ⟨rest, rfl⟩ := hFront
  rw [readAll_append] at hNone
  exact (List.append_eq_nil_iff.mp hNone).1

end Client

/-! ## What a client gets -/

open Client (OneLine readAll_append readAll_oneLine)

variable {reprFloat : Text → Text}

theorem encodeFrame_eq (payload : Json) :
    encodeFrame payload = "data: ".toList ++ payload.dumps ++ ['\n'] ++ ['\n'] := by
  rw [List.append_assoc _ ['\n']]
  rfl

theorem readAll_frame {payload : Json} (hOne : OneLine payload.dumps) :
    (({} : Client).readAll ("data: ".toList ++ payload.dumps ++ ['\n'])).2 = [] ∧
      ({} : Client).readAll (encodeFrame payload) = ({}, [payload.dumps]) := by
  have hLine : OneLine ("data: ".toList ++ payload.dumps) := by
    intro c hMem
    rcases List.mem_append.mp hMem with hName | hValue
    · have hPlain : ∀ c ∈ "data: ".toList, c ≠ '\n' ∧ c ≠ '\r' := by decide
      exact hPlain c hName
    · exact hOne c hValue
  have hRead : ({} : Client).readAll ("data: ".toList ++ payload.dumps) =
      (⟨"data: ".toList ++ payload.dumps, false, []⟩, []) := readAll_oneLine hLine [] []
  have hEnd : (⟨"data: ".toList ++ payload.dumps, false, []⟩ : Client).readAll ['\n'] =
      (⟨[], false, [payload.dumps]⟩, []) := rfl
  have hFront : ({} : Client).readAll ("data: ".toList ++ payload.dumps ++ ['\n']) =
      (⟨[], false, [payload.dumps]⟩, []) := by
    rw [readAll_append, hRead, hEnd]
    rfl
  have hLast : (⟨[], false, [payload.dumps]⟩ : Client).readAll ['\n'] = ({}, [payload.dumps]) := by
    have hJoin : Text.join ['\n'] [payload.dumps] = payload.dumps := by
      simp [Text.join, List.intercalate]
    conv_rhs => rw [← hJoin]
    rfl
  refine ⟨by rw [hFront], ?_⟩
  rw [encodeFrame_eq, readAll_append, hFront, hLast]
  rfl

/-- What a frame is for a client: nothing before its last character. -/
structure Delivers (frame : Text) (events : List Text) : Prop where
  early : ∀ part, part <+: frame → part ≠ frame → (({} : Client).readAll part).2 = []
  whole : ({} : Client).readAll frame = ({}, events)

theorem delivers_of_last {front : Text} {c : Char} {events : List Text}
    (hFront : (({} : Client).readAll front).2 = [])
    (hWhole : ({} : Client).readAll (front ++ [c]) = ({}, events)) :
    Delivers (front ++ [c]) events where
  early part hPart hProper := by
    rcases List.prefix_concat_iff.mp hPart with rfl | hBefore
    · exact absurd rfl hProper
    · exact Client.outputs_of_prefix hBefore hFront
  whole := hWhole

theorem delivers_frame {payload : Json} (hOne : OneLine payload.dumps) :
    Delivers (encodeFrame payload) [payload.dumps] := by
  obtain ⟨hFront, hWhole⟩ := readAll_frame hOne
  rw [encodeFrame_eq] at hWhole ⊢
  exact delivers_of_last hFront hWhole

theorem delivers_heartbeat : Delivers encodeHeartbeat [] :=
  @delivers_of_last ": heartbeat\n".toList '\n' [] rfl rfl

/-! ## What is written -/

section Fine

variable (reprFloat : Text → Text)

/-- The arguments of a call are a dictionary, and a delay is a float. -/
def LoopEvent.Fine : LoopEvent → Prop
  | .toolCallRequested call => Json.Proper reprFloat (.object call.arguments)
  | .retryScheduled _ delaySeconds _ => Json.IsFloat reprFloat delaySeconds
  | _ => True

def Waited.Fine : Waited → Prop
  | .event happened => happened.payload.Fine reprFloat
  | _ => True

end Fine

@[simp] theorem proper_stringOf (t : Text) : Json.Proper reprFloat (stringOf t) := .string _

@[simp] theorem proper_optional (t : Option Text) : Json.Proper reprFloat (optional t) := by
  cases t with
  | none => exact .null
  | some t => exact .string _

/-- The payload of an event has each name once. -/
theorem proper_eventToPayload {happened : ConversationEvent}
    (hFine : happened.payload.Fine reprFloat) :
    Json.Proper reprFloat (eventToPayload happened) := by
  obtain ⟨dialogId, seq, payload, exchangeId⟩ := happened
  cases payload with
  | toolCallRequested call =>
      have hArguments : Json.Proper reprFloat (.object call.arguments) := hFine
      have hPayload : ∀ value, Json.Proper reprFloat value → Json.Proper reprFloat (.object
          ([("seq", .number seq), ("dialog_id", stringOf dialogId),
            ("exchange_id", optional exchangeId)] ++
          [("type", .string "tool_call_requested"), ("name", stringOf call.name),
            ("arguments", value)])) := by
        intro value hValue
        simp [hValue]
      exact hPayload _ hArguments
  | retryScheduled attempt delaySeconds reason =>
      have hDelay : Json.Proper reprFloat (.float delaySeconds) := .float hFine
      simp [eventToPayload, eventDetails, hDelay]
  | _ => simp [eventToPayload, eventDetails]

theorem delivers_waited {waited : Waited} (hOpen : waited.isOpen = true)
    (hFine : waited.Fine reprFloat) :
    Delivers waited.frame (waited.payload.map Json.dumps).toList := by
  cases waited with
  | event happened =>
      refine delivers_frame fun c hMem => ?_
      have hPrinted := Json.printed_dumps (proper_eventToPayload hFine) c hMem
      constructor
      · rintro rfl
        exact absurd hPrinted (by decide)
      · rintro rfl
        exact absurd hPrinted (by decide)
  | timeout => exact delivers_heartbeat
  | closed => cases hOpen

/-- Complete frames leave the client as it was, with their events. -/
theorem readAll_responseText {frames : List Waited}
    (hFrames : ∀ waited ∈ frames, waited.isOpen = true ∧ waited.Fine reprFloat) :
    ({} : Client).readAll (responseText frames) =
      ({}, (frames.filterMap Waited.payload).map Json.dumps) := by
  induction frames with
  | nil => rfl
  | cons first frames ih =>
      obtain ⟨⟨hOpen, hFine⟩, hRest⟩ := List.forall_mem_cons.mp hFrames
      have hFirst := (delivers_waited hOpen hFine).whole
      rw [responseText, List.flatMap_cons, readAll_append, hFirst]
      dsimp only
      have hOthers := ih hRest
      rw [responseText] at hOthers
      rw [hOthers]
      cases hPayload : first.payload with
      | none => rw [List.filterMap_cons_none hPayload]; rfl
      | some payload => rw [List.filterMap_cons_some hPayload]; rfl

/-- Whatever has arrived of a stream, and in whatever pieces: the client has the events whose frames
are complete, in their order, each of them as it was, and no part of the next one. -/
theorem events_reach_client {waited : List Waited} {pieces : List Text}
    (hFine : ∀ happened ∈ waited, happened.Fine reprFloat)
    (hArrived : pieces.flatten <+: responseText (yielded waited)) :
    ∃ done later, yielded waited = done ++ later ∧ responseText done <+: pieces.flatten ∧
      (∀ next ∈ later.head?, ¬responseText (done ++ [next]) <+: pieces.flatten) ∧
      (({} : Client).receive pieces).2.map (Json.loads reprFloat) =
        (done.filterMap Waited.payload).map .ok := by
  obtain ⟨done, later, part, hYielded, hPieces, hEnd, hNext⟩ :=
    Sequence.exists_complete Waited.frame hArrived
  have hFrames : ∀ frame ∈ yielded waited, frame.isOpen = true ∧ frame.Fine reprFloat := by
    intro frame hFrame
    exact ⟨List.mem_takeWhile_imp hFrame, hFine frame (List.takeWhile_subset _ hFrame)⟩
  rw [hYielded] at hFrames
  have hDone := readAll_responseText fun frame hFrame =>
    hFrames frame (List.mem_append_left later hFrame)
  have hPart : (({} : Client).readAll part).2 = [] := by
    cases later with
    | nil => rw [hEnd rfl, Client.readAll]
    | cons next later =>
        obtain ⟨hPrefix, hProper⟩ := hNext next rfl
        obtain ⟨hOpen, hNextFine⟩ := hFrames next (List.mem_append_right _ List.mem_cons_self)
        exact (delivers_waited hOpen hNextFine).early part hPrefix hProper
  refine ⟨done, later, hYielded, hPieces ▸ List.prefix_append _ _, fun next hIs hWhole => ?_, ?_⟩
  · obtain ⟨hPrefix, hProper⟩ := hNext next hIs
    rw [hPieces, responseText, List.flatMap_append, List.flatMap_singleton,
      List.prefix_append_right_inj] at hWhole
    exact hProper (hPrefix.eq_of_length_le hWhole.length_le)
  · have hRead : (({} : Client).receive pieces).2 =
        (done.filterMap Waited.payload).map Json.dumps := by
      rw [Client.receive_eq, hPieces, readAll_append]
      change ((({} : Client).readAll (responseText done)).2 ++
        ((({} : Client).readAll (responseText done)).1.readAll part).2) = _
      rw [hDone, hPart, List.append_nil]
    rw [hRead, List.map_map]
    refine List.map_congr_left fun payload hPayload => ?_
    obtain ⟨frame, hFrame, hSame⟩ := List.mem_filterMap.mp hPayload
    obtain ⟨-, hFrameFine⟩ := hFrames frame (List.mem_append_left later hFrame)
    cases frame with
    | event happened =>
        obtain rfl := Option.some.inj hSame
        exact Json.loads_dumps (proper_eventToPayload hFrameFine)
    | timeout => cases hSame
    | closed => cases hSame

/-- A text that looks like a frame, a heartbeat, and an event behind the end. -/
def someWaited : List Waited :=
  [.event ⟨"d".toList, 1, .textDelta "a\n\ndata: 1\n\n".toList, some "x".toList⟩, .timeout,
    .event ⟨"d".toList, 2, .toolCallRequested ⟨"c".toList, "f".toList, [("q", .null)]⟩, none⟩,
    .closed, .event ⟨"d".toList, 3, .cancelled, none⟩]

/-- The first two frames, and some of the third one. -/
def somePieces : List Text :=
  [(responseText (yielded someWaited)).take 30,
    ((responseText (yielded someWaited)).drop 30).take 150]

theorem events_reach_client_some :
    ∃ done later, yielded someWaited = done ++ later ∧ responseText done <+: somePieces.flatten ∧
      (∀ next ∈ later.head?, ¬responseText (done ++ [next]) <+: somePieces.flatten) ∧
      (({} : Client).receive somePieces).2.map (Json.loads id) =
        (done.filterMap Waited.payload).map .ok := by
  refine events_reach_client ?_ (by decide +kernel)
  simp [someWaited, Waited.Fine, LoopEvent.Fine]

end Server
end OctoForge
