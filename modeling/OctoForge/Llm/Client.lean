import OctoForge.Dialog.Branch
import OctoForge.Json.Loads
import OctoForge.Lines
import OctoForge.Llm.Accumulator
import OctoForge.Llm.Errors

/-!
# The client of a provider

`OpenAICompatibleClient`: a completion is asked for as one document or as a stream of events.  Here
are the texts that go over the wire; the deltas of a stream are accumulated as before.

A field of a type it never has makes Python raise somewhere further on.  Where and what is left out:
such a payload is `malformed`.
-/

namespace OctoForge
namespace Llm

open Dialog (MessageRole)

/-- What the client takes from Python and from the library it speaks HTTP with. -/
structure Platform where
  /-- `repr(float(digits))`. -/
  reprFloat : Text → Text
  /-- `str.lower`. -/
  lower : Text → Text
  /-- `str`, of a field of an error. -/
  str : Json → Text
  /-- What a `JSONDecodeError` says of a text. -/
  decodeError : Text → Text
  /-- `aiter_lines`, of the pieces a response arrives in. -/
  iterLines : List Text → List Text

def parseErrorMessage : Text := "Unexpected LLM response payload".toList

def sseDataPrefix : Text := "data:".toList

def sseDoneMarker : Text := "[DONE]".toList

/-- `CONSUMED_DELTA_FIELDS`. -/
def consumedDeltaFields : List String :=
  ["content", "tool_calls", "role", "reasoning", "reasoning_content"]

/-- `LLMResponseError`. -/
def responseError (message : Text) : Raised := .other "LLMResponseError".toList message

/-- Any exception that is not the client's own. -/
def malformed : Raised := .other "Exception".toList []

/-! ## Messages for the provider -/

/-- `ChatMessage`, as far as it is for the provider. -/
structure Prompted where
  role : MessageRole
  content : Text
  toolCalls : List ToolCall := []
  toolCallId : Option Text := none

def roleValue : MessageRole → String
  | .system => "system"
  | .user => "user"
  | .assistant => "assistant"
  | .tool => "tool"

def stringOf (t : Text) : Json := .string (String.ofList t)

def serializeToolCall (call : ToolCall) : Json :=
  .object [("id", stringOf call.id), ("type", .string "function"),
    ("function", .object [("name", stringOf call.name),
      ("arguments", stringOf (Json.object call.arguments).dumpsAscii)])]

/-- `_serialize_message`. -/
def serializeMessage (message : Prompted) : Json :=
  .object ([("role", .string (roleValue message.role)), ("content", stringOf message.content)] ++
    (if message.toolCalls.isEmpty then []
      else [("tool_calls", .array (message.toolCalls.map serializeToolCall))]) ++
    (message.toolCallId.map fun id => ("tool_call_id", stringOf id)).toList)

/-! ## Fields of a payload -/

/-- `members.get(name) or ""`, of a string. -/
def textField (members : List (String × Json)) (name : String) (wrong : Raised) :
    Except Raised Text :=
  match Json.field members name with
  | none => .ok []
  | some (.string value) => .ok value.toList
  | some _ => .error wrong

/-- `members.get(name) or []`, of a list. -/
def listField (members : List (String × Json)) (name : String) : Except Raised (List Json) :=
  match Json.field members name with
  | none => .ok []
  | some (.array items) => .ok items
  | some _ => .error malformed

/-- `parse_usage`. -/
def parseUsage (raw : Option Json) : Option Usage :=
  match raw with
  | some (.object usage) => do
      let prompt ← (Json.lookup usage "prompt_tokens").bind Json.int?
      let completion ← (Json.lookup usage "completion_tokens").bind Json.int?
      let details := (Json.lookup usage "prompt_tokens_details").bind fun details =>
        details.member "cached_tokens"
      return ⟨prompt, completion, details.bind Json.int?⟩
  | _ => none

/-! ## One document -/

/-- `data["choices"][0]["message"]`. -/
def rawMessage (data : Json) : Option Json :=
  match data.member "choices" with
  | some (.array (choice :: _)) => choice.member "message"
  | _ => none

namespace Platform

variable (p : Platform)

/-- `json.loads`. -/
def loads (t : Text) : Loaded :=
  match Json.loads p.reprFloat t with
  | .ok document => .value document
  | .error _ => .undecodable (p.decodeError t)

/-- `json.loads(raw["function"]["arguments"] or "{}")`. -/
def parseArguments (raw : Json) : Except Raised Json := do
  let text ← match (raw.member "function").bind fun function => function.member "arguments" with
    | none => .error (responseError parseErrorMessage)
    | some (.string value) =>
        .ok (if value.toList.isEmpty then "\x7b\x7d".toList else value.toList)
    | some value =>
        if value.truthy then .error (responseError parseErrorMessage) else .ok "\x7b\x7d".toList
  match Json.loads p.reprFloat text with
  | .ok document => .ok document
  | .error _ => .error (responseError parseErrorMessage)

/-- `_parse_tool_call`. -/
def parseToolCall (raw : Json) : Except Raised ToolCall := do
  match ← p.parseArguments raw with
  | .object arguments =>
      match raw.member "id",
        (raw.member "function").bind fun function => function.member "name" with
      | some (.string id), some (.string name) => .ok ⟨id.toList, name.toList, arguments⟩
      | _, _ => .error malformed
  | _ => .error (responseError argumentsNotObject)

/-- `_parse_reply`. -/
def parseReply (data : Json) : Except Raised ChatMessage :=
  match rawMessage data with
  | some (.object raw) => do
      let content ← textField raw "content" (responseError parseErrorMessage)
      let calls ← listField raw "tool_calls"
      let toolCalls ← calls.mapM p.parseToolCall
      return ⟨content, toolCalls⟩
  | _ => .error (responseError parseErrorMessage)

/-- `complete`, of a response without an error status. -/
def complete (body : Text) : Except Raised (ChatMessage × Option Usage) := do
  match Json.loads p.reprFloat body with
  | .ok data =>
      let message ← p.parseReply data
      return (message, parseUsage (data.member "usage"))
  | .error _ => .error (responseError parseErrorMessage)

end Platform

/-! ## A stream -/

/-- The data of the events, up to the one that says that there are no more. -/
def payloads : List Text → List Text
  | [] => []
  | line :: rest =>
      if sseDataPrefix.isPrefixOf line then
        let data := Text.strip (line.drop sseDataPrefix.length)
        if data = sseDoneMarker then [] else data :: payloads rest
      else payloads rest

def readIndex (raw : List (String × Json)) : Except Raised (Option Int) :=
  match Json.lookup raw "index" with
  | none => .ok none
  | some (.number index) => .ok (some index)
  | some _ => .error malformed

/-- A fragment of a tool call. -/
def readRawCall : Json → Except Raised RawCall
  | .object raw => do
      let index ← readIndex raw
      let id ← textField raw "id" malformed
      match Json.field raw "function" with
      | none => return ⟨index, id, [], []⟩
      | some (.object function) =>
          let name ← textField function "name" malformed
          let arguments ← textField function "arguments" malformed
          return ⟨index, id, name, arguments⟩
      | some _ => .error malformed
  | _ => .error malformed

def readDelta (delta : List (String × Json)) : Except Raised Delta := do
  let content ← textField delta "content" malformed
  let calls ← listField delta "tool_calls"
  let toolCalls ← calls.mapM readRawCall
  let others := delta.filter fun member =>
    member.2.truthy && !consumedDeltaFields.contains member.1
  return {
    others := others.map fun member => member.1.toList
    reasoning := ((Json.field delta "reasoning").or (Json.field delta "reasoning_content")).isSome
    content
    toolCalls }

/-- `choices[0].get("delta") or {}`. -/
def readChoice : Json → Except Raised Delta
  | .object choice =>
      match Json.field choice "delta" with
      | none => readDelta []
      | some (.object delta) => readDelta delta
      | some _ => .error malformed
  | _ => .error (responseError parseErrorMessage)

/-- `_stream_error_status`. -/
def streamErrorStatus (error : List (String × Json)) : Int :=
  ((Json.lookup error "code").bind Json.int?).getD 500

namespace Platform

variable (p : Platform)

/-- What `feed` makes of a parsed payload before it looks at the delta. -/
def readChunk : Json → Except Raised Chunk
  | .object chunk =>
      match Json.lookup chunk "error" with
      | some (.object error) =>
          .error (.llm
            (classifyHttpError p.lower p.str (streamErrorStatus error) (.object chunk) none))
      | _ => do
          let usage := parseUsage (Json.lookup chunk "usage")
          match ← listField chunk "choices" with
          | [] => return ⟨usage, none⟩
          | choice :: _ => return ⟨usage, some (← readChoice choice)⟩
  | _ => .error (responseError parseErrorMessage)

/-- `feed`. -/
def feed (acc : Accumulator) (data : Text) : Except Raised (List StreamEvent × Accumulator) :=
  match Json.loads p.reprFloat data with
  | .ok payload => do
      let chunk ← p.readChunk payload
      (acc.feed p.loads chunk).mapError fun message => .other "ValueError".toList message
  | .error _ => .error (responseError parseErrorMessage)

/-- The end of a stream: the last call is closed, and the message is whole. -/
def finishStream (acc : Accumulator) : Attempt :=
  match acc.finish p.loads with
  | .error message => ⟨[], .raised (.other "ValueError".toList message)⟩
  | .ok (events, acc) =>
      match acc.buildMessage p.loads with
      | .error message => ⟨events, .raised (.other "ValueError".toList message)⟩
      | .ok message => ⟨events ++ [.streamFinished message acc.usage], .returned⟩

/-- The payloads of a stream, one after the other. -/
def streamFrom (acc : Accumulator) : List Text → Attempt
  | [] => p.finishStream acc
  | data :: rest =>
      match p.feed acc data with
      | .error exc => ⟨[], .raised exc⟩
      | .ok (events, acc) =>
          let after := streamFrom acc rest
          ⟨events ++ after.events, after.ending⟩

/-- `stream`, of a response without an error status that arrives in these pieces. -/
def stream (pieces : List Text) : Attempt := p.streamFrom {} (payloads (p.iterLines pieces))

end Platform

end Llm
end OctoForge
