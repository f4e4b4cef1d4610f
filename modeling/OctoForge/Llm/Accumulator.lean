import Mathlib.Data.List.Sort
import OctoForge.Fallible
import OctoForge.Llm.Events
import OctoForge.Sequence.Dict

/-!
# The accumulator of a stream

`_StreamAccumulator`: deltas are put together into a message, and each tool call ends with an event
once the deltas have gone on to another one.  The last call ends with the stream.
-/

namespace OctoForge
namespace Llm

/-- What `json.loads` makes of a text: a value, a `JSONDecodeError`, or another exception. -/
inductive Loaded where
  | value (document : Json)
  | undecodable (error : Text)
  | raised (error : Text)

/-- A fragment of a tool call; what it does not have is empty. -/
structure RawCall where
  index : Option Int := none
  id : Text := []
  name : Text := []
  arguments : Text := []
  deriving DecidableEq, Repr

/-- `raw.get("index", 0)`. -/
def RawCall.slot (raw : RawCall) : Int := raw.index.getD 0

/-- `delta` of the first choice. -/
structure Delta where
  /-- The fields with a value that nothing consumes. -/
  others : List Text := []
  /-- Whether there is reasoning, under either of its names. -/
  reasoning : Bool := false
  content : Text := []
  toolCalls : List RawCall := []
  deriving DecidableEq, Repr

/-- A payload of the stream, parsed; the last one may have no choice. -/
structure Chunk where
  usage : Option Usage := none
  delta : Option Delta := none
  deriving DecidableEq, Repr

/-- `_ToolCallSlot`. -/
structure ToolCallSlot where
  callId : Text := []
  name : Text := []
  argumentParts : List Text := []
  arguments : List (String × Json) := []
  started : Bool := false
  closed : Bool := false

/-- `_StreamAccumulator`. -/
structure Accumulator where
  contentParts : List Text := []
  toolCalls : List (Int × ToolCallSlot) := []
  openIndex : Option Int := none
  usage : Option Usage := none
  ignoredFields : List (Text × Nat) := []

def argumentsNotObject : Text := "tool call arguments are not a JSON object".toList

/-- `"".join(slot.argument_parts) or "{}"`. -/
def ToolCallSlot.raw (slot : ToolCallSlot) : Text :=
  if slot.argumentParts.flatten.isEmpty then "\x7b\x7d".toList else slot.argumentParts.flatten

section Feeding

variable (loads : Text → Loaded)

/-- `_close_slot`, of a slot that is not closed: the event, and the slot after it. -/
def ToolCallSlot.close (slot : ToolCallSlot) (index : Int) :
    Except Text (StreamEvent × ToolCallSlot) :=
  match loads slot.raw with
  | .raised error => .error error
  | .undecodable error =>
      .ok (.toolCallBroken index slot.callId slot.name error slot.raw, { slot with closed := true })
  | .value (.object members) =>
      .ok (.toolCallReady ⟨slot.callId, slot.name, members⟩,
        { slot with closed := true, arguments := members })
  | .value _ =>
      .ok (.toolCallBroken index slot.callId slot.name argumentsNotObject slot.raw,
        { slot with closed := true })

namespace Accumulator

/-- `_close_slot`. -/
def closeSlot (acc : Accumulator) (index : Int) : Except Text (Option StreamEvent × Accumulator) :=
  match Dict.get acc.toolCalls index with
  | none => .ok (none, acc)
  | some slot =>
      if slot.closed then .ok (none, acc)
      else
        (slot.close loads index).map fun (event, closed) =>
          (some event, { acc with toolCalls := Dict.put index closed acc.toolCalls })

/-- The call that is left when the deltas go on to another one. -/
def closeOpen (acc : Accumulator) (index : Int) : Except Text (Option StreamEvent × Accumulator) :=
  match acc.openIndex with
  | none => .ok (none, acc)
  | some before => if before = index then .ok (none, acc) else acc.closeSlot loads before

end Accumulator

/-- A slot with one more fragment. -/
def ToolCallSlot.add (slot : ToolCallSlot) (raw : RawCall) : ToolCallSlot :=
  { slot with
    callId := if raw.id.isEmpty then slot.callId else raw.id
    name := slot.name ++ raw.name
    argumentParts :=
      if raw.arguments.isEmpty then slot.argumentParts else slot.argumentParts ++ [raw.arguments] }

/-- Whether a call that has not started can start: its id and its name are known. -/
def ToolCallSlot.starts (slot : ToolCallSlot) : Bool :=
  !slot.started && !slot.callId.isEmpty && !slot.name.isEmpty

namespace Accumulator

/-- `_feed_tool_call`. -/
def feedToolCall (acc : Accumulator) (raw : RawCall) :
    Except Text (List StreamEvent × Accumulator) := do
  let (closed, acc) ← acc.closeOpen loads raw.slot
  let slot := ((Dict.get acc.toolCalls raw.slot).getD {}).add raw
  let started :=
    if slot.starts then [StreamEvent.toolCallStarted raw.slot slot.callId slot.name] else []
  let slot := { slot with started := slot.started || slot.starts }
  return (closed.toList ++ started,
    { acc with toolCalls := Dict.put raw.slot slot acc.toolCalls, openIndex := some raw.slot })

/-- The fragments of one delta. -/
def feedToolCalls (acc : Accumulator) : List RawCall → Except Text (List StreamEvent × Accumulator)
  | [] => .ok ([], acc)
  | raw :: rest => do
      let (events, acc) ← acc.feedToolCall loads raw
      let (others, acc) ← acc.feedToolCalls rest
      return (events ++ others, acc)

/-- `_note_ignored`. -/
def noteIgnored (acc : Accumulator) (others : List Text) : Accumulator :=
  { acc with
    ignoredFields := others.foldl
      (fun counts name => Dict.put name ((Dict.get counts name).getD 0 + 1) counts)
      acc.ignoredFields }

/-- `feed`, of a payload that has been parsed. -/
def feed (acc : Accumulator) (chunk : Chunk) : Except Text (List StreamEvent × Accumulator) :=
  let acc := { acc with usage := chunk.usage.or acc.usage }
  match chunk.delta with
  | none => .ok ([], acc)
  | some delta =>
      let reasoning := if delta.reasoning then [StreamEvent.reasoningDelta] else []
      let content := if delta.content.isEmpty then [] else [delta.content]
      let acc := { acc.noteIgnored delta.others with contentParts := acc.contentParts ++ content }
      (acc.feedToolCalls loads delta.toolCalls).map fun (events, acc) =>
        (reasoning ++ content.map StreamEvent.textDelta ++ events, acc)

/-- The payloads of a stream, one after the other. -/
def feedAll (acc : Accumulator) : List Chunk → Except Text (List StreamEvent × Accumulator)
  | [] => .ok ([], acc)
  | chunk :: rest => do
      let (events, acc) ← acc.feed loads chunk
      let (others, acc) ← acc.feedAll rest
      return (events ++ others, acc)

/-- `finish`. -/
def finish (acc : Accumulator) : Except Text (List StreamEvent × Accumulator) :=
  match acc.openIndex with
  | none => .ok ([], acc)
  | some index => (acc.closeSlot loads index).map fun (event, acc) => (event.toList, acc)

/-- The slots that `build_message` closes. -/
def closeAll (acc : Accumulator) : List Int → Except Text Accumulator
  | [] => .ok acc
  | index :: rest => do
      let (_, acc) ← acc.closeSlot loads index
      acc.closeAll rest

/-- The calls of the message, by their indices. -/
def calls (acc : Accumulator) : List ToolCall :=
  (acc.toolCalls.insertionSort fun entry other => entry.1 ≤ other.1).map fun entry =>
    ⟨entry.2.callId, entry.2.name, entry.2.arguments⟩

/-- `build_message`. -/
def buildMessage (acc : Accumulator) : Except Text ChatMessage := do
  let acc ← acc.closeAll loads (acc.toolCalls.map (·.1))
  return ⟨acc.contentParts.flatten, acc.calls⟩

end Accumulator

/-- What a stream yields before its message, and the message. -/
def accumulate (chunks : List Chunk) : Except Text (List StreamEvent × ChatMessage) := do
  let (events, acc) ← Accumulator.feedAll loads {} chunks
  let (last, acc) ← acc.finish loads
  let message ← acc.buildMessage loads
  return (events ++ last, message)

end Feeding

end Llm
end OctoForge
