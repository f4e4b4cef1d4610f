import OctoForge.Json
import OctoForge.Text

/-!
# Events of a stream

What a client of a language model yields while a completion streams.
-/

namespace OctoForge
namespace Llm

/-- `ToolCall`. -/
structure ToolCall where
  id : Text
  name : Text
  arguments : List (String × Json) := []

/-- `ChatMessage`, of the assistant. -/
structure ChatMessage where
  content : Text
  toolCalls : List ToolCall

/-- `Usage`. -/
structure Usage where
  promptTokens : Int
  completionTokens : Int
  cachedTokens : Option Int := none
  deriving DecidableEq, Repr

/-- `StreamEvent`. -/
inductive StreamEvent where
  | textDelta (text : Text)
  | reasoningDelta
  | toolCallStarted (index : Int) (callId name : Text)
  | toolCallReady (call : ToolCall)
  | toolCallBroken (index : Int) (callId name error raw : Text)
  | streamFinished (message : ChatMessage) (usage : Option Usage)
  | retryScheduled (attempt : Nat) (delaySeconds : Rat) (reason : Text)

/-- The events that end a tool call. -/
def StreamEvent.ends : StreamEvent → Bool
  | .toolCallReady _ | .toolCallBroken .. => true
  | _ => false

/-- The call of an event that ends one; a broken call has no arguments. -/
def StreamEvent.call : StreamEvent → Option ToolCall
  | .toolCallReady call => some call
  | .toolCallBroken _ callId name _ _ => some ⟨callId, name, []⟩
  | _ => none

end Llm
end OctoForge
