import OctoForge.Dialog.Branch

/-!
# Routing decisions

The router is a language model that answers with the arguments of one tool
call, so nothing about its answer is certain.  `parseDecision` keeps what is
usable: identifiers of exchanges that were offered to it, one of the three
actions, and a one-line title.  Everything else degrades to a new exchange.

The model's answer is a parameter of the development.  What the rest relies on
is only `parseDecision_known`: whatever the model says, a decision names
exchanges that were offered.
-/

namespace OctoForge
namespace Conversation

open Dialog (ExchangeId)

inductive RouteAction where
  | new
  | continue
  | command
  deriving DecidableEq, Repr

structure RouteDecision where
  action : RouteAction := .new
  exchangeId : Option ExchangeId := none
  cancelIds : List ExchangeId := []
  title : Option String := none
  deriving DecidableEq, Repr

/-- A value in the arguments of the tool call.  A string is one that names an
exchange, or another text. -/
inductive Argument where
  | id (x : ExchangeId)
  | text (value : String)
  | list (items : List Argument)
  | other

/-- The arguments of the tool call.  `action` is `str` of whatever was given. -/
structure RouteArguments where
  action : String
  exchangeId : Argument := .other
  cancelExchangeIds : Argument := .other
  title : Argument := .other

/-- `RouteAction(value)`. -/
def routeAction? : String → Option RouteAction
  | "new" => some .new
  | "continue" => some .continue
  | "command" => some .command
  | _ => none

/-- `_as_list`. -/
def asList : Argument → List Argument
  | .list items => items
  | _ => []

/-- A string among the known identifiers. -/
def knownId (known : List ExchangeId) : Argument → Option ExchangeId
  | .id x => if x ∈ known then some x else none
  | _ => none

def titleMaxLength : Nat := 60

/-- `title[:TITLE_MAX_LENGTH]`. -/
def clampTitle (title : String) : String := String.ofList (title.toList.take titleMaxLength)

/-- The words of a text. -/
def words : List Char → List (List Char)
  | [] => []
  | c :: rest =>
      if c.isWhitespace then [] :: words rest
      else
        match words rest with
        | [] => [[c]]
        | word :: more => (c :: word) :: more

/-- `_clean_title`: one line, clamped, and nothing where there is no word. -/
def cleanTitle : Argument → Option String
  | .text value =>
      let title := " ".intercalate
        (((words value.toList).filter fun word => !word.isEmpty).map String.ofList)
      if title.isEmpty then none else some (clampTitle title)
  | _ => none

/-- `_parse_decision`. -/
def parseDecision (arguments : RouteArguments) (known : List ExchangeId) : RouteDecision :=
  let cancelIds := (asList arguments.cancelExchangeIds).filterMap (knownId known)
  match routeAction? arguments.action with
  | none => { cancelIds }
  | some .continue =>
      match knownId known arguments.exchangeId with
      | none => { cancelIds }
      | some target =>
          { action := .continue, exchangeId := some target, cancelIds
            title := cleanTitle arguments.title }
  | some action => { action, cancelIds }

/-- `LLMRouter.route`: no usable answer is a new exchange. -/
def llmRoute (reply : Option RouteArguments) (known : List ExchangeId) : RouteDecision :=
  match reply with
  | none => {}
  | some arguments => parseDecision arguments known

theorem knownId_mem {known : List ExchangeId} {argument : Argument} {x : ExchangeId}
    (hKnown : knownId known argument = some x) : x ∈ known := by
  unfold knownId at hKnown
  split at hKnown
  · split at hKnown
    · rename_i hMem
      obtain rfl := Option.some.inj hKnown
      exact hMem
    · simp at hKnown
  · simp at hKnown

/-- A decision attaches a message only to an exchange that was offered. -/
theorem parseDecision_known {arguments : RouteArguments} {known : List ExchangeId}
    {x : ExchangeId} (hTarget : (parseDecision arguments known).exchangeId = some x) :
    x ∈ known := by
  unfold parseDecision at hTarget
  split at hTarget
  · simp at hTarget
  · split at hTarget
    · simp at hTarget
    · rename_i target hKnown
      obtain rfl := Option.some.inj hTarget
      exact knownId_mem hKnown
  · simp at hTarget

theorem llmRoute_known {reply : Option RouteArguments} {known : List ExchangeId} {x : ExchangeId}
    (hTarget : (llmRoute reply known).exchangeId = some x) : x ∈ known := by
  cases reply with
  | none => simp [llmRoute] at hTarget
  | some arguments => exact parseDecision_known hTarget

end Conversation
end OctoForge
