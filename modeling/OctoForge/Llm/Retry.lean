import Mathlib.Algebra.Order.Field.Rat
import OctoForge.Llm.Events

/-!
# Retries of a stream

`RetryingLLMClient`: an attempt that fails before its first event is made again when its error is
transient.
-/

namespace OctoForge
namespace Llm

/-- `ErrorKind`. -/
inductive ErrorKind where
  | rateLimit
  | auth
  | quota
  | contextOverflow
  | providerInternal
  | transport
  | client
  deriving DecidableEq, Repr

def ErrorKind.value : ErrorKind → Text
  | .rateLimit => "rate_limit".toList
  | .auth => "auth".toList
  | .quota => "quota".toList
  | .contextOverflow => "context_overflow".toList
  | .providerInternal => "provider_internal".toList
  | .transport => "transport".toList
  | .client => "client".toList

/-- `TRANSIENT_KINDS`. -/
def transientKinds : List ErrorKind := [.rateLimit, .providerInternal, .transport]

/-- `LLMError`, of any of its classes. -/
structure LLMError where
  kind : ErrorKind
  message : Text
  retryAfter : Option Rat := none
  deriving DecidableEq, Repr

def LLMError.transient (error : LLMError) : Bool := transientKinds.contains error.kind

/-- An exception, with the name of its class and its text when it is not an `LLMError`. -/
inductive Raised where
  | llm (error : LLMError)
  | other (name message : Text)
  deriving DecidableEq, Repr

/-- How an attempt stands: it has returned or raised, or has not ended yet. -/
inductive Ending where
  | returned
  | raised (exc : Raised)
  | running
  deriving DecidableEq, Repr

/-- What an attempt has yielded, and how it stands. -/
structure Attempt where
  events : List StreamEvent
  ending : Ending

/-- `RETRY_AFTER_DELAY_CAP_SECONDS`. -/
def retryAfterDelayCapSeconds : Rat := 300

/-- What is raised for an integer that is too large for a float. -/
def overflow : Raised := .other "OverflowError".toList "int too large to convert to float".toList

/-- `float(2 ** exponent)`, which is exact as long as there is a float for it. -/
def floatPower (exponent : Nat) : Except Raised Rat :=
  if exponent < 1024 then .ok (2 ^ exponent) else .error overflow

/-- `RetryingLLMClient`; `uniform` is what is drawn from an interval before an attempt. -/
structure RetryingLLMClient where
  maxRetries : Int
  baseSeconds : Rat
  maxSeconds : Rat
  uniform : Nat → Rat → Rat → Rat

namespace RetryingLLMClient

variable (client : RetryingLLMClient)

/-- `_delay`; the power becomes a float before the ceiling is taken. -/
def delay (attempt : Nat) (exc : LLMError) : Except Raised Rat := do
  let power ← floatPower (attempt - 1)
  let ceiling := min client.maxSeconds (client.baseSeconds * power)
  match exc.retryAfter with
  | some retryAfter =>
      return min (retryAfter + client.uniform attempt 0 ceiling) retryAfterDelayCapSeconds
  | none => return client.uniform attempt 0 ceiling

/-- What a stream has yielded, how many attempts it has made, and how it stands. -/
structure Streamed where
  events : List StreamEvent
  attempts : Nat
  ending : Ending

/-- An attempt that nothing follows. -/
def Streamed.last (attempt : Attempt) : Streamed := ⟨attempt.events, 1, attempt.ending⟩

/-- The loop of `stream` after some retries; `inner` says what comes of each attempt. -/
def streamFrom (inner : Nat → Attempt) (attempt : Nat) : Streamed :=
  match (inner attempt).ending with
  | .raised (.llm exc) =>
      if !(inner attempt).events.isEmpty || !exc.transient || client.maxRetries ≤ attempt then
        .last (inner attempt)
      else
        match client.delay (attempt + 1) exc with
        | .error raised => ⟨(inner attempt).events, 1, .raised raised⟩
        | .ok seconds =>
            let rest := streamFrom inner (attempt + 1)
            ⟨(inner attempt).events ++ .retryScheduled (attempt + 1) seconds exc.kind.value :: rest.events,
              rest.attempts + 1, rest.ending⟩
  | _ => .last (inner attempt)
termination_by (client.maxRetries - attempt).toNat
decreasing_by
  rename_i hRetries
  rw [Bool.or_eq_true, not_or, decide_eq_true_eq] at hRetries
  omega

/-- `stream`. -/
def stream (inner : Nat → Attempt) : Streamed := client.streamFrom inner 0

end RetryingLLMClient

end Llm
end OctoForge
