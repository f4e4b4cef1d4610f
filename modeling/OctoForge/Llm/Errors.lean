import OctoForge.Json.Dynamic
import OctoForge.Llm.Retry

/-!
# Failures of a call

The taxonomy of failures: what a provider says in the body of an error goes before its status.
-/

namespace OctoForge
namespace Llm

def defaultErrorMessage : Text := "LLM request failed".toList

/-- `_CONTEXT_OVERFLOW_MARKERS`. -/
def contextOverflowMarkers : List Text :=
  ["context_length".toList, "context_overflow".toList, "context window".toList,
    "maximum context".toList, "too many tokens".toList]

/-- `_QUOTA_MARKERS`. -/
def quotaMarkers : List Text :=
  ["insufficient_quota".toList, "quota_exceeded".toList, "billing".toList]

-- `str.lower`, and `str` of a field that may be of any type.
variable (lower : Text → Text) (str : Json → Text)

/-- `_extract_error_fields`. -/
def extractErrorFields (body : Json) : Text × Text :=
  match body.member "error" with
  | some (.object error) =>
      ((((Json.field error "code").or (Json.field error "type")).map str).getD [],
        ((Json.field error "message").map str).getD [])
  | _ => ([], [])

/-- The kind that the markers in the body and the status tell. -/
def kindOf (text : Text) (status : Int) : ErrorKind :=
  if quotaMarkers.any fun marker => text.has marker then .quota
  else if contextOverflowMarkers.any fun marker => text.has marker then .contextOverflow
  else if status = 429 then .rateLimit
  else if status = 401 ∨ status = 403 then .auth
  else if status = 402 then .quota
  else if status ≥ 500 then .providerInternal
  else .client

/-- `classify_http_error`. -/
def classifyHttpError (status : Int) (body : Json) (retryAfter : Option Rat) : LLMError :=
  let (code, message) := extractErrorFields str body
  { kind := kindOf (lower (code ++ ' ' :: message)) status
    message :=
      if message.isEmpty then
        defaultErrorMessage ++ " (HTTP ".toList ++ Text.ofInt status ++ ")".toList
      else message
    retryAfter }

end Llm
end OctoForge
