import OctoForge.Text

/-!
# The contract of an endpoint

What a record says of one endpoint, once its document has been parsed.  Dictionaries are lists
of pairs; a name that occurs twice counts where it is found first.
-/

namespace OctoForge
namespace External

/-- `ParamKind`: what a parameter may carry, and how it is escaped. -/
inductive ParamKind where
  /-- One path segment: every reserved character is escaped, slashes included. -/
  | string
  /-- Several path segments: the slashes between them survive. -/
  | path
  /-- A hostname that the `hosts` of the record cover. -/
  | host
  deriving DecidableEq, Repr

def ParamKind.value : ParamKind → Text
  | .string => "string".toList
  | .path => "path".toList
  | .host => "host".toList

/-- `ToolParamSpec`. -/
structure ToolParamSpec where
  required : Bool
  kind : ParamKind := .string
  hosts : List Text := []
  deriving DecidableEq, Repr

/-- `FieldCoercion`. -/
inductive FieldCoercion where
  | string
  | number
  | boolean
  deriving DecidableEq, Repr

/-- `ResponseSpec`. -/
structure ResponseSpec where
  itemsPath : Option Text := none
  fields : List (String × FieldCoercion) := []
  deriving DecidableEq, Repr

/-- `PaginationKind`. -/
inductive PaginationKind where
  | page
  | offset
  | cursor
  deriving DecidableEq, Repr

/-- `PaginationSpec`. -/
structure PaginationSpec where
  kind : PaginationKind
  param : Text
  start : Int := 0
  cursorPath : Option Text := none
  totalPath : Option Text := none
  deriving DecidableEq, Repr

/-- `ToolSpec`; `auth`, when it is an object, is among the headers already. -/
structure ToolSpec where
  method : Text
  urlTemplate : Text
  params : List (Text × ToolParamSpec) := []
  bodyTemplate : Option Text := none
  headers : List (Text × Text) := []
  response : Option ResponseSpec := none
  pagination : Option PaginationSpec := none
  deriving DecidableEq, Repr

/-- The `response.items_path` of the record. -/
def ToolSpec.itemsPath (spec : ToolSpec) : Option Text := spec.response.bind (·.itemsPath)

/-- The `response.fields` of the record. -/
def ToolSpec.fields (spec : ToolSpec) : List (String × FieldCoercion) :=
  (spec.response.map (·.fields)).getD []

end External
end OctoForge
