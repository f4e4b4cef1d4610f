import OctoForge.Sequence.Keyed
import OctoForge.Text

/-!
# Parsed JSON

What `json.loads` returns.  The members of an object are in the order of the text, and a
name that occurs twice counts where it is found first.
-/

namespace OctoForge

inductive Json where
  | null
  | bool (value : Bool)
  | number (value : Int)
  /-- A number that is a `float`, as Python writes it. -/
  | float (digits : Text)
  | string (value : String)
  | array (items : List Json)
  | object (members : List (String × Json))
  deriving Repr

namespace Json

/-- `dict.get`. -/
def lookup (members : List (String × Json)) (name : String) : Option Json :=
  (members.find? fun member => member.1 = name).map (·.2)

/-- A member of an object; other values have none. -/
def member (value : Json) (name : String) : Option Json :=
  match value with
  | .object members => lookup members name
  | _ => none

/-- The value at a dotted path that has been split at its dots. -/
def at? (value : Json) : (path : List String) → Option Json
  | [] => some value
  | name :: rest => (value.member name).bind fun inner => inner.at? rest

@[simp] theorem at?_nil (value : Json) : value.at? [] = some value := rfl

theorem at?_cons (value : Json) (name : String) (rest : List String) :
    value.at? (name :: rest) = (value.member name).bind fun inner => inner.at? rest := rfl

@[simp] theorem lookup_nil (name : String) : lookup [] name = none := rfl

theorem lookup_cons (member : String × Json) (members : List (String × Json)) (name : String) :
    lookup (member :: members) name =
      if member.1 = name then some member.2 else lookup members name := by
  by_cases hSame : member.1 = name <;> simp [lookup, hSame]

/-- Where no name occurs twice, what is found is the member of the name. -/
theorem lookup_eq_some {members : List (String × Json)} {name : String} {value : Json}
    (hNames : (members.map (·.1)).Nodup) :
    lookup members name = some value ↔ (name, value) ∈ members := by
  rw [lookup, Option.map_eq_some_iff]
  constructor
  · rintro ⟨⟨first, inner⟩, hFound, rfl⟩
    obtain ⟨hIn, rfl⟩ := (Sequence.find?_key_eq_some hNames).mp hFound
    exact hIn
  · intro hIn
    exact ⟨(name, value), (Sequence.find?_key_eq_some hNames).mpr ⟨hIn, rfl⟩, rfl⟩

/-- A value without members leads nowhere. -/
theorem at?_of_leaf {value found : Json} {path : List String}
    (hLeaf : ∀ members, value ≠ .object members) :
    value.at? path = some found ↔ path = [] ∧ found = value := by
  cases path with
  | nil => simp [eq_comm]
  | cons name rest =>
      have hNone : value.member name = none := by
        cases value with
        | object members => exact absurd rfl (hLeaf members)
        | _ => rfl
      rw [at?_cons, hNone]
      simp

/-! ## Printing -/

/-- A character of a string, as `json.dumps` writes it with `ensure_ascii=False`. -/
def escape (c : Char) : Text :=
  match c with
  | '"' => ['\\', '"']
  | '\\' => ['\\', '\\']
  | '\n' => ['\\', 'n']
  | '\r' => ['\\', 'r']
  | '\t' => ['\\', 't']
  | c =>
      if c.toNat = 8 then ['\\', 'b']
      else if c.toNat = 12 then ['\\', 'f']
      else if c.toNat < 32 then
        ['\\', 'u', '0', '0', Nat.digitChar (c.toNat / 16), Nat.digitChar (c.toNat % 16)]
      else [c]

def quoted (t : Text) : Text := ['"'] ++ t.flatMap escape ++ ['"']

mutual

/-- `json.dumps` with `ensure_ascii=False`. -/
def dumps : Json → Text
  | .null => "null".toList
  | .bool true => "true".toList
  | .bool false => "false".toList
  | .number value => Text.ofInt value
  | .float digits => digits
  | .string value => quoted value.toList
  | .array items => ['['] ++ dumpItems items ++ [']']
  | .object members => ['{'] ++ dumpMembers members ++ ['}']

def dumpItems : List Json → Text
  | [] => []
  | [item] => dumps item
  | item :: rest => dumps item ++ [',', ' '] ++ dumpItems rest

def dumpMembers : List (String × Json) → Text
  | [] => []
  | [(name, value)] => quoted name.toList ++ [':', ' '] ++ dumps value
  | (name, value) :: rest =>
      quoted name.toList ++ [':', ' '] ++ dumps value ++ [',', ' '] ++ dumpMembers rest

end

/-! ## Sorted keys -/

/-- A member goes before those that are not less. -/
def insertMember (member : String × Json) : List (String × Json) → List (String × Json)
  | [] => [member]
  | other :: rest =>
      if other.1.toList < member.1.toList then other :: insertMember member rest
      else member :: other :: rest

mutual

/-- The document as `json.dumps` meets it with `sort_keys=True`. -/
def sortKeys : Json → Json
  | .array items => .array (sortItems items)
  | .object members => .object (sortMembers members)
  | value => value

def sortItems : List Json → List Json
  | [] => []
  | item :: rest => sortKeys item :: sortItems rest

def sortMembers : List (String × Json) → List (String × Json)
  | [] => []
  | (name, value) :: rest => insertMember (name, sortKeys value) (sortMembers rest)

end

end Json
end OctoForge
