import OctoForge.Json
import OctoForge.Sequence.Dict

/-!
# Reading JSON

`json.loads`, as it is documented: strict, with the constants for floats that are no numbers, and
with the last value of a name that occurs twice.  How deep a document may be nested and how many
digits an integer may have is left out.
-/

namespace OctoForge
namespace Json

inductive LoadsError where
  /-- `JSONDecodeError`. -/
  | decode
  /-- Half of a surrogate pair, which is no character here. -/
  | surrogate
  /-- Never met, see `loads_ne_fuel`. -/
  | fuel
  deriving DecidableEq, Repr

def isSpace (c : Char) : Bool := c = ' ' || c = '\t' || c = '\n' || c = '\r'

def skip (t : Text) : Text := t.dropWhile isSpace

/-! ## Strings -/

def hexValue (c : Char) : Option Nat :=
  if c.isDigit then some (c.toNat - 48)
  else if 'a' ≤ c ∧ c ≤ 'f' then some (c.toNat - 87)
  else if 'A' ≤ c ∧ c ≤ 'F' then some (c.toNat - 55)
  else none

/-- `_decode_uXXXX`. -/
def decodeHex : Text → Option (Nat × Text)
  | a :: b :: c :: d :: rest => do
      let a ← hexValue a
      let b ← hexValue b
      let c ← hexValue c
      let d ← hexValue d
      return (((a * 16 + b) * 16 + c) * 16 + d, rest)
  | _ => none

abbrev IsHigh (n : Nat) : Prop := 0xD800 ≤ n ∧ n ≤ 0xDBFF

abbrev IsLow (n : Nat) : Prop := 0xDC00 ≤ n ∧ n ≤ 0xDFFF

def joinSurrogates (high low : Nat) : Nat := 0x10000 + ((high - 0xD800) * 0x400 + (low - 0xDC00))

/-- The second half of a pair. -/
def scanLow (high : Nat) (t : Text) : Except LoadsError (Char × Text) :=
  match t with
  | '\\' :: 'u' :: rest =>
      match decodeHex rest with
      | none => .error .decode
      | some (low, rest) =>
          if IsLow low then .ok (Char.ofNat (joinSurrogates high low), rest) else .error .surrogate
  | _ => .error .surrogate

/-- A code point in hexadecimal, or a pair of surrogates. -/
def scanCodePoint (t : Text) : Except LoadsError (Char × Text) :=
  match decodeHex t with
  | none => .error .decode
  | some (n, rest) =>
      if IsHigh n then scanLow n rest
      else if IsLow n then .error .surrogate
      else .ok (Char.ofNat n, rest)

/-- What follows a backslash. -/
def scanEscape : Text → Except LoadsError (Char × Text)
  | '"' :: rest => .ok ('"', rest)
  | '\\' :: rest => .ok ('\\', rest)
  | '/' :: rest => .ok ('/', rest)
  | 'b' :: rest => .ok (Char.ofNat 8, rest)
  | 'f' :: rest => .ok (Char.ofNat 12, rest)
  | 'n' :: rest => .ok ('\n', rest)
  | 'r' :: rest => .ok ('\r', rest)
  | 't' :: rest => .ok ('\t', rest)
  | 'u' :: rest => scanCodePoint rest
  | _ => .error .decode

/-- `scanstring`, behind the opening quote. -/
def scanString : Nat → Text → Except LoadsError (Text × Text)
  | 0, _ => .error .fuel
  | _ + 1, [] => .error .decode
  | n + 1, c :: rest =>
      if c = '"' then .ok ([], rest)
      else if c = '\\' then do
        let (d, rest) ← scanEscape rest
        let (t, rest) ← scanString n rest
        return (d :: t, rest)
      else if c.toNat < 32 then .error .decode
      else do
        let (t, rest) ← scanString n rest
        return (c :: t, rest)

/-! ## Numbers -/

/-- Some digits, or nothing. -/
def takeDigits (t : Text) : Text × Text := (t.takeWhile Char.isDigit, t.dropWhile Char.isDigit)

/-- `0|[1-9][0-9]*`. -/
def scanNatural (t : Text) : Option (Text × Text) :=
  match t with
  | [] => none
  | c :: rest =>
      if c = '0' then some (['0'], rest)
      else if c.isDigit then some (c :: (takeDigits rest).1, (takeDigits rest).2)
      else none

/-- `-?(?:0|[1-9][0-9]*)`. -/
def scanInteger (t : Text) : Option (Text × Text) :=
  match t with
  | '-' :: rest => (scanNatural rest).map fun found => ('-' :: found.1, found.2)
  | t => scanNatural t

/-- `(\.[0-9]+)?`. -/
def scanFraction (t : Text) : Text × Text :=
  match t with
  | '.' :: rest =>
      if (takeDigits rest).1.isEmpty then ([], t)
      else ('.' :: (takeDigits rest).1, (takeDigits rest).2)
  | _ => ([], t)

/-- `[-+]?`. -/
def scanSign (t : Text) : Text × Text :=
  match t with
  | '-' :: rest => (['-'], rest)
  | '+' :: rest => (['+'], rest)
  | _ => ([], t)

/-- `([eE][-+]?[0-9]+)?`. -/
def scanExponent (t : Text) : Text × Text :=
  match t with
  | [] => ([], t)
  | e :: rest =>
      if e = 'e' ∨ e = 'E' then
        if (takeDigits (scanSign rest).2).1.isEmpty then ([], t)
        else (e :: (scanSign rest).1 ++ (takeDigits (scanSign rest).2).1,
          (takeDigits (scanSign rest).2).2)
      else ([], t)

section Floats

-- What is written for the float that some digits are read as.
variable (reprFloat : Text → Text)

/-- `match_number`, with `parse_int` and `parse_float`. -/
def scanNumber (t : Text) : Option (Json × Text) :=
  (scanInteger t).map fun (integer, rest) =>
    let (fraction, rest) := scanFraction rest
    let (exponent, rest) := scanExponent rest
    if fraction.isEmpty && exponent.isEmpty then (.number ((Text.readInt? integer).getD 0), rest)
    else (.float (reprFloat (integer ++ fraction ++ exponent)), rest)

/-! ## Values -/

/-- A value that is one word, and its word. -/
abbrev Word := Text × Json

def literals : List Word :=
  [("null".toList, .null), ("true".toList, .bool true), ("false".toList, .bool false)]

def constants : List Word :=
  [("NaN".toList, .float "NaN".toList), ("Infinity".toList, .float "Infinity".toList),
    ("-Infinity".toList, .float "-Infinity".toList)]

def scanWord (words : List Word) (t : Text) : Option (Json × Text) :=
  (words.find? fun word => word.1.isPrefixOf t).map fun word => (word.2, t.drop word.1.length)

/-- A value that is no string, no array and no object. -/
def scanPlain (t : Text) : Except LoadsError (Json × Text) :=
  match (scanWord literals t).or ((scanNumber reprFloat t).or (scanWord constants t)) with
  | some found => .ok found
  | none => .error .decode

mutual

/-- `scan_once`. -/
def scanValue : Nat → Text → Except LoadsError (Json × Text)
  | 0, _ => .error .fuel
  | _ + 1, [] => .error .decode
  | n + 1, c :: rest =>
      if c = '"' then
        (scanString n rest).map fun found => (.string (String.ofList found.1), found.2)
      else if c = '{' then
        match skip rest with
        | '}' :: rest => .ok (.object [], rest)
        | rest => (scanMembers n rest).map fun found => (.object (Dict.ofPairs found.1), found.2)
      else if c = '[' then
        match skip rest with
        | ']' :: rest => .ok (.array [], rest)
        | rest => (scanItems n rest).map fun found => (.array found.1, found.2)
      else scanPlain reprFloat (c :: rest)

/-- The items of an array, up to its end. -/
def scanItems : Nat → Text → Except LoadsError (List Json × Text)
  | 0, _ => .error .fuel
  | n + 1, t => do
      let (item, rest) ← scanValue n t
      match skip rest with
      | ']' :: rest => return ([item], rest)
      | ',' :: rest =>
          let (items, rest) ← scanItems n (skip rest)
          return (item :: items, rest)
      | _ => .error .decode

/-- The members of an object, up to its end. -/
def scanMembers : Nat → Text → Except LoadsError (List (String × Json) × Text)
  | 0, _ => .error .fuel
  | n + 1, '"' :: rest => do
      let (name, rest) ← scanString n rest
      match skip rest with
      | ':' :: rest =>
          let (value, rest) ← scanValue n (skip rest)
          match skip rest with
          | '}' :: rest => return ([(String.ofList name, value)], rest)
          | ',' :: rest =>
              let (members, rest) ← scanMembers n (skip rest)
              return ((String.ofList name, value) :: members, rest)
          | _ => .error .decode
      | _ => .error .decode
  | _ + 1, _ => .error .decode

end

/-- `json.loads`. -/
def loads (t : Text) : Except LoadsError Json := do
  if t.head? = some '\uFEFF' then .error .decode
  else
    let (value, rest) ← scanValue reprFloat (2 * t.length + 1) (skip t)
    if (skip rest).isEmpty then return value else .error .decode

end Floats

/-! ## Printing in ASCII -/

def hexDigits (n : Nat) : Text :=
  [Nat.digitChar (n / 4096), Nat.digitChar (n / 256 % 16), Nat.digitChar (n / 16 % 16),
    Nat.digitChar (n % 16)]

/-- `\uXXXX`. -/
def unicodeEscape (n : Nat) : Text := '\\' :: 'u' :: hexDigits n

/-- What `ensure_ascii` makes of a character: two escapes beyond the basic plane. -/
def asciiOf (c : Char) : Text :=
  if c.toNat < 127 then [c]
  else if c.toNat < 0x10000 then unicodeEscape c.toNat
  else
    unicodeEscape (0xD800 + (c.toNat - 0x10000) / 0x400) ++
      unicodeEscape (0xDC00 + (c.toNat - 0x10000) % 0x400)

/-- `json.dumps`: outside of strings there is nothing but ASCII. -/
def dumpsAscii (value : Json) : Text := value.dumps.flatMap asciiOf

end Json
end OctoForge
