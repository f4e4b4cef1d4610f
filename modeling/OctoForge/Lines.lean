import OctoForge.Text

/-!
# Lines

`str.splitlines` breaks a line at more characters than a protocol of lines does.  Where no line has
any of them, what has been joined is split into the same lines.
-/

namespace OctoForge
namespace Text

/-- The characters that `str.splitlines` breaks a line at. -/
def isLineBreak (c : Char) : Bool :=
  let n := c.toNat
  (10 ≤ n && n ≤ 13) || (28 ≤ n && n ≤ 30) || n == 0x85 || n == 0x2028 || n == 0x2029

/-- The lines of a text, when some characters of the first one have been read. -/
def linesFrom (line : Text) : Text → List Text
  | [] => if line.isEmpty then [] else [line]
  | '\r' :: '\n' :: rest => line :: linesFrom [] rest
  | c :: rest => if isLineBreak c then line :: linesFrom [] rest else linesFrom (line ++ [c]) rest

/-- `splitlines`. -/
def splitlines (t : Text) : List Text := linesFrom [] t

/-- How a line ends. -/
inductive LineEnd where
  | lf
  | crlf
  deriving DecidableEq, Repr

def LineEnd.text : LineEnd → Text
  | .lf => ['\n']
  | .crlf => ['\r', '\n']

/-- Some lines, each with its end. -/
def joinLines (lines : List (Text × LineEnd)) : Text :=
  lines.flatMap fun line => line.1 ++ line.2.text

/-- A text that is a single line. -/
def Unbroken (t : Text) : Prop := ∀ c ∈ t, isLineBreak c = false

instance (t : Text) : Decidable (Unbroken t) :=
  List.decidableBAll (fun c => isLineBreak c = false) t

variable {line rest t : Text}

theorem linesFrom_cons {c : Char} (hPlain : isLineBreak c = false) (line rest : Text) :
    linesFrom line (c :: rest) = linesFrom (line ++ [c]) rest := by
  rw [linesFrom]
  · rw [if_neg (by simp [hPlain])]
  · rintro more rfl
    exact absurd hPlain (by decide)

/-- A line goes on as long as nothing breaks it. -/
theorem linesFrom_append (hUnbroken : Unbroken t) (line rest : Text) :
    linesFrom line (t ++ rest) = linesFrom (line ++ t) rest := by
  induction t generalizing line with
  | nil => rw [List.nil_append, List.append_nil]
  | cons c t ih =>
      obtain ⟨hFirst, hRest⟩ := List.forall_mem_cons.mp hUnbroken
      rw [List.cons_append, linesFrom_cons hFirst, ih hRest, List.append_assoc,
        List.singleton_append]

theorem linesFrom_end (line : Text) (ending : LineEnd) (rest : Text) :
    linesFrom line (ending.text ++ rest) = line :: splitlines rest := by
  cases ending with
  | lf => rfl
  | crlf => rfl

theorem splitlines_line (hUnbroken : Unbroken line) (ending : LineEnd) (rest : Text) :
    splitlines (line ++ ending.text ++ rest) = line :: splitlines rest := by
  rw [List.append_assoc, splitlines, linesFrom_append hUnbroken, linesFrom_end, List.nil_append]

/-- What has been joined is split again. -/
theorem splitlines_joinLines {lines : List (Text × LineEnd)}
    (hUnbroken : ∀ line ∈ lines, Unbroken line.1) (rest : Text) :
    splitlines (joinLines lines ++ rest) = lines.map (·.1) ++ splitlines rest := by
  induction lines with
  | nil => rfl
  | cons line lines ih =>
      obtain ⟨hFirst, hRest⟩ := List.forall_mem_cons.mp hUnbroken
      rw [joinLines, List.flatMap_cons, List.append_assoc, splitlines_line hFirst]
      exact congrArg (line.1 :: ·) (ih hRest)

end Text
end OctoForge
