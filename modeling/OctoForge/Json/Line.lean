import OctoForge.Json.RoundTrip
import OctoForge.Lines

/-!
# Documents in one line

Protocols of lines carry a document in a line of its own.
-/

namespace OctoForge
namespace Json

open Text (Unbroken)

/-- The document is printed in one line, and can be read there. -/
structure InLine (print : Json → Text) (reprFloat : Text → Text) (document : Json) : Prop where
  unbroken : Unbroken (print document)
  read : loads reprFloat (Text.strip (print document)) = .ok document

variable {reprFloat : Text → Text}

/-- What is printed in ASCII is such a line. -/
theorem inLine_dumpsAscii {members : List (String × Json)}
    (hProper : Proper reprFloat (.object members)) :
    InLine dumpsAscii reprFloat (.object members) where
  unbroken c hMem := by
    obtain ⟨hPrinted, hAscii⟩ := printed_dumpsAscii hProper c hMem
    simp only [Text.isLineBreak, Bool.or_eq_false_iff, Bool.and_eq_false_iff,
      decide_eq_false_iff_not, beq_eq_false_iff_ne]
    omega
  read := by
    have hText : (Json.object members).dumpsAscii =
        '{' :: (dumpMembers members).flatMap asciiOf ++ ['}'] := by
      have hCode := code_object transparent_asciiOf members []
      rwa [List.append_nil] at hCode
    have hStrip : Text.strip (Json.object members).dumpsAscii =
        (Json.object members).dumpsAscii := by
      rw [hText]
      exact List.rdropWhile_concat_neg Text.isSpace
        ('{' :: (dumpMembers members).flatMap asciiOf) '}' (by decide)
    rw [hStrip, loads_dumpsAscii hProper]

end Json
end OctoForge
