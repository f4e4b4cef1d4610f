import OctoForge.Fallible
import OctoForge.Format

/-!
# Placeholders

What a format string is filled to, said of its text: a brace that is doubled is one brace, a
placeholder is its value, and every other character is itself.  Only placeholders that ask for no
formatting are spoken of.
-/

namespace OctoForge
namespace Format

/-- The name of a field.  What is between square brackets is not looked at. -/
inductive FieldName : Text → Prop
  | nil : FieldName []
  | char {c : Char} {rest : Text} (hPlain : c ∉ ['{', '}', '[', ':', '!']) (hRest : FieldName rest) :
      FieldName (c :: rest)
  | index {inner rest : Text} (hInner : ']' ∉ inner) (hRest : FieldName rest) :
      FieldName ('[' :: (inner ++ ']' :: rest))

/-- What may be between the name of a field and the brace that closes it, when it asks for no
formatting. -/
inductive FieldEnd : Text → Prop
  | nil : FieldEnd []
  | spec : FieldEnd [':']
  | conversion {c : Char} (hNone : Reading.conversion? c = none) : FieldEnd ['!', c]
  | both {c : Char} (hNone : Reading.conversion? c = none) : FieldEnd ['!', c, ':']

/-- The template with a value in the place of each placeholder; values are not read. -/
inductive Renders (Value : Text → Text → Prop) : Text → Text → Prop
  | nil : Renders Value [] []
  | char {c : Char} {t rendered : Text} (hPlain : c ≠ '{' ∧ c ≠ '}')
      (hRest : Renders Value t rendered) : Renders Value (c :: t) (c :: rendered)
  | doubled {c : Char} {t rendered : Text} (hBrace : c = '{' ∨ c = '}')
      (hRest : Renders Value t rendered) : Renders Value (c :: c :: t) (c :: rendered)
  | field {name ending value t rendered : Text} (hName : FieldName name) (hEnd : FieldEnd ending)
      (hValue : Value name value) (hRest : Renders Value t rendered) :
      Renders Value ('{' :: (name ++ ending ++ '}' :: t)) (value ++ rendered)

/-- A field that asks for no formatting. -/
structure Field.Verbatim (field : Field) : Prop where
  spec : field.spec = []
  conversion : field.conversion = none

/-! ## The first piece -/

variable {t : Text} {pieces : List Piece}

namespace Reading

variable {reading next : Reading} {c : Char}

theorem run_none (hStep : reading.step c = .ok (none, next)) (rest : Text) :
    reading.run (c :: rest) = next.run rest := by
  rw [run_cons, hStep]
  change (next.run rest).map ([] ++ ·) = _
  cases next.run rest <;> rfl

theorem run_some {piece : Piece} (hStep : reading.step c = .ok (some piece, text []))
    (rest : Text) : reading.run (c :: rest) = (parse rest).map (piece :: ·) := by
  rw [run_cons, hStep]
  rfl

theorem run_nil (reading : Reading) : reading.run [] = reading.atEnd := by
  simp only [run, scan, bind, Except.bind]
  cases reading.atEnd <;> rfl

end Reading

/-- The text that closes a field, and what is after it. -/
def Closes (t : Text) (pieces : List Piece) (Spelled : Field → Text → Prop) : Prop :=
  ∃ body rest field others, t = body ++ '}' :: rest ∧ parse rest = .ok others ∧
    pieces = ⟨[], some field⟩ :: others ∧ Spelled field body

theorem Closes.cons {c : Char} {Spelled Longer : Field → Text → Prop}
    (hCloses : Closes t pieces Spelled)
    (hLonger : ∀ field body, Spelled field body → Longer field (c :: body)) :
    Closes (c :: t) pieces Longer := by
  obtain ⟨body, rest, field, others, rfl, hRest, rfl, hSpelled⟩ := hCloses
  exact ⟨c :: body, rest, field, others, rfl, hRest, rfl, hLonger field body hSpelled⟩

/-- The brace that closes a field. -/
theorem closes_brace {reading : Reading} {field : Field} {Spelled : Field → Text → Prop}
    (hStep : reading.step '}' = .ok (some ⟨[], some field⟩, .text []))
    (hRun : reading.run ('}' :: t) = .ok pieces) (hSpelled : Spelled field []) :
    Closes ('}' :: t) pieces Spelled := by
  rw [Reading.run_some hStep] at hRun
  obtain ⟨others, hOthers, rfl⟩ := Fallible.map_eq_ok.mp hRun
  exact ⟨[], t, field, others, rfl, hOthers, rfl, hSpelled⟩

namespace Reading

theorem closes_spec (name s : Text) (found : Option Char) (depth : Nat)
    (hRun : (spec [] name found s depth).run t = .ok pieces) :
    Closes t pieces fun field body => field.name = name ∧ field.conversion = found ∧
      (field.spec = [] → body = [] ∧ s = []) := by
  -- A spec with a character in it is not the empty one.
  have hLonger : ∀ (c : Char) (before : Text) (field : Field) (body : Text),
      (field.name = name ∧ field.conversion = found ∧
        (field.spec = [] → body = [] ∧ before ++ [c] = [])) →
      field.name = name ∧ field.conversion = found ∧
        (field.spec = [] → c :: body = [] ∧ before = []) := by
    rintro c before field body ⟨hName, hFound, hSpec⟩
    exact ⟨hName, hFound, fun hNone => absurd (hSpec hNone).2 (by simp)⟩
  induction t generalizing s depth with
  | nil =>
      rw [run_nil] at hRun
      cases hRun
  | cons c rest ih =>
      by_cases hOpen : c = '{'
      · have hStep : (spec [] name found s depth).step c =
            .ok (none, spec [] name found (s ++ [c]) (depth + 1)) := by rw [step, if_pos hOpen]
        rw [run_none hStep] at hRun
        exact (ih _ _ hRun).cons (hLonger _ s)
      · by_cases hClose : c = '}'
        · subst hClose
          -- A brace closes the placeholder only where no nested one is open.
          by_cases hLast : depth ≤ 1
          · have hStep : (spec [] name found s depth).step '}' =
                .ok (some ⟨[], some ⟨name, s, found⟩⟩, text []) := by
              rw [step, if_neg (by decide), if_pos rfl, if_pos hLast]
            exact closes_brace hStep hRun ⟨rfl, rfl, fun hNone => ⟨rfl, hNone⟩⟩
          · have hStep : (spec [] name found s depth).step '}' =
                .ok (none, spec [] name found (s ++ ['}']) (depth - 1)) := by
              rw [step, if_neg (by decide), if_pos rfl, if_neg hLast]
            rw [run_none hStep] at hRun
            exact (ih _ _ hRun).cons (hLonger _ s)
        · have hStep : (spec [] name found s depth).step c =
              .ok (none, spec [] name found (s ++ [c]) depth) := by
            rw [step, if_neg hOpen, if_neg hClose]
          rw [run_none hStep] at hRun
          exact (ih _ _ hRun).cons (hLonger _ s)

/-- What follows an exclamation mark. -/
theorem closes_conversion (name : Text) (hRun : (conversion [] name).run t = .ok pieces) :
    Closes t pieces fun field body => field.name = name ∧
      (field.Verbatim → FieldEnd ('!' :: body)) := by
  cases t with
  | nil =>
      rw [run_nil] at hRun
      cases hRun
  | cons found rest =>
      have hFirst : (conversion [] name).step found = .ok (none, converted [] name found) := rfl
      rw [run_none hFirst] at hRun
      -- Behind the one character of a conversion stands the end of the placeholder or a colon.
      have hRest : Closes rest pieces fun field body => field.name = name ∧
          (field.Verbatim → FieldEnd ('!' :: found :: body)) := by
        cases rest with
        | nil =>
            rw [run_nil] at hRun
            cases hRun
        | cons c rest =>
            by_cases hClose : c = '}'
            · subst hClose
              have hStep : (converted [] name found).step '}' = .ok (some ⟨[], some
                  { name := name, conversion := conversion? found }⟩, text []) := rfl
              exact closes_brace hStep hRun ⟨rfl, fun hPlain => .conversion hPlain.conversion⟩
            · by_cases hColon : c = ':'
              · subst hColon
                have hStep : (converted [] name found).step ':' =
                    .ok (none, spec [] name (conversion? found) [] 1) := rfl
                rw [run_none hStep] at hRun
                refine (closes_spec name [] _ 1 hRun).cons fun field body hSpelled => ?_
                obtain ⟨hName, hFound, hSpec⟩ := hSpelled
                refine ⟨hName, fun hPlain => ?_⟩
                rw [(hSpec hPlain.spec).1]
                exact .both (hFound.symm.trans hPlain.conversion)
              · rw [run_cons, step, if_neg hClose, if_neg hColon] at hRun
                cases hRun
      exact hRest.cons fun field body hSpelled => hSpelled

/-- The rest of a name, and of an index in it. -/
theorem closes_name : (∀ before, (name [] before).run t = .ok pieces →
      Closes t pieces fun field body => field.Verbatim →
        ∃ suffix ending, FieldName suffix ∧ FieldEnd ending ∧ field.name = before ++ suffix ∧
          body = suffix ++ ending) ∧
    ∀ before, (index [] before).run t = .ok pieces →
      Closes t pieces fun field body => field.Verbatim →
        ∃ inner suffix ending, ']' ∉ inner ∧ FieldName suffix ∧ FieldEnd ending ∧
          field.name = before ++ (inner ++ ']' :: suffix) ∧
            body = inner ++ ']' :: suffix ++ ending := by
  -- Both at once: a bracket opens an index, and its end goes on with the name.
  induction t with
  | nil =>
      refine ⟨fun before hRun => ?_, fun before hRun => ?_⟩
      · rw [run_nil] at hRun
        cases hRun
      · rw [run_nil] at hRun
        cases hRun
  | cons c rest ih =>
      obtain ⟨ihName, ihIndex⟩ := ih
      refine ⟨fun before hRun => ?_, fun before hRun => ?_⟩
      · by_cases hOpen : c = '{'
        · rw [run_cons, step, stepName, if_pos hOpen] at hRun
          cases hRun
        · by_cases hBracket : c = '['
          · subst hBracket
            have hStep : (name [] before).step '[' = .ok (none, index [] (before ++ ['['])) := rfl
            rw [run_none hStep] at hRun
            refine (ihIndex _ hRun).cons fun field body hSpelled hPlain => ?_
            obtain ⟨inner, suffix, ending, hInner, hName, hEnd, hField, rfl⟩ := hSpelled hPlain
            exact ⟨_, ending, .index hInner hName, hEnd, by simp [hField], by simp⟩
          · by_cases hClose : c = '}'
            · subst hClose
              have hStep : (name [] before).step '}' =
                  .ok (some ⟨[], some { name := before }⟩, text []) := rfl
              exact closes_brace hStep hRun fun _ => ⟨[], [], .nil, .nil, by simp, rfl⟩
            · by_cases hColon : c = ':'
              · subst hColon
                have hStep : (name [] before).step ':' =
                    .ok (none, spec [] before none [] 1) := rfl
                rw [run_none hStep] at hRun
                refine (closes_spec before [] none 1 hRun).cons fun field body hSpelled hPlain => ?_
                obtain ⟨hField, -, hSpec⟩ := hSpelled
                exact ⟨[], [':'], .nil, .spec, by simp [hField], by simp [(hSpec hPlain.spec).1]⟩
              · by_cases hMark : c = '!'
                · subst hMark
                  have hStep : (name [] before).step '!' = .ok (none, conversion [] before) := rfl
                  rw [run_none hStep] at hRun
                  refine (closes_conversion before hRun).cons fun field body hSpelled hPlain => ?_
                  exact ⟨[], _, .nil, hSpelled.2 hPlain, by simp [hSpelled.1], rfl⟩
                · have hStep : (name [] before).step c = .ok (none, name [] (before ++ [c])) := by
                    rw [step, stepName, if_neg hOpen, if_neg hBracket, if_neg hClose,
                      if_neg hColon, if_neg hMark]
                  rw [run_none hStep] at hRun
                  refine (ihName _ hRun).cons fun field body hSpelled hPlain => ?_
                  obtain ⟨suffix, ending, hName, hEnd, hField, rfl⟩ := hSpelled hPlain
                  exact ⟨c :: suffix, ending, .char (by simp [*]) hName, hEnd, by simp [hField], rfl⟩
      · by_cases hBracket : c = ']'
        · subst hBracket
          have hStep : (index [] before).step ']' = .ok (none, name [] (before ++ [']'])) := rfl
          rw [run_none hStep] at hRun
          refine (ihName _ hRun).cons fun field body hSpelled hPlain => ?_
          obtain ⟨suffix, ending, hName, hEnd, hField, rfl⟩ := hSpelled hPlain
          exact ⟨[], suffix, ending, by simp, hName, hEnd, by simp [hField], by simp⟩
        · have hStep : (index [] before).step c = .ok (none, index [] (before ++ [c])) := by
            rw [step, if_neg hBracket]
          rw [run_none hStep] at hRun
          refine (ihIndex _ hRun).cons fun field body hSpelled hPlain => ?_
          obtain ⟨inner, suffix, ending, hInner, hName, hEnd, hField, rfl⟩ := hSpelled hPlain
          exact ⟨c :: inner, suffix, ending, by simp [hInner, Ne.symm hBracket], hName, hEnd,
            by simp [hField], by simp⟩

end Reading

/-- A field that is not formatted, as it is written. -/
def Spelled (field : Field) (body : Text) : Prop :=
  field.Verbatim → ∃ ending, FieldName field.name ∧ FieldEnd ending ∧ body = field.name ++ ending

/-- The first character of a format string, the brace that it doubles or the placeholder that it
opens, and the pieces of the rest. -/
theorem parse_cons {c : Char} (hParse : parse (c :: t) = .ok pieces) :
    ((c ≠ '{' ∧ c ≠ '}') ∧ ∃ others, parse t = .ok others ∧ pieces = prepend [c] others) ∨
      ((c = '{' ∨ c = '}') ∧ ∃ rest others, t = c :: rest ∧ parse rest = .ok others ∧
        pieces = ⟨[c], none⟩ :: others) ∨
      (c = '{' ∧ Closes t pieces Spelled) := by
  rw [parse] at hParse
  by_cases hOpen : c = '{'
  · subst hOpen
    have hFirst : (Reading.text []).step '{' = .ok (none, .opened []) := rfl
    rw [Reading.run_none hFirst] at hParse
    cases t with
    | nil =>
        rw [Reading.run_nil] at hParse
        cases hParse
    | cons d rest =>
        by_cases hDoubled : d = '{'
        · subst hDoubled
          have hSecond : (Reading.opened []).step '{' = .ok (some ⟨['{'], none⟩, .text []) := rfl
          rw [Reading.run_some hSecond] at hParse
          obtain ⟨others, hOthers, rfl⟩ := Fallible.map_eq_ok.mp hParse
          exact .inr (.inl ⟨.inl rfl, rest, others, rfl, hOthers, rfl⟩)
        · -- The brace opens a placeholder.
          have hName : (Reading.opened []).run (d :: rest) = (Reading.name [] []).run (d :: rest) := by
            rw [Reading.run_cons, Reading.run_cons, Reading.step, if_neg hDoubled]
            rfl
          rw [hName] at hParse
          obtain ⟨body, rest, field, others, hText, hRest, hPieces, hBody⟩ :=
            Reading.closes_name.1 [] hParse
          refine .inr (.inr ⟨rfl, body, rest, field, others, hText, hRest, hPieces, fun hPlain => ?_⟩)
          obtain ⟨suffix, ending, hName, hEnd, hField, rfl⟩ := hBody hPlain
          obtain rfl : field.name = suffix := hField
          exact ⟨ending, hName, hEnd, rfl⟩
  · by_cases hClose : c = '}'
    · subst hClose
      have hFirst : (Reading.text []).step '}' = .ok (none, .closed []) := rfl
      rw [Reading.run_none hFirst] at hParse
      cases t with
      | nil =>
          rw [Reading.run_nil] at hParse
          cases hParse
      | cons d rest =>
          by_cases hDoubled : d = '}'
          · subst hDoubled
            have hSecond : (Reading.closed []).step '}' = .ok (some ⟨['}'], none⟩, .text []) := rfl
            rw [Reading.run_some hSecond] at hParse
            obtain ⟨others, hOthers, rfl⟩ := Fallible.map_eq_ok.mp hParse
            exact .inr (.inl ⟨.inr rfl, rest, others, rfl, hOthers, rfl⟩)
          · -- A brace that closes nothing is an error.
            rw [Reading.run_cons, Reading.step, if_neg hDoubled] at hParse
            cases hParse
    · have hFirst : (Reading.text []).step c = .ok (none, (Reading.text []).after [c]) := by
        rw [Reading.step, if_neg hOpen, if_neg hClose]
        rfl
      rw [Reading.run_none hFirst, Reading.run_after] at hParse
      obtain ⟨others, hOthers, rfl⟩ := Fallible.map_eq_ok.mp hParse
      exact .inl ⟨⟨hOpen, hClose⟩, others, hOthers, rfl⟩

/-! ## What a format string is filled to -/

variable {Value Other : Text → Text → Prop} {values : Text → Option Text} {rendered : Text}

theorem Renders.mono (hRenders : Renders Value t rendered)
    (hValue : ∀ name value, Value name value → Other name value) : Renders Other t rendered := by
  induction hRenders with
  | nil => exact .nil
  | char hPlain _ ih => exact .char hPlain ih
  | doubled hBrace _ ih => exact .doubled hBrace ih
  | field hName hEnd hHere _ ih => exact .field hName hEnd (hValue _ _ hHere) ih

/-- What the values of the fields of some pieces are. -/
def FieldValue (pieces : List Piece) (values : Text → Option Text) (name value : Text) : Prop :=
  (∃ field ∈ fields pieces, field.name = name) ∧ values name = some value

/-- A format string with nothing but verbatim placeholders is filled to what it says. -/
theorem renders_of_fill (hParse : parse t = .ok pieces)
    (hPlain : ∀ field ∈ fields pieces, field.Verbatim)
    (hFill : fill values pieces = some rendered) :
    Renders (FieldValue pieces values) t rendered := by
  -- By the length, since a placeholder takes many characters at once.
  induction hLength : t.length using Nat.strong_induction_on generalizing t pieces rendered with
  | _ n ih =>
      cases t with
      | nil =>
          obtain rfl : [] = pieces := Except.ok.inj hParse
          obtain rfl := Option.some.inj hFill
          exact .nil
      | cons c t =>
          rw [List.length_cons] at hLength
          rcases parse_cons hParse with ⟨hChar, others, hRest, rfl⟩ |
            ⟨hBrace, rest, others, rfl, hRest, rfl⟩ |
            ⟨rfl, body, rest, field, others, rfl, hRest, rfl, hSpelled⟩
          · rw [fields_prepend] at hPlain
            rw [fill_prepend] at hFill
            obtain ⟨after, hAfter, rfl⟩ := Option.map_eq_some_iff.mp hFill
            have hRenders := ih _ (by omega) hRest hPlain hAfter rfl
            refine .char hChar (hRenders.mono fun name value hValue => ?_)
            rwa [FieldValue, fields_prepend]
          · rw [fill_cons] at hFill
            obtain ⟨here, hHere, hFill⟩ := Option.bind_eq_some_iff.mp hFill
            obtain ⟨after, hAfter, rfl⟩ := Option.map_eq_some_iff.mp hFill
            obtain rfl := Option.some.inj hHere
            rw [List.length_cons] at hLength
            have hFields : fields (⟨[c], none⟩ :: others) = fields others := rfl
            rw [hFields] at hPlain
            have hRenders := ih _ (by omega) hRest hPlain hAfter rfl
            exact .doubled hBrace hRenders
          · rw [fill_cons] at hFill
            obtain ⟨here, hHere, hFill⟩ := Option.bind_eq_some_iff.mp hFill
            obtain ⟨after, hAfter, rfl⟩ := Option.map_eq_some_iff.mp hFill
            obtain ⟨value, hValue, rfl⟩ := Option.map_eq_some_iff.mp hHere
            have hFields : fields (⟨[], some field⟩ :: others) = field :: fields others := rfl
            rw [hFields] at hPlain
            obtain ⟨ending, hName, hEnd, rfl⟩ := hSpelled (hPlain field List.mem_cons_self)
            rw [List.length_append, List.length_cons] at hLength
            have hRenders := ih _ (by omega) hRest
              (fun other hOther => hPlain other (List.mem_cons_of_mem _ hOther)) hAfter rfl
            refine .field hName hEnd ⟨⟨field, List.mem_cons_self, rfl⟩, hValue⟩
              (hRenders.mono fun name value hValue => ?_)
            obtain ⟨⟨other, hOther, hSame⟩, hValue⟩ := hValue
            exact ⟨⟨other, List.mem_cons_of_mem _ hOther, hSame⟩, hValue⟩

/-- Pieces whose fields all have values can be filled. -/
theorem exists_fill (hValues : ∀ field ∈ fields pieces, ∃ value, values field.name = some value) :
    ∃ rendered, fill values pieces = some rendered := by
  induction pieces with
  | nil => exact ⟨[], rfl⟩
  | cons piece rest ih =>
      obtain ⟨literal, field⟩ := piece
      cases field with
      | none =>
          obtain ⟨rendered, hFill⟩ := ih hValues
          exact ⟨literal ++ rendered, by rw [fill_cons, hFill]; rfl⟩
      | some field =>
          obtain ⟨value, hValue⟩ := hValues field List.mem_cons_self
          obtain ⟨rendered, hFill⟩ := ih fun other hOther =>
            hValues other (List.mem_cons_of_mem _ hOther)
          refine ⟨literal ++ value ++ rendered, ?_⟩
          rw [fill_cons, hFill]
          simp only [Piece.fill, hValue, Option.map_some, Option.bind_some]

/-! ## A format string says one thing -/

theorem parse_doubled {c : Char} (hBrace : c = '{' ∨ c = '}') (t : Text) :
    parse (c :: c :: t) = (parse t).map (⟨[c], none⟩ :: ·) := by
  rcases hBrace with rfl | rfl
  · have hFirst : (Reading.text []).step '{' = .ok (none, .opened []) := rfl
    have hSecond : (Reading.opened []).step '{' = .ok (some ⟨['{'], none⟩, .text []) := rfl
    rw [parse, Reading.run_none hFirst, Reading.run_some hSecond]
  · have hFirst : (Reading.text []).step '}' = .ok (none, .closed []) := rfl
    have hSecond : (Reading.closed []).step '}' = .ok (some ⟨['}'], none⟩, .text []) := rfl
    rw [parse, Reading.run_none hFirst, Reading.run_some hSecond]

namespace Reading

theorem run_index {inner : Text} (hInner : ']' ∉ inner) (before t : Text) :
    (index [] before).run (inner ++ ']' :: t) = (name [] (before ++ (inner ++ [']']))).run t := by
  induction inner generalizing before with
  | nil =>
      have hStep : (index [] before).step ']' = .ok (none, name [] (before ++ [']'])) := rfl
      rw [List.nil_append, run_none hStep, List.nil_append]
  | cons c inner ih =>
      rw [List.mem_cons, not_or] at hInner
      have hStep : (index [] before).step c = .ok (none, index [] (before ++ [c])) := by
        rw [step, if_neg (Ne.symm hInner.1)]
      rw [List.cons_append, run_none hStep, ih hInner.2]
      simp

theorem run_ending {ending : Text} (hEnd : FieldEnd ending) (before t : Text) :
    (name [] before).run (ending ++ '}' :: t) =
      (parse t).map (⟨[], some { name := before }⟩ :: ·) := by
  have hColon : (name [] before).step ':' = .ok (none, spec [] before none [] 1) := rfl
  have hMark : (name [] before).step '!' = .ok (none, conversion [] before) := rfl
  have hFound : ∀ c, (conversion [] before).step c = .ok (none, converted [] before c) :=
    fun _ => rfl
  cases hEnd with
  | nil => exact run_some rfl t
  | spec =>
      rw [List.singleton_append, run_none hColon]
      exact run_some rfl t
  | @conversion c hNone =>
      have hClose : (converted [] before c).step '}' =
          .ok (some ⟨[], some { name := before }⟩, text []) := by
        rw [step, if_pos rfl, hNone]
      rw [List.cons_append, run_none hMark, List.singleton_append, run_none (hFound c),
        run_some hClose]
  | @both c hNone =>
      have hSpec : (converted [] before c).step ':' = .ok (none, spec [] before none [] 1) := by
        rw [step, if_neg (by decide), if_pos rfl, hNone]
      rw [List.cons_append, run_none hMark, List.cons_append, run_none (hFound c),
        List.singleton_append, run_none hSpec]
      exact run_some rfl t

theorem run_field {suffix ending : Text} (hName : FieldName suffix) (hEnd : FieldEnd ending)
    (before t : Text) : (name [] before).run (suffix ++ ending ++ '}' :: t) =
      (parse t).map (⟨[], some { name := before ++ suffix }⟩ :: ·) := by
  induction hName generalizing before with
  | nil => rw [List.nil_append, List.append_nil, run_ending hEnd]
  | @char c rest hPlain _ ih =>
      simp only [List.mem_cons, List.not_mem_nil, or_false, not_or] at hPlain
      obtain ⟨hOpen, hClose, hBracket, hColon, hMark⟩ := hPlain
      have hStep : (name [] before).step c = .ok (none, name [] (before ++ [c])) := by
        rw [step, stepName, if_neg hOpen, if_neg hBracket, if_neg hClose, if_neg hColon,
          if_neg hMark]
      rw [List.cons_append, List.cons_append, run_none hStep, ih]
      simp
  | @index inner rest hInner _ ih =>
      have hStep : (name [] before).step '[' = .ok (none, index [] (before ++ ['['])) := rfl
      have hText : '[' :: (inner ++ ']' :: rest) ++ ending ++ '}' :: t =
          '[' :: (inner ++ ']' :: (rest ++ ending ++ '}' :: t)) := by simp
      rw [hText, run_none hStep, run_index hInner, ih]
      simp

end Reading

/-- What opens a placeholder is not a doubled brace. -/
theorem head_ne_brace {name ending : Text} (hName : FieldName name) (hEnd : FieldEnd ending)
    (t : Text) : ∃ c rest, name ++ ending ++ '}' :: t = c :: rest ∧ c ≠ '{' := by
  cases hName with
  | nil => cases hEnd <;> exact ⟨_, _, rfl, by decide⟩
  | @char c rest hPlain _ => exact ⟨c, _, rfl, fun hSame => hPlain (by simp [hSame])⟩
  | index _ _ => exact ⟨_, _, rfl, by decide⟩

theorem parse_field {name ending : Text} (hName : FieldName name) (hEnd : FieldEnd ending)
    (t : Text) : parse ('{' :: (name ++ ending ++ '}' :: t)) =
      (parse t).map (⟨[], some { name := name }⟩ :: ·) := by
  have hFirst : (Reading.text []).step '{' = .ok (none, .opened []) := rfl
  obtain ⟨c, rest, hText, hOther⟩ := head_ne_brace hName hEnd t
  have hOpened : (Reading.opened []).run (c :: rest) = (Reading.name [] []).run (c :: rest) := by
    rw [Reading.run_cons, Reading.run_cons, Reading.step, if_neg hOther]
    rfl
  rw [parse, Reading.run_none hFirst, hText, hOpened, ← hText, Reading.run_field hName hEnd]
  rfl

/-- What a format string says is what it is filled to. -/
theorem fill_of_renders (hRenders : Renders (fun name value => values name = some value) t rendered) :
    ∃ pieces, parse t = .ok pieces ∧ fill values pieces = some rendered := by
  induction hRenders with
  | nil => exact ⟨[], rfl, rfl⟩
  | @char c t rendered hPlain _ ih =>
      obtain ⟨pieces, hParse, hFill⟩ := ih
      have hFirst : (Reading.text []).step c = .ok (none, (Reading.text []).after [c]) := by
        rw [Reading.step, if_neg hPlain.1, if_neg hPlain.2]
        rfl
      refine ⟨prepend [c] pieces, ?_, by rw [fill_prepend, hFill]; rfl⟩
      rw [parse, Reading.run_none hFirst, Reading.run_after]
      exact Fallible.map_eq_ok.mpr ⟨pieces, hParse, rfl⟩
  | @doubled c t rendered hBrace _ ih =>
      obtain ⟨pieces, hParse, hFill⟩ := ih
      refine ⟨⟨[c], none⟩ :: pieces, ?_, by rw [fill_cons, hFill]; rfl⟩
      rw [parse_doubled hBrace]
      exact Fallible.map_eq_ok.mpr ⟨pieces, hParse, rfl⟩
  | @field name ending value t rendered hName hEnd hValue _ ih =>
      obtain ⟨pieces, hParse, hFill⟩ := ih
      refine ⟨⟨[], some { name := name }⟩ :: pieces, ?_, ?_⟩
      · rw [parse_field hName hEnd]
        exact Fallible.map_eq_ok.mpr ⟨pieces, hParse, rfl⟩
      · rw [fill_cons, hFill]
        simp only [Piece.fill, hValue, Option.map_some, Option.bind_some, List.nil_append]

/-- There is one way to read a format string. -/
theorem Renders.unique {other : Text}
    (hRenders : Renders (fun name value => values name = some value) t rendered)
    (hOther : Renders (fun name value => values name = some value) t other) : rendered = other := by
  obtain ⟨pieces, hParse, hFill⟩ := fill_of_renders hRenders
  obtain ⟨others, hParseOther, hFillOther⟩ := fill_of_renders hOther
  obtain rfl := Except.ok.inj (hParse.symm.trans hParseOther)
  exact Option.some.inj (hFill.symm.trans hFillOther)

end Format
end OctoForge
