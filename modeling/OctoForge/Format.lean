import Mathlib.Tactic.SplitIfs
import OctoForge.Text

/-!
# Format strings

`string.Formatter().parse`, character by character.  A format string is literal text with
fields between braces; a doubled brace is a brace of the text.

What is read of a text is read of it whatever comes after, so a format string that is cut
outside its fields is the concatenation of the two sides.
-/

namespace OctoForge
namespace Format

/-- A replacement field. -/
structure Field where
  name : Text
  spec : Text := []
  conversion : Option Char := none
  deriving DecidableEq, Repr

/-- What one step of the iterator yields: literal text, and the field after it. -/
structure Piece where
  literal : Text
  field : Option Field := none
  deriving DecidableEq, Repr

/-- Where the iterator is in the string, with what it has read of the current piece. -/
inductive Reading where
  | text (literal : Text)
  /-- A brace has been opened. -/
  | opened (literal : Text)
  | closed (literal : Text)
  | name (literal field : Text)
  /-- Between square brackets in the name of a field. -/
  | index (literal field : Text)
  /-- After an exclamation mark. -/
  | conversion (literal field : Text)
  | converted (literal field : Text) (conversion : Char)
  | spec (literal field : Text) (conversion : Option Char) (spec : Text) (depth : Nat)
  deriving DecidableEq, Repr

namespace Reading

/-- The literal text that has been read. -/
def literal : Reading → Text
  | text literal | opened literal | closed literal | name literal _ | index literal _
  | conversion literal _ | converted literal _ _ | spec literal _ _ _ _ => literal

/-- The same place in the string, with more literal text before it. -/
def after (before : Text) : Reading → Reading
  | text literal => text (before ++ literal)
  | opened literal => opened (before ++ literal)
  | closed literal => closed (before ++ literal)
  | name literal field => name (before ++ literal) field
  | index literal field => index (before ++ literal) field
  | conversion literal field => conversion (before ++ literal) field
  | converted literal field c => converted (before ++ literal) field c
  | spec literal field c s depth => spec (before ++ literal) field c s depth

/-- No conversion is the character of code zero. -/
def conversion? (c : Char) : Option Char := if c.toNat = 0 then none else some c

/-- A character of the name of a field. -/
def stepName (literal field : Text) (c : Char) : Except Text (Option Piece × Reading) :=
  if c = '{' then .error "unexpected '\x7b' in field name".toList
  else if c = '[' then .ok (none, index literal (field ++ [c]))
  else if c = '}' then .ok (some ⟨literal, some { name := field }⟩, text [])
  else if c = ':' then .ok (none, spec literal field none [] 1)
  else if c = '!' then .ok (none, conversion literal field)
  else .ok (none, name literal (field ++ [c]))

/-- One character: the piece that it ends, if it does, and where it leaves the iterator. -/
def step : Reading → Char → Except Text (Option Piece × Reading)
  | text literal, c =>
      if c = '{' then .ok (none, opened literal)
      else if c = '}' then .ok (none, closed literal)
      else .ok (none, text (literal ++ [c]))
  | opened literal, c =>
      if c = '{' then .ok (some ⟨literal ++ [c], none⟩, text []) else stepName literal [] c
  | closed literal, c =>
      if c = '}' then .ok (some ⟨literal ++ [c], none⟩, text [])
      else .error "Single '\x7d' encountered in format string".toList
  | name literal field, c => stepName literal field c
  | index literal field, c =>
      if c = ']' then .ok (none, name literal (field ++ [c]))
      else .ok (none, index literal (field ++ [c]))
  | conversion literal field, c => .ok (none, converted literal field c)
  | converted literal field found, c =>
      if c = '}' then
        .ok (some ⟨literal, some { name := field, conversion := conversion? found }⟩, text [])
      else if c = ':' then .ok (none, spec literal field (conversion? found) [] 1)
      else .error "expected ':' after conversion specifier".toList
  | spec literal field found s depth, c =>
      if c = '{' then .ok (none, spec literal field found (s ++ [c]) (depth + 1))
      else if c = '}' then
        if depth ≤ 1 then .ok (some ⟨literal, some ⟨field, s, found⟩⟩, text [])
        else .ok (none, spec literal field found (s ++ [c]) (depth - 1))
      else .ok (none, spec literal field found (s ++ [c]) depth)

/-- The end of the string: the last piece, if there is one. -/
def atEnd : Reading → Except Text (List Piece)
  | text literal => .ok (if literal.isEmpty then [] else [⟨literal, none⟩])
  | opened _ => .error "Single '\x7b' encountered in format string".toList
  | closed _ => .error "Single '\x7d' encountered in format string".toList
  | name _ _ | index _ _ => .error "expected '\x7d' before end of string".toList
  | conversion _ _ => .error "end of string while looking for conversion specifier".toList
  | converted _ _ _ | spec _ _ _ _ _ => .error "unmatched '\x7b' in format spec".toList

/-- Some text: the pieces that end in it, and where it leaves the iterator. -/
def scan : Reading → Text → Except Text (List Piece × Reading)
  | reading, [] => .ok ([], reading)
  | reading, c :: rest => do
      let (piece, reading) ← reading.step c
      let (pieces, reading) ← reading.scan rest
      return (piece.toList ++ pieces, reading)

/-- The rest of the string. -/
def run (reading : Reading) (t : Text) : Except Text (List Piece) := do
  let (pieces, reading) ← reading.scan t
  let last ← reading.atEnd
  return pieces ++ last

end Reading

/-- `string.Formatter().parse`. -/
def parse (t : Text) : Except Text (List Piece) := (Reading.text []).run t

/-- The fields of the pieces. -/
def fields (pieces : List Piece) : List Field := pieces.filterMap (·.field)

/-- The literal text of a piece, with the value of its field; `none` when there is no value. -/
def Piece.fill (values : Text → Option Text) (piece : Piece) : Option Text :=
  match piece.field with
  | none => some piece.literal
  | some field => (values field.name).map (piece.literal ++ ·)

/-- The pieces with the values of their fields. -/
def fill (values : Text → Option Text) : List Piece → Option Text
  | [] => some []
  | piece :: rest => do
      let filled ← piece.fill values
      let others ← fill values rest
      return filled ++ others

/-! ## Literal text before -/

/-- Literal text before the first piece. -/
def prepend (before : Text) : List Piece → List Piece
  | [] => if before.isEmpty then [] else [⟨before, none⟩]
  | piece :: rest => { piece with literal := before ++ piece.literal } :: rest

variable {values : Text → Option Text} {before s t : Text} {start pieces others : List Piece}

theorem fill_cons (piece : Piece) : fill values (piece :: pieces) =
    (piece.fill values).bind fun filled => (fill values pieces).map (filled ++ ·) := by
  rw [fill]
  cases piece.fill values <;> cases fill values pieces <;> rfl

theorem fill_append : fill values (pieces ++ others) =
    (fill values pieces).bind fun filled => (fill values others).map (filled ++ ·) := by
  induction pieces with
  | nil => cases h : fill values others <;> simp [fill, h]
  | cons piece rest ih =>
      rw [List.cons_append, fill_cons, fill_cons, ih]
      cases piece.fill values with
      | none => rfl
      | some filled =>
          cases fill values rest with
          | none => rfl
          | some middle => cases fill values others <;> simp

theorem Piece.fill_before (piece : Piece) :
    Piece.fill values { piece with literal := before ++ piece.literal } =
      (piece.fill values).map (before ++ ·) := by
  obtain ⟨literal, field⟩ := piece
  cases field with
  | none => rfl
  | some field => cases h : values field.name <;> simp [Piece.fill, h]

theorem fill_prepend : fill values (prepend before pieces) =
    (fill values pieces).map (before ++ ·) := by
  cases pieces with
  | nil => cases before <;> simp [prepend, fill, Piece.fill]
  | cons piece rest =>
      rw [prepend, fill_cons, fill_cons, Piece.fill_before]
      cases piece.fill values with
      | none => rfl
      | some filled => cases fill values rest <;> simp

theorem fields_prepend : fields (prepend before pieces) = fields pieces := by
  cases pieces with
  | nil => cases before <;> rfl
  | cons piece rest => rfl

theorem fields_append : fields (pieces ++ others) = fields pieces ++ fields others :=
  List.filterMap_append

/-- Filling looks up the names of the fields, and no others. -/
theorem fill_congr {values values' : Text → Option Text}
    (hSame : ∀ field ∈ fields pieces, values field.name = values' field.name) :
    fill values pieces = fill values' pieces := by
  induction pieces with
  | nil => rfl
  | cons piece rest ih =>
      have hRest : ∀ field ∈ fields rest, values field.name = values' field.name :=
        fun field hField => hSame field
          (List.mem_filterMap.mpr (by
            obtain ⟨other, hOther, hSome⟩ := List.mem_filterMap.mp hField
            exact ⟨other, List.mem_cons_of_mem _ hOther, hSome⟩))
      have hPiece : piece.fill values = piece.fill values' := by
        obtain ⟨literal, field⟩ := piece
        cases field with
        | none => rfl
        | some field =>
            have hName : values field.name = values' field.name :=
              hSame field (List.mem_filterMap.mpr ⟨_, List.mem_cons_self, rfl⟩)
            simp only [Piece.fill, hName]
      rw [fill_cons, fill_cons, hPiece, ih hRest]

namespace Reading

variable {reading : Reading}

/-- A step with literal text before, in terms of the step without. -/
def stepAfter (before : Text) (done : Option Piece × Reading) : Option Piece × Reading :=
  match done.1 with
  | none => (none, done.2.after before)
  | some piece => (some { piece with literal := before ++ piece.literal }, done.2)

theorem stepName_after (literal field : Text) (c : Char) :
    stepName (before ++ literal) field c = (stepName literal field c).map (stepAfter before) := by
  unfold stepName
  split_ifs <;> rfl

theorem step_after (reading : Reading) (c : Char) :
    (reading.after before).step c = (reading.step c).map (stepAfter before) := by
  cases reading <;> simp only [after, step]
  case text literal => split_ifs <;> simp [Except.map, stepAfter, after]
  case opened literal =>
    split_ifs
    · simp [Except.map, stepAfter]
    · exact stepName_after literal [] c
  case closed literal => split_ifs <;> simp [Except.map, stepAfter]
  case name literal field => exact stepName_after literal field c
  all_goals (try split_ifs) <;> rfl

theorem run_cons (reading : Reading) (c : Char) (rest : Text) :
    reading.run (c :: rest) = (reading.step c).bind fun done =>
      (done.2.run rest).map (done.1.toList ++ ·) := by
  unfold run
  rw [scan]
  cases reading.step c with
  | error message => rfl
  | ok done =>
      obtain ⟨piece, next⟩ := done
      cases hScan : next.scan rest with
      | error message => simp [bind, Except.bind, hScan, Except.map]
      | ok found =>
          obtain ⟨pieces, last⟩ := found
          cases hEnd : last.atEnd <;>
            simp [bind, Except.bind, hScan, hEnd, Except.map, pure, Except.pure]

theorem atEnd_after (reading : Reading) :
    (reading.after before).atEnd = (reading.atEnd).map (prepend before) := by
  cases reading <;> simp only [after, atEnd, Except.map]
  case text literal =>
    cases literal <;> cases before <;> simp [prepend]

/-- Literal text before the string goes before its first piece. -/
theorem run_after : ∀ (t : Text) (reading : Reading),
    (reading.after before).run t = (reading.run t).map (prepend before) := by
  intro t
  induction t with
  | nil =>
      intro reading
      have hRun : ∀ reading : Reading, reading.run [] = reading.atEnd := by
        intro reading
        simp only [run, scan, bind, Except.bind]
        cases reading.atEnd <;> rfl
      rw [hRun, hRun, atEnd_after]
  | cons c rest ih =>
      intro reading
      rw [run_cons, run_cons, step_after]
      cases reading.step c with
      | error message => rfl
      | ok done =>
          obtain ⟨piece, next⟩ := done
          cases piece with
          | none =>
              simp only [Except.map, Except.bind, stepAfter, ih]
              cases next.run rest <;> rfl
          | some piece =>
              simp only [Except.map, Except.bind, stepAfter]
              cases next.run rest <;> rfl

/-- A string whose start has been read. -/
theorem run_append : ∀ (s : Text) (reading : Reading) {pieces : List Piece} {next : Reading},
    reading.scan s = .ok (pieces, next) →
      reading.run (s ++ t) = (next.run t).map (pieces ++ ·) := by
  intro s
  induction s with
  | nil =>
      intro reading pieces next hScan
      obtain ⟨rfl, rfl⟩ := Prod.mk.inj (Except.ok.inj hScan)
      rw [List.nil_append]
      cases reading.run t <;> rfl
  | cons c rest ih =>
      intro reading pieces next hScan
      rw [List.cons_append, run_cons]
      rw [scan] at hScan
      cases hStep : reading.step c with
      | error message => simp [hStep, bind, Except.bind] at hScan
      | ok done =>
          obtain ⟨piece, middle⟩ := done
          cases hRest : middle.scan rest with
          | error message => simp [hStep, hRest, bind, Except.bind] at hScan
          | ok found =>
              obtain ⟨others, last⟩ := found
              simp only [hStep, hRest, bind, Except.bind, pure, Except.pure, Except.ok.injEq,
                Prod.mk.injEq] at hScan
              obtain ⟨rfl, rfl⟩ := hScan
              simp only [Except.bind, ih middle hRest]
              cases last.run t <;> simp [Except.map]

/-- A string that can end here ends in literal text. -/
theorem atEnd_ok {reading : Reading} {last : List Piece} (hEnd : reading.atEnd = .ok last) :
    ∃ literal, reading = text literal ∧
      last = if literal.isEmpty then [] else [⟨literal, none⟩] := by
  cases reading with
  | text literal => exact ⟨literal, rfl, (Except.ok.inj hEnd).symm⟩
  | _ => cases hEnd

end Reading

/-- A string that is cut after a format string is filled, and has fields, side by side. -/
theorem parse_append (hStart : parse s = .ok start) (t : Text) :
    ∃ glue : List Piece → List Piece, parse (s ++ t) = (parse t).map glue ∧
      ∀ pieces, fields (glue pieces) = fields start ++ fields pieces ∧
        ∀ values, fill values (glue pieces) =
          (fill values start).bind fun filled => (fill values pieces).map (filled ++ ·) := by
  unfold parse Reading.run at hStart
  cases hScan : (Reading.text []).scan s with
  | error message => simp [hScan, bind, Except.bind] at hStart
  | ok found =>
      obtain ⟨read, next⟩ := found
      cases hEnd : next.atEnd with
      | error message => simp [hScan, hEnd, bind, Except.bind] at hStart
      | ok last =>
          simp only [hScan, hEnd, bind, Except.bind, pure, Except.pure, Except.ok.injEq] at hStart
          subst hStart
          -- What is read at the end of the first string is a literal, and the second one goes on
          -- with it.
          obtain ⟨literal, rfl, rfl⟩ := Reading.atEnd_ok hEnd
          refine ⟨fun pieces => read ++ prepend literal pieces, ?_,
            fun pieces => ⟨?_, fun values => ?_⟩⟩
          · have hAfter := @Reading.run_after literal t (.text [])
            rw [parse, Reading.run_append s _ hScan]
            have hHere : (Reading.text []).after literal = .text literal := by simp [Reading.after]
            rw [hHere] at hAfter
            rw [hAfter, parse]
            cases (Reading.text []).run t <;> rfl
          · rw [fields_append, fields_append, fields_prepend]
            cases literal <;> simp [fields]
          · have hLast : fill values (if literal.isEmpty then [] else [⟨literal, none⟩]) =
                some literal := by
              cases literal <;> simp [fill, Piece.fill]
            rw [fill_append, fill_append, fill_prepend, hLast]
            cases fill values read with
            | none => rfl
            | some filled => cases fill values pieces <;> simp

/-! ## The characters of a format string -/

namespace Reading

/-- The literal text that a step leaves or yields. -/
def stepLiteral (done : Option Piece × Reading) : Text :=
  ((done.1.map (·.literal)).getD []) ++ done.2.literal

theorem literal_of_stepName {literal field : Text} {c : Char} {done : Option Piece × Reading}
    (hStep : stepName literal field c = .ok done) : stepLiteral done ⊆ literal := by
  unfold stepName at hStep
  split_ifs at hStep <;> obtain rfl := Except.ok.inj hStep <;> simp [stepLiteral, Reading.literal]

/-- Literal text is text that has been read. -/
theorem literal_of_step {reading : Reading} {c : Char} {done : Option Piece × Reading}
    (hStep : reading.step c = .ok done) : stepLiteral done ⊆ reading.literal ++ [c] := by
  cases reading <;> simp only [step] at hStep
  case opened literal =>
    split_ifs at hStep
    · obtain rfl := Except.ok.inj hStep
      simp [stepLiteral, Reading.literal]
    · exact List.subset_append_of_subset_left _ (literal_of_stepName hStep)
  case name literal field =>
    exact List.subset_append_of_subset_left _ (literal_of_stepName hStep)
  all_goals
    (try split_ifs at hStep) <;> obtain rfl := Except.ok.inj hStep <;>
      simp [stepLiteral, Reading.literal]

theorem literal_of_run : ∀ (t : Text) (reading : Reading) {pieces : List Piece},
    reading.run t = .ok pieces → ∀ piece ∈ pieces, piece.literal ⊆ reading.literal ++ t := by
  intro t
  -- A step moves no character that it has not read, whatever the state it is in.
  induction t with
  | nil =>
      intro reading pieces hRun piece hPiece
      have hEnd : reading.atEnd = .ok pieces := by
        simp only [run, scan, bind, Except.bind] at hRun
        cases hEnd : reading.atEnd with
        | error message => simp [hEnd] at hRun
        | ok last => simpa [hEnd, pure, Except.pure] using hRun
      obtain ⟨literal, rfl, rfl⟩ := atEnd_ok hEnd
      split at hPiece
      · cases hPiece
      · obtain rfl := List.mem_singleton.mp hPiece
        simp [Reading.literal]
  | cons c rest ih =>
      intro reading pieces hRun piece hPiece
      rw [run_cons] at hRun
      cases hStep : reading.step c with
      | error message =>
          rw [hStep] at hRun
          cases hRun
      | ok done =>
          have hRead := literal_of_step hStep
          obtain ⟨found, next⟩ := done
          rw [hStep] at hRun
          cases hRest : next.run rest with
          | error message =>
              simp only [Except.bind, hRest, Except.map] at hRun
              cases hRun
          | ok others =>
              simp only [Except.bind, hRest, Except.map, Except.ok.injEq] at hRun
              subst hRun
              have hOwn : reading.literal ++ [c] ⊆ reading.literal ++ c :: rest := by
                intro d hMem
                simp only [List.mem_append, List.mem_cons, List.not_mem_nil, or_false] at hMem ⊢
                exact hMem.imp_right .inl
              rcases List.mem_append.mp hPiece with hHere | hLater
              · refine fun d hMem => hOwn (hRead ?_)
                cases found with
                | none => cases hHere
                | some last =>
                    obtain rfl := List.mem_singleton.mp hHere
                    exact List.mem_append_left _ hMem
              · intro d hMem
                rcases List.mem_append.mp (ih next hRest piece hLater hMem) with hNext | hMore
                · exact hOwn (hRead (List.mem_append_right _ hNext))
                · exact List.mem_append_right _ (List.mem_cons_of_mem _ hMore)

/-- Text without braces is read as it is. -/
theorem scan_plain (hPlain : ∀ c ∈ t, c ≠ '{' ∧ c ≠ '}') (literal : Text) :
    (text literal).scan t = .ok ([], text (literal ++ t)) := by
  induction t generalizing literal with
  | nil => simp [scan]
  | cons c rest ih =>
      have hHead := hPlain c List.mem_cons_self
      have hRest := ih (fun d hMem => hPlain d (List.mem_cons_of_mem _ hMem)) (literal ++ [c])
      rw [scan, step, if_neg hHead.1, if_neg hHead.2]
      simp [bind, Except.bind, hRest, pure, Except.pure]

end Reading

theorem parse_plain (hPlain : ∀ c ∈ t, c ≠ '{' ∧ c ≠ '}') :
    parse t = .ok (if t.isEmpty then [] else [⟨t, none⟩]) := by
  rw [parse, Reading.run, Reading.scan_plain hPlain]
  rfl

/-- What a format string is filled to is made of its own characters and of those of the values. -/
theorem mem_fill {filled : Text} (hFill : fill values pieces = some filled) {c : Char}
    (hMem : c ∈ filled) : (∃ piece ∈ pieces, c ∈ piece.literal) ∨
      ∃ field ∈ fields pieces, ∃ value, values field.name = some value ∧ c ∈ value := by
  induction pieces generalizing filled with
  | nil =>
      obtain rfl := Option.some.inj hFill
      cases hMem
  | cons piece rest ih =>
      rw [fill_cons] at hFill
      obtain ⟨here, hHere, hFill⟩ := Option.bind_eq_some_iff.mp hFill
      obtain ⟨others, hOthers, rfl⟩ := Option.map_eq_some_iff.mp hFill
      rcases List.mem_append.mp hMem with hFirst | hLater
      -- The character is the piece's own, or of the value that fills its field.
      · unfold Piece.fill at hHere
        cases hField : piece.field with
        | none =>
            simp only [hField, Option.some.injEq] at hHere
            subst hHere
            exact .inl ⟨piece, List.mem_cons_self, hFirst⟩
        | some field =>
            simp only [hField] at hHere
            obtain ⟨value, hValue, rfl⟩ := Option.map_eq_some_iff.mp hHere
            rcases List.mem_append.mp hFirst with hLiteral | hIn
            · exact .inl ⟨piece, List.mem_cons_self, hLiteral⟩
            · have hMemField : field ∈ fields (piece :: rest) :=
                List.mem_filterMap.mpr ⟨piece, List.mem_cons_self, hField⟩
              exact .inr ⟨field, hMemField, value, hValue, hIn⟩
      · rcases ih hOthers hLater with ⟨found, hFound, hLiteral⟩ | ⟨field, hField, hValue⟩
        · exact .inl ⟨found, List.mem_cons_of_mem _ hFound, hLiteral⟩
        · obtain ⟨found, hFound, hSome⟩ := List.mem_filterMap.mp hField
          have hMemField : field ∈ fields (piece :: rest) :=
            List.mem_filterMap.mpr ⟨found, List.mem_cons_of_mem _ hFound, hSome⟩
          exact .inr ⟨field, hMemField, hValue⟩

/-- The same, of the string itself. -/
theorem mem_filled {filled : Text} (hParse : parse t = .ok pieces)
    (hFill : fill values pieces = some filled) {c : Char} (hMem : c ∈ filled) :
    c ∈ t ∨ ∃ field ∈ fields pieces, ∃ value, values field.name = some value ∧ c ∈ value := by
  rcases mem_fill hFill hMem with ⟨piece, hPiece, hLiteral⟩ | hValue
  · exact .inl (Reading.literal_of_run t (.text []) hParse piece hPiece hLiteral)
  · exact .inr hValue

end Format
end OctoForge
