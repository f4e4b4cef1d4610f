import OctoForge.Lower

/-!
# The positions of a find

A pattern is looked for in the lower case of a document, and the positions there are handed out as
positions in the document.  They are the same as long as no character before them becomes longer.
-/

namespace OctoForge
namespace Documents

/-- `hay.find(needle, start)`. -/
def findFrom (hay needle : Text) (start : Nat) : Option Nat :=
  (Text.find? needle (hay.drop start)).map (start + ·)

/-- The loop of `_find_positions`, in so many rounds. -/
def findLoop (hay needle : Text) (width : Nat) : (rounds start : Nat) → List (Nat × Nat)
  | 0, _ => []
  | rounds + 1, start =>
      match findFrom hay needle start with
      | none => []
      | some found => (found, found + width) :: findLoop hay needle width rounds (found + 1)

/-- `_find_positions`. -/
def findPositions (table : CaseTable) (target pattern : Text) : List (Nat × Nat) :=
  let hay := table.lower target
  findLoop hay (table.lower pattern) pattern.length (hay.length + 1) 0

/-- `text[start:stop]`. -/
def slice (t : Text) (start stop : Nat) : Text := (t.take stop).drop start

/-- What `response_window` shows around a position; `none` when it is past the end. -/
def window (target : Text) (position before after : Nat) : Option Text :=
  if target.length ≤ position then none
  else some (slice target (position - before) (min target.length (position + after)))

section Properties

variable (table : CaseTable) (target pattern : Text)

/-- The target has the pattern at a position, up to letter case. -/
def OccursAt (start : Nat) : Prop :=
  start + pattern.length ≤ target.length ∧
    table.lower (slice target start (start + pattern.length)) = table.lower pattern

/-- The positions are those of the occurrences, and a window that is opened there shows one. -/
structure FindsReal : Prop where
  sound : ∀ start stop, (start, stop) ∈ findPositions table target pattern →
    start < stop ∧ stop ≤ target.length ∧
      table.lower (slice target start stop) = table.lower pattern
  complete : ∀ start, OccursAt table target pattern start →
    (start, start + pattern.length) ∈ findPositions table target pattern
  shown : ∀ start stop, (start, stop) ∈ findPositions table target pattern →
    ∀ before after, stop ≤ start + after → ∃ text,
      window target start before after = some text ∧ slice target start stop <:+: text

/-- The lower case of the target has that of the pattern where the target has the pattern: nothing
before an occurrence becomes longer, what is around it does not change its lower case, and none
comes about that is not the lower case of an occurrence. -/
structure Aligned : Prop where
  inPlace : ∀ start, OccursAt table target pattern start →
    (table.lower (target.take start)).length = start
  alone : ∀ start, OccursAt table target pattern start →
    table.lowerIn (target.drop (start + pattern.length)) (target.take start).reverse
      (slice target start (start + pattern.length)) = table.lower pattern
  real : ∀ place, table.lower pattern <+: (table.lower target).drop place →
    ∃ start, OccursAt table target pattern start ∧
      place = (table.lower (target.take start)).length

end Properties

/-! ## What is found -/

section Finding

variable {hay needle : Text} {width rounds start found stop : Nat}

/-- The needle is there from a place on, before the place where the loop has no more rounds. -/
theorem mem_findLoop (hNeedle : needle ≠ []) (hRounds : hay.length < start + rounds) :
    (found, stop) ∈ findLoop hay needle width rounds start ↔
      start ≤ found ∧ stop = found + width ∧ needle <+: hay.drop found := by
  induction rounds generalizing start with
  | zero =>
      -- The loop is past the end, where no needle stands.
      refine iff_of_false List.not_mem_nil ?_
      rintro ⟨hStart, -, hHere⟩
      rw [List.drop_eq_nil_of_le (by omega)] at hHere
      exact hNeedle (List.prefix_nil.mp hHere)
  | succ rounds ih =>
      rw [findLoop, findFrom]
      cases hFind : Text.find? needle (hay.drop start) with
      | none =>
          refine iff_of_false List.not_mem_nil ?_
          rintro ⟨hStart, -, hHere⟩
          refine Text.not_prefix_of_find? hNeedle hFind (found - start) ?_
          rwa [List.drop_drop, Nat.add_sub_cancel' hStart]
      | some first =>
          obtain ⟨hHere, hBefore⟩ := Text.prefix_of_find? hFind
          rw [List.drop_drop] at hHere
          simp only [Option.map_some, List.mem_cons, Prod.mk.injEq]
          rw [ih (by omega)]
          -- The first place found is the first there is, and the loop goes on right behind it.
          constructor
          · rintro (⟨rfl, rfl⟩ | ⟨hLater, hStop, hThere⟩)
            · exact ⟨Nat.le_add_right _ _, rfl, hHere⟩
            · exact ⟨by omega, hStop, hThere⟩
          · rintro ⟨hStart, hStop, hThere⟩
            by_cases hFirst : found = start + first
            · exact .inl ⟨hFirst, by rw [hStop, hFirst]⟩
            · refine .inr ⟨?_, hStop, hThere⟩
              have hNot := hBefore (found - start)
              rw [List.drop_drop, Nat.add_sub_cancel' hStart] at hNot
              have hMore : ¬found - start < first := fun hLess => hNot hLess hThere
              omega

end Finding

section Positions

variable {table : CaseTable} {target pattern : Text} {start stop : Nat}

theorem mem_findPositions (hPattern : pattern ≠ []) :
    (start, stop) ∈ findPositions table target pattern ↔
      stop = start + pattern.length ∧
        table.lower pattern <+: (table.lower target).drop start := by
  rw [findPositions, mem_findLoop (CaseTable.lower_ne_nil hPattern) (by omega)]
  simp

theorem slice_infix {a b : Nat} (hStart : a ≤ start) (hStop : stop ≤ b) :
    slice target start stop <:+: slice target a b := by
  have hInner : slice target start stop = ((slice target a b).drop (start - a)).take (stop - start) := by
    rw [slice, slice, List.drop_drop, Nat.add_sub_cancel' hStart, ← List.drop_take,
      List.take_take, Nat.min_eq_left hStop]
  rw [hInner]
  exact (List.take_prefix _ _).isInfix.trans (List.drop_suffix _ _).isInfix

/-- A window at a position of the target shows what begins there, as far as it reaches. -/
theorem window_shows (hStart : start < target.length) (hStop : stop ≤ target.length)
    {before after : Nat} (hReach : stop ≤ start + after) :
    ∃ text, window target start before after = some text ∧ slice target start stop <:+: text := by
  rw [window, if_neg (Nat.not_le.mpr hStart)]
  exact ⟨_, rfl, slice_infix (Nat.sub_le _ _) (Nat.le_min.mpr ⟨hStop, hReach⟩)⟩

/-- What the lower case of a target has where that of a slice begins. -/
theorem drop_lower_target (table : CaseTable) (target pattern : Text) (start : Nat) :
    ∃ rest, (table.lower target).drop (table.lower (target.take start)).length =
      table.lowerIn (target.drop (start + pattern.length)) (target.take start).reverse
        (slice target start (start + pattern.length)) ++ rest := by
  have hRest : target.drop start = slice target start (start + pattern.length) ++
      target.drop (start + pattern.length) := by
    have hSlice : slice target start (start + pattern.length) =
        (target.drop start).take pattern.length := by
      rw [slice, List.drop_take, Nat.add_sub_cancel_left]
    rw [hSlice, ← List.drop_drop, List.take_append_drop]
  have hLower := table.drop_lower (target.take start) (target.drop start)
  rw [List.take_append_drop, hRest, CaseTable.lowerIn_append, List.append_nil] at hLower
  exact ⟨_, hLower⟩

/-- In an aligned target the positions are those of the occurrences. -/
theorem findsReal_of_aligned (hPattern : pattern ≠ []) (hAligned : Aligned table target pattern) :
    FindsReal table target pattern := by
  have hSome := List.length_pos_of_ne_nil hPattern
  have hSound : ∀ start stop, (start, stop) ∈ findPositions table target pattern →
      stop = start + pattern.length ∧ OccursAt table target pattern start := by
    intro start stop hFound
    obtain ⟨hStop, hHere⟩ := (mem_findPositions hPattern).mp hFound
    obtain ⟨place, hOccurs, hPlace⟩ := hAligned.real start hHere
    rw [hAligned.inPlace place hOccurs] at hPlace
    exact ⟨hStop, hPlace ▸ hOccurs⟩
  refine ⟨fun start stop hFound => ?_, fun start hOccurs => ?_, fun start stop hFound => ?_⟩
  · obtain ⟨rfl, hBound, hSame⟩ := hSound start stop hFound
    exact ⟨by omega, hBound, hSame⟩
  · obtain ⟨rest, hDrop⟩ := drop_lower_target table target pattern start
    rw [hAligned.inPlace start hOccurs, hAligned.alone start hOccurs] at hDrop
    exact (mem_findPositions hPattern).mpr ⟨rfl, hDrop ▸ List.prefix_append _ _⟩
  · obtain ⟨rfl, hBound, -⟩ := hSound start stop hFound
    exact fun before after hReach => window_shows (by omega) hBound hReach

/-- Without a capital sigma an occurrence is found where its lower case is. -/
theorem occursAt_lower (hPattern : pattern ≠ []) (hSigma : 'Σ' ∉ target)
    (hReal : FindsReal table target pattern) (hOccurs : OccursAt table target pattern start) :
    OccursAt table target pattern (table.lower (target.take start)).length := by
  have hSlice : 'Σ' ∉ slice target start (start + pattern.length) := fun hMem =>
    hSigma (List.mem_of_mem_take (List.mem_of_mem_drop hMem))
  obtain ⟨rest, hDrop⟩ := drop_lower_target table target pattern start
  rw [CaseTable.lowerIn_eq hSlice, hOccurs.2] at hDrop
  have hFound : ((table.lower (target.take start)).length,
      (table.lower (target.take start)).length + pattern.length) ∈
        findPositions table target pattern :=
    (mem_findPositions hPattern).mpr ⟨rfl, hDrop ▸ List.prefix_append _ _⟩
  obtain ⟨-, hBound, hSame⟩ := hReal.sound _ _ hFound
  exact ⟨hBound, hSame⟩

/-- An occurrence behind a character that becomes longer is found further on, where there is
another one: there would be no last one. -/
theorem length_lower_take_of_findsReal (hPattern : pattern ≠ []) (hSigma : 'Σ' ∉ target)
    (hReal : FindsReal table target pattern) (rounds : Nat) (hRounds : target.length < start + rounds)
    (hOccurs : OccursAt table target pattern start) :
    (table.lower (target.take start)).length = start := by
  induction rounds generalizing start with
  | zero =>
      have hBound := hOccurs.1
      omega
  | succ rounds ih =>
      have hNext := occursAt_lower hPattern hSigma hReal hOccurs
      have hBound : start ≤ target.length := by
        have hEnd := hOccurs.1
        omega
      have hNextBound : (table.lower (target.take start)).length ≤ target.length := by
        have hEnd := hNext.1
        omega
      have hLe : start ≤ (table.lower (target.take start)).length :=
        CaseTable.le_length_lower_take hBound
      rcases Nat.lt_or_eq_of_le hLe with hMoved | hSame
      · -- The one found further on is in place, and so nothing before it gets longer.
        have hStill := ih (by omega) hNext
        have hFurther : (table.lower (target.take start)).length <
            (table.lower (target.take (table.lower (target.take start)).length)).length :=
          CaseTable.length_lower_take hMoved hNextBound
        omega
      · exact hSame.symm

theorem aligned_of_findsReal (hPattern : pattern ≠ []) (hSigma : 'Σ' ∉ target)
    (hReal : FindsReal table target pattern) : Aligned table target pattern := by
  have hInPlace : ∀ start, OccursAt table target pattern start →
      (table.lower (target.take start)).length = start := fun start hOccurs =>
    length_lower_take_of_findsReal hPattern hSigma hReal (target.length + 1) (by omega) hOccurs
  refine ⟨hInPlace, fun start hOccurs => ?_, fun place hHere => ?_⟩
  · have hSlice : 'Σ' ∉ slice target start (start + pattern.length) := fun hMem =>
      hSigma (List.mem_of_mem_take (List.mem_of_mem_drop hMem))
    rw [CaseTable.lowerIn_eq hSlice, hOccurs.2]
  · obtain ⟨-, hBound, hSame⟩ :=
      hReal.sound place _ ((mem_findPositions hPattern).mpr ⟨rfl, hHere⟩)
    exact ⟨place, ⟨hBound, hSame⟩, (hInPlace place ⟨hBound, hSame⟩).symm⟩

/-- The positions of a find are real where the lower case is aligned with the target, and, if there
is no capital sigma in the target, only there. -/
theorem find_positions_real {table : CaseTable} {target pattern : Text} (hPattern : pattern ≠ []) :
    (Aligned table target pattern → FindsReal table target pattern) ∧
      ('Σ' ∉ target → (FindsReal table target pattern ↔ Aligned table target pattern)) :=
  ⟨findsReal_of_aligned hPattern, fun hSigma =>
    ⟨aligned_of_findsReal hPattern hSigma, findsReal_of_aligned hPattern⟩⟩

/-- The characters of ASCII, the two Greek sigmas and an I with a dot. -/
def fewCases : CaseTable where
  lowerChar c := if c = 'İ' then ['i', '\u0307'] else [c.toLower]
  cased c := c.isAlpha || decide (c ∈ ['İ', 'Σ', 'σ', 'ς'])
  ignorable c := decide (c = '\u0307')
  lowerChar_ne_nil c := by
    split
    · exact List.cons_ne_nil _ _
    · exact List.cons_ne_nil _ _

theorem find_positions_real_ascii :
    FindsReal fewCases "Total total".toList "TOTAL".toList ↔
      Aligned fewCases "Total total".toList "TOTAL".toList :=
  (find_positions_real (by decide)).2 (by decide)

/-- Behind an I with a dot the position of a match is past the end, and a sigma at the end of a
word is not found. -/
theorem finds_past_end :
    ¬FindsReal fewCases "İa".toList "a".toList ∧ ¬FindsReal fewCases "aΣ".toList "Σ".toList := by
  constructor
  · intro hReal
    have hBound := (hReal.sound 2 3 (by decide)).2.1
    exact absurd hBound (by decide)
  · intro hReal
    have hFound := hReal.complete 1 ⟨by decide, by decide⟩
    exact absurd hFound (by decide)

end Positions

end Documents
end OctoForge
