import OctoForge.Telegram.Chunks

/-!
# Where a text is cut

The raw chunks of a text make it up, and a chunk that is sent is a raw chunk without the line
breaks at its ends.  Between two raw chunks a line ends, unless the line is too long for one
message by itself: what has been taken of it before is then cut off in front of it.
-/

namespace OctoForge
namespace Telegram

/-- The chunks are what is in the pieces: a piece is a chunk between line breaks, or has nothing
else. -/
inductive Trims : (pieces chunks : List Text) → Prop
  | nil : Trims [] []
  | blank {piece : Text} {pieces chunks : List Text} (hBlank : ∀ c ∈ piece, c = '\n')
      (hRest : Trims pieces chunks) : Trims (piece :: pieces) chunks
  | chunk {before chunk after : Text} {pieces chunks : List Text} (hBefore : ∀ c ∈ before, c = '\n')
      (hAfter : ∀ c ∈ after, c = '\n') (hRest : Trims pieces chunks) :
      Trims ((before ++ chunk ++ after) :: pieces) (chunk :: chunks)

/-- The start of a text ends inside one of its lines. -/
def EndsInside (lines : List Text) (start line : Text) : Prop :=
  ∃ done rest part more, lines = done ++ line :: rest ∧ start = done.flatten ++ part ∧
    line = part ++ more ∧ part ≠ [] ∧ more ≠ []

/-- The chunks of a text: they fit, and the text is made up of pieces that have nothing but line
breaks beside the chunks.  A cut inside a line is one inside a line that does not fit. -/
structure SplitWell (limit : Nat) (text : Text) (chunks : List Text) : Prop where
  fits : ∀ chunk ∈ chunks, chunk ≠ [] ∧ chunk.length ≤ limit
  lossless : ∃ pieces, pieces.flatten = text ∧ Trims pieces chunks ∧
    ∀ before after line, pieces = before ++ after →
      EndsInside (splitLines text) before.flatten line → limit < line.length

/-! ## The pieces -/

section Trimming

variable {limit : Nat} {text : Text}

theorem exists_rstrip (text : Text) :
    ∃ after, text = rstripNewlines text ++ after ∧ ∀ c ∈ after, c = '\n' := by
  refine ⟨text.rtakeWhile (· = '\n'), ?_, fun c hMem => ?_⟩
  · exact (List.rdropWhile_append_rtakeWhile (p := fun c => decide (c = '\n')) (l := text)).symm
  · have hTaken := List.mem_rtakeWhile_imp (p := fun c => decide (c = '\n')) hMem
    simpa using hTaken

theorem exists_strip (text : Text) : ∃ before after,
    text = before ++ stripNewlines text ++ after ∧ (∀ c ∈ before, c = '\n') ∧
      ∀ c ∈ after, c = '\n' := by
  obtain ⟨after, hText, hAfter⟩ := exists_rstrip (text.dropWhile (· = '\n'))
  refine ⟨text.takeWhile (· = '\n'), after, ?_, fun c hMem => ?_, hAfter⟩
  · rw [List.append_assoc, stripNewlines, ← hText, List.takeWhile_append_dropWhile]
  · have hTaken := List.mem_takeWhile_imp (p := fun c => decide (c = '\n')) hMem
    simpa using hTaken

theorem length_stripNewlines (text : Text) : (stripNewlines text).length ≤ text.length := by
  obtain ⟨before, after, hText, -, -⟩ := exists_strip text
  have hLength := congrArg List.length hText
  simp only [List.length_append] at hLength
  omega

theorem trims_trimmed (pieces : List Text) : Trims pieces (trimmed pieces) := by
  induction pieces with
  | nil => exact .nil
  | cons piece pieces ih =>
      have hCons : trimmed (piece :: pieces) = trimmed [piece] ++ trimmed pieces :=
        trimmed_append [piece] pieces
      by_cases hBlank : stripNewlines piece = []
      · -- A piece without text is not sent.
        have hNone : trimmed [piece] = [] := by simp [trimmed, hBlank]
        rw [hCons, hNone, List.nil_append]
        exact .blank (stripNewlines_eq_nil_iff.mp hBlank) ih
      · obtain ⟨before, after, hPiece, hBefore, hAfter⟩ := exists_strip piece
        rw [hCons, trimmed_singleton hBlank, List.singleton_append]
        have hChunk : Trims ((before ++ stripNewlines piece ++ after) :: pieces)
            (stripNewlines piece :: trimmed pieces) := .chunk hBefore hAfter ih
        rwa [← hPiece] at hChunk

/-- Pieces that are blank one and all have no text. -/
theorem blank_of_trimmed_eq_nil {pieces : List Text} (hNone : trimmed pieces = []) :
    ∀ c ∈ pieces.flatten, c = '\n' := by
  intro c hMem
  by_contra hC
  exact trimmed_ne_nil hMem hC hNone

end Trimming

/-! ## The places -/

/-- A text ends with a line, or in a line that does not fit. -/
def WellCut (limit : Nat) (lines : List Text) (start : Text) : Prop :=
  ∃ done rest part, lines = done ++ rest ∧ start = done.flatten ++ part ∧
    (part ≠ [] → ∃ line more, rest = line :: more ∧ part <+: line ∧ limit < line.length)

section Places

variable {limit : Nat} {lines : List Text} {start line : Text}

theorem wellCut_lines (hDone : start = lines.flatten) : WellCut limit lines start :=
  ⟨lines, [], [], (List.append_nil lines).symm, by rw [hDone, List.append_nil],
    fun hSome => absurd rfl hSome⟩

theorem WellCut.append (hCut : WellCut limit lines start) (more : List Text) :
    WellCut limit (lines ++ more) start := by
  obtain ⟨done, rest, part, rfl, rfl, hPart⟩ := hCut
  refine ⟨done, rest ++ more, part, List.append_assoc _ _ _, rfl, fun hSome => ?_⟩
  obtain ⟨line, others, rfl, hPrefix, hLong⟩ := hPart hSome
  exact ⟨line, others ++ more, rfl, hPrefix, hLong⟩

/-- A line in which a text that is well cut ends does not fit. -/
theorem WellCut.inside (hCut : WellCut limit lines start) (hInside : EndsInside lines start line) :
    limit < line.length := by
  obtain ⟨done, rest, part, hLines, hStart, hPart⟩ := hCut
  obtain ⟨done', rest', part', more', hLines', hStart', rfl, hSome', hMore'⟩ := hInside
  have hSome'' := List.length_pos_of_ne_nil hSome'
  have hMore'' := List.length_pos_of_ne_nil hMore'
  rw [hLines] at hLines'
  rw [hStart] at hStart'
  rcases List.append_eq_append_iff.mp hLines' with
    ⟨mid, hDone, hRest⟩ | ⟨mid, hDone, hRest⟩
  · -- the line comes after those the text ends with
    rw [hDone, List.flatten_append, List.append_assoc] at hStart'
    have hSame : part = mid.flatten ++ part' := List.append_cancel_left hStart'
    have hPartSome : part ≠ [] := by
      rw [hSame]
      exact List.append_ne_nil_of_right_ne_nil _ hSome'
    obtain ⟨line, others, hHead, hPrefix, hLong⟩ := hPart hPartSome
    cases mid with
    | nil =>
        rw [hHead, List.nil_append] at hRest
        obtain ⟨rfl, -⟩ := List.cons.inj hRest
        exact hLong
    | cons first mid =>
        -- A whole line would be part of another one.
        rw [hHead, List.cons_append] at hRest
        obtain ⟨rfl, -⟩ := List.cons.inj hRest
        have hLength := hPrefix.length_le
        rw [hSame] at hLength
        simp only [List.flatten_cons, List.length_append] at hLength
        omega
  · -- the text ends with the line or later
    cases mid with
    | nil =>
        rw [List.nil_append] at hRest
        rw [hDone, List.append_nil] at hStart'
        obtain rfl := List.append_cancel_left hStart'
        obtain ⟨line, others, hHead, -, hLong⟩ := hPart hSome'
        rw [hHead] at hRest
        obtain ⟨rfl, -⟩ := List.cons.inj hRest
        exact hLong
    | cons first mid =>
        -- The text would go on to the end of the line.
        rw [List.cons_append] at hRest
        obtain ⟨rfl, -⟩ := List.cons.inj hRest
        rw [hDone, List.flatten_append, List.append_assoc] at hStart'
        have hSame := congrArg List.length (List.append_cancel_left hStart')
        simp only [List.flatten_cons, List.length_append] at hSame
        omega

end Places

namespace Splitting

variable {limit : Nat} {sp : Splitting} {lines : List Text} {line rest : Text}

/-- The chunks fit, and every one of them ends in a good place. -/
structure Cutting (limit : Nat) (lines : List Text) (sp : Splitting) : Prop where
  fits : ∀ chunk ∈ sp.chunks, chunk.length ≤ limit
  current : sp.current.length ≤ limit
  cuts : ∀ before, before <+: sp.chunks → WellCut limit lines before.flatten

theorem cuts_concat {chunks : List Text} {chunk : Text}
    (hCuts : ∀ before, before <+: chunks → WellCut limit lines before.flatten)
    (hLast : WellCut limit lines (chunks ++ [chunk]).flatten) :
    ∀ before, before <+: chunks ++ [chunk] → WellCut limit lines before.flatten := by
  intro before hBefore
  rcases List.prefix_concat_iff.mp hBefore with rfl | hOld
  · exact hLast
  · exact hCuts before hOld

theorem Cutting.cut (hCutting : Cutting limit lines sp) (hHere : WellCut limit lines sp.taken) :
    Cutting limit lines sp.cut := by
  unfold Splitting.cut
  split
  · exact hCutting
  · refine ⟨fun chunk hMem => ?_, Nat.zero_le _, cuts_concat hCutting.cuts ?_⟩
    · rcases List.mem_append.mp hMem with hOld | hNew
      · exact hCutting.fits chunk hOld
      · obtain rfl := List.mem_singleton.mp hNew
        exact hCutting.current
    · rw [List.flatten_append, List.flatten_singleton]
      exact hHere

/-- Where a part of a line that does not fit has been taken, a cut is good. -/
theorem wellCut_part {part : Text} (hLine : line = part ++ rest) (hLong : limit < line.length) :
    WellCut limit (lines ++ [line]) (lines.flatten ++ part) :=
  ⟨lines, [line], part, rfl, rfl, fun _ => ⟨line, [], rfl, hLine ▸ List.prefix_append _ _, hLong⟩⟩

/-- A long line is cut hard, and all cuts are inside it or in front of it. -/
theorem Cutting.cutHard (part : Text) (rounds : Nat)
    (hCutting : Cutting limit (lines ++ [line]) sp) (hTaken : sp.taken = lines.flatten ++ part)
    (hLine : line = part ++ rest) :
    Cutting limit (lines ++ [line]) (cutHard limit rounds sp rest).1 := by
  induction rounds generalizing sp part rest with
  | zero => exact hCutting
  | succ rounds ih =>
      by_cases hLong : limit < rest.length
      · -- The line does not fit, as its rest does not, and so every cut in it is allowed.
        have hLineLong : limit < line.length := by
          rw [hLine, List.length_append]
          omega
        have hCut := hCutting.cut (hTaken ▸ wellCut_part hLine hLineLong)
        have hCutTaken : sp.cut.chunks.flatten = lines.flatten ++ part := by
          rw [← hTaken, ← taken_cut sp, taken, current_cut, List.append_nil]
        have hLine' : line = (part ++ rest.take limit) ++ rest.drop limit := by
          rw [List.append_assoc, List.take_append_drop, hLine]
        have hTaken' : (sp.cut.chunks ++ [rest.take limit]).flatten =
            lines.flatten ++ (part ++ rest.take limit) := by
          rw [List.flatten_append, List.flatten_singleton, hCutTaken, List.append_assoc]
        rw [cutHard_of_long hLong]
        refine ih _ ⟨fun chunk hMem => ?_, hCut.current, cuts_concat hCut.cuts ?_⟩ ?_ hLine'
        · rcases List.mem_append.mp hMem with hOld | hNew
          · exact hCut.fits chunk hOld
          · obtain rfl := List.mem_singleton.mp hNew
            exact List.length_take_le limit rest
        · rw [hTaken']
          exact wellCut_part hLine' hLineLong
        · rw [taken, current_cut, List.append_nil, hTaken']
      · rw [cutHard_of_short hLong]
        exact hCutting

/-- The next line keeps the chunks well cut. -/
theorem Cutting.addLine (hLimit : 0 < limit) (hCutting : Cutting limit lines sp)
    (hTaken : sp.taken = lines.flatten) (line : Text) :
    Cutting limit (lines ++ [line]) (sp.addLine limit line) := by
  have hMore : Cutting limit (lines ++ [line]) sp :=
    ⟨hCutting.fits, hCutting.current, fun before hBefore => (hCutting.cuts before hBefore).append _⟩
  have hHard : Cutting limit (lines ++ [line]) (Splitting.cutHard limit line.length sp line).1 :=
    hMore.cutHard [] line.length (by rw [hTaken, List.append_nil]) rfl
  rw [addLine_eq]
  rcases cutHard_rest hLimit sp (Nat.le_refl line.length) with
    ⟨hWhole, hFits⟩ | ⟨hCurrent, hFits, -, -⟩
  · -- The line fits: it joins what is there, or what is there is cut off in front of it.
    rw [hWhole]
    unfold join
    split
    · refine ⟨fun chunk hMem => ?_, hFits, cuts_concat hMore.cuts ?_⟩
      · rcases List.mem_append.mp hMem with hOld | hNew
        · exact hCutting.fits chunk hOld
        · obtain rfl := List.mem_singleton.mp hNew
          exact hCutting.current
      · rw [List.flatten_append, List.flatten_singleton]
        exact (wellCut_lines hTaken).append _
    · refine ⟨hMore.fits, ?_, hMore.cuts⟩
      rw [List.length_append]
      omega
  · -- The line was cut hard, and its rest starts the next chunk.
    unfold join
    rw [hCurrent, List.length_nil, Nat.zero_add, if_neg (Nat.not_lt.mpr hFits), List.nil_append]
    exact ⟨hHard.fits, hFits, hHard.cuts⟩

theorem Cutting.foldl (hLimit : 0 < limit) (hCutting : Cutting limit lines sp)
    (hTaken : sp.taken = lines.flatten) (more : List Text) :
    Cutting limit (lines ++ more) (more.foldl (Splitting.addLine limit) sp) := by
  induction more generalizing lines sp with
  | nil =>
      rw [List.append_nil]
      exact hCutting
  | cons line more ih =>
      have hRest := ih (hCutting.addLine hLimit hTaken line)
        (by rw [taken_addLine, hTaken, List.flatten_append, List.flatten_singleton])
      rwa [List.append_assoc] at hRest

end Splitting

/-! ## The chunks of a text -/

section Chunks

variable {limit : Nat} {text : Text}

theorem rawChunks_cutting (hLimit : 0 < limit) (text : Text) :
    (∀ chunk ∈ rawChunks limit text, chunk.length ≤ limit) ∧
      ∀ before, before <+: rawChunks limit text →
        WellCut limit (splitLines text) before.flatten := by
  have hEmpty : Splitting.Cutting limit [] {} := by
    refine ⟨fun _ hMem => absurd hMem List.not_mem_nil, Nat.zero_le _, fun before hBefore => ?_⟩
    obtain rfl := List.prefix_nil.mp hBefore
    exact wellCut_lines rfl
  have hAll := hEmpty.foldl hLimit rfl (splitLines text)
  rw [List.nil_append] at hAll
  have hCut := hAll.cut (wellCut_lines (by rw [taken_foldl]; rfl))
  exact ⟨hCut.fits, hCut.cuts⟩

/-- The lines of a text without anything but line breaks. -/
theorem splitLines_of_blank (hBlank : ∀ c ∈ text, c = '\n') :
    splitLines text = text.map fun c => [c] := by
  induction text with
  | nil => rfl
  | cons c rest ih =>
      obtain rfl := hBlank c List.mem_cons_self
      rw [splitLines_of_break rfl (fun _ hReturn => by cases hReturn),
        ih fun c hMem => hBlank c (List.mem_cons_of_mem _ hMem), List.map_cons]

theorem wellCut_of_blank (hBlank : ∀ c ∈ text, c = '\n') {start : Text} (hStart : start <+: text) :
    WellCut limit (splitLines text) start := by
  obtain ⟨rest, rfl⟩ := hStart
  rw [splitLines_of_blank hBlank, List.map_append]
  exact (wellCut_lines (List.flatMap_singleton' start).symm).append _

theorem splitWell_of_pieces {pieces chunks : List Text}
    (hFits : ∀ chunk ∈ chunks, chunk ≠ [] ∧ chunk.length ≤ limit) (hPieces : pieces.flatten = text)
    (hTrims : Trims pieces chunks)
    (hCuts : ∀ before, before <+: pieces → WellCut limit (splitLines text) before.flatten) :
    SplitWell limit text chunks := by
  refine ⟨hFits, pieces, hPieces, hTrims, fun before after line hSplit hInside => ?_⟩
  exact (hCuts before (hSplit ▸ List.prefix_append before after)).inside hInside

/-- The chunks of a text are well cut. -/
theorem splitMarkdown_splitWell (hLimit : 0 < limit) (hText : text ≠ []) :
    SplitWell limit text (splitMarkdown limit text) := by
  have hSome : ∀ chunk ∈ splitMarkdown limit text, chunk ≠ [] := fun chunk hMem =>
    ne_nil_of_mem_splitMarkdown hLimit hText hMem
  by_cases hShort : text.length ≤ limit
  · -- one piece, which is sent as it is
    have hWhole : Trims [[] ++ text ++ []] [text] := .chunk (by simp) (by simp) .nil
    rw [List.nil_append, List.append_nil] at hWhole
    rw [splitMarkdown_of_short hShort] at hSome ⊢
    refine splitWell_of_pieces (fun chunk hMem => ⟨hSome chunk hMem, ?_⟩) List.flatten_singleton
      hWhole fun before hBefore => ?_
    · obtain rfl := List.mem_singleton.mp hMem
      exact hShort
    · rcases List.prefix_concat_iff.mp (show before <+: [] ++ [text] from hBefore) with rfl | hNil
      · exact wellCut_lines (by rw [flatten_splitLines]; simp)
      · obtain rfl := List.prefix_nil.mp hNil
        exact (wellCut_lines rfl : WellCut limit [] _).append (splitLines text)
  · obtain ⟨hFits, hCuts⟩ := rawChunks_cutting hLimit text
    by_cases hNone : trimmed (rawChunks limit text) = []
    · -- line breaks only, of which one message is sent
      have hBlank : ∀ c ∈ text, c = '\n' := by
        have hAll := blank_of_trimmed_eq_nil hNone
        rwa [flatten_rawChunks] at hAll
      have hRest : Trims [text.drop limit] [] :=
        .blank (fun c hMem => hBlank c (List.mem_of_mem_drop hMem)) .nil
      have hFirst : Trims [[] ++ text.take limit ++ [], text.drop limit] [text.take limit] :=
        .chunk (by simp) (by simp) hRest
      rw [List.nil_append, List.append_nil] at hFirst
      rw [splitMarkdown_of_long (Nat.lt_of_not_le hShort), if_pos hNone] at hSome ⊢
      refine splitWell_of_pieces (fun chunk hMem => ⟨hSome chunk hMem, ?_⟩) ?_ hFirst
        fun before hBefore => wellCut_of_blank hBlank ?_
      · obtain rfl := List.mem_singleton.mp hMem
        exact List.length_take_le limit text
      · simp
      · obtain ⟨after, hAfter⟩ := hBefore
        have hFlatten := congrArg List.flatten hAfter
        rw [List.flatten_append] at hFlatten
        refine ⟨after.flatten, hFlatten.trans ?_⟩
        simp
    · rw [splitMarkdown_of_long (Nat.lt_of_not_le hShort), if_neg hNone] at hSome ⊢
      refine splitWell_of_pieces (fun chunk hMem => ⟨hSome chunk hMem, ?_⟩)
        (flatten_rawChunks limit text) (trims_trimmed _) hCuts
      -- What is sent of a raw chunk is no longer than the chunk.
      obtain ⟨raw, hRaw, rfl⟩ := List.mem_map.mp (List.mem_filter.mp hMem).1
      exact (length_stripNewlines raw).trans (hFits raw hRaw)

/-- A text is split without loss, and what has been sent of it stays when it grows. -/
theorem splitMarkdown_lossless_stable {limit : Nat} {text : Text} (hLimit : 0 < limit)
    (hText : text ≠ []) :
    SplitWell limit text (splitMarkdown limit text) ∧
      ∀ more, (splitMarkdown limit text).dropLast <+: splitMarkdown limit (text ++ more) :=
  ⟨splitMarkdown_splitWell hLimit hText, fun more => (splitMarkdown_append hLimit text more).1⟩

theorem splitMarkdown_lossless_stable_list :
    SplitWell 4 "- a\n- b".toList (splitMarkdown 4 "- a\n- b".toList) ∧
      (splitMarkdown 4 "- a\n- b".toList).dropLast <+: splitMarkdown 4 "- a\n- b and c".toList :=
  have hText : "- a\n- b".toList ≠ [] := by decide
  have hBoth := splitMarkdown_lossless_stable (by decide : 0 < 4) hText
  ⟨hBoth.1, hBoth.2 " and c".toList⟩

end Chunks

end Telegram
end OctoForge
