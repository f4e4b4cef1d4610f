import OctoForge.Telegram.Bridge

/-!
# Chunks of a growing text

A text that grows at its end keeps its chunks, except for the last one: where a cut
falls depends on the lines before it and on how the line it falls before begins.
-/

namespace OctoForge
namespace Telegram

/-! ## Lines -/

theorem flatten_splitLines (text : Text) : (splitLines text).flatten = text := by
  fun_induction splitLines text with
  | case1 => rfl
  | case2 rest ih => simp [ih]
  | case3 c rest _ hBreak ih => simp [ih]
  | case4 c rest _ hNoBreak hRest ih =>
      rw [hRest] at ih
      simpa using ih
  | case5 c rest _ hNoBreak line lines hRest ih =>
      rw [hRest] at ih
      simpa using ih

theorem splitLines_ne_nil {text : Text} (hText : text ≠ []) : splitLines text ≠ [] := by
  intro hNone
  have hFlatten := flatten_splitLines text
  rw [hNone] at hFlatten
  exact hText hFlatten.symm

theorem splitLines_of_break {c : Char} {rest : Text} (hBreak : isLineBreak c = true)
    (hNot : ∀ rest', c = '\r' → rest = '\n' :: rest' → False) :
    splitLines (c :: rest) = [c] :: splitLines rest := by
  rw [splitLines.eq_3 c rest hNot, if_pos hBreak]

theorem splitLines_of_noBreak {c : Char} {rest line : Text} {lines : List Text}
    (hNoBreak : ¬ isLineBreak c = true) (hRest : splitLines rest = line :: lines) :
    splitLines (c :: rest) = (c :: line) :: lines := by
  have hNot : ∀ rest', c = '\r' → rest = '\n' :: rest' → False := by
    rintro rest' rfl -
    exact hNoBreak rfl
  rw [splitLines.eq_3 c rest hNot, if_neg hNoBreak, hRest]

theorem splitLines_head (c : Char) (rest : Text) :
    ∃ line lines, splitLines (c :: rest) = line :: lines ∧ [c] <+: line := by
  by_cases hReturn : c = '\r' ∧ ∃ rest', rest = '\n' :: rest'
  · obtain ⟨rfl, rest', rfl⟩ := hReturn
    exact ⟨['\r', '\n'], splitLines rest', rfl, List.prefix_append ['\r'] ['\n']⟩
  · have hNot : ∀ rest', c = '\r' → rest = '\n' :: rest' → False :=
      fun rest' hC hRest => hReturn ⟨hC, rest', hRest⟩
    by_cases hBreak : isLineBreak c = true
    · exact ⟨[c], splitLines rest, splitLines_of_break hBreak hNot, List.prefix_rfl⟩
    · cases hRest : splitLines rest with
      | nil =>
          refine ⟨[c], [], ?_, List.prefix_rfl⟩
          rw [splitLines.eq_3 c rest hNot, if_neg hBreak, hRest]
      | cons line lines =>
          exact ⟨c :: line, lines, splitLines_of_noBreak hBreak hRest, List.prefix_append [c] line⟩

/-- A longer text has the same lines up to the last one, which may go on. -/
theorem splitLines_append {text : Text} (hText : text ≠ []) (more : Text) :
    ∃ lines line line' rest, splitLines text = lines ++ [line] ∧
      splitLines (text ++ more) = lines ++ line' :: rest ∧ line <+: line' ∧ line ≠ [] := by
  fun_induction splitLines text with
  | case1 => exact absurd rfl hText
  | case2 rest ih =>
      by_cases hRest : rest = []
      · subst hRest
        exact ⟨[], ['\r', '\n'], ['\r', '\n'], splitLines more, rfl, rfl, List.prefix_rfl,
          List.cons_ne_nil _ _⟩
      · obtain ⟨lines, line, line', others, hLines, hMore, hPrefix, hSome⟩ := ih hRest
        refine ⟨['\r', '\n'] :: lines, line, line', others, ?_, ?_, hPrefix, hSome⟩
        · rw [hLines, List.cons_append]
        · rw [List.cons_append, List.cons_append, splitLines, hMore, List.cons_append]
  | case3 c rest hNot hBreak ih =>
      by_cases hRest : rest = []
      · subst hRest
        obtain ⟨line', others, hMore, hPrefix⟩ := splitLines_head c more
        exact ⟨[], [c], line', others, rfl, hMore, hPrefix, List.cons_ne_nil _ _⟩
      · obtain ⟨lines, line, line', others, hLines, hMore, hPrefix, hSome⟩ := ih hRest
        refine ⟨[c] :: lines, line, line', others, ?_, ?_, hPrefix, hSome⟩
        · rw [hLines, List.cons_append]
        · have hNot' : ∀ rest', c = '\r' → rest ++ more = '\n' :: rest' → False := by
            intro rest' hReturn hFeed
            obtain ⟨d, tail, rfl⟩ := List.exists_cons_of_ne_nil hRest
            obtain ⟨rfl, -⟩ := List.cons.inj hFeed
            exact hNot tail hReturn rfl
          rw [List.cons_append, splitLines_of_break hBreak hNot', hMore, List.cons_append]
  | case4 c rest hNot hNoBreak hRest ih =>
      -- no line is left, so the character is the last one
      obtain rfl : rest = [] := by
        by_contra hSome
        exact splitLines_ne_nil hSome hRest
      obtain ⟨line', others, hMore, hPrefix⟩ := splitLines_head c more
      exact ⟨[], [c], line', others, rfl, hMore, hPrefix, List.cons_ne_nil _ _⟩
  | case5 c rest hNot hNoBreak line lines hRest ih =>
      have hSomeRest : rest ≠ [] := by
        rintro rfl
        simp [splitLines] at hRest
      obtain ⟨before, last, last', others, hLines, hMore, hPrefix, hSome⟩ := ih hSomeRest
      rw [hRest] at hLines
      cases before with
      | nil =>
          obtain ⟨rfl, rfl⟩ := List.cons.inj hLines
          exact ⟨[], c :: line, c :: last', others, rfl, splitLines_of_noBreak hNoBreak hMore,
            (List.prefix_cons_inj c).mpr hPrefix, List.cons_ne_nil _ _⟩
      | cons first before =>
          obtain ⟨rfl, rfl⟩ := List.cons.inj hLines
          exact ⟨(c :: line) :: before, last, last', others, rfl,
            splitLines_of_noBreak hNoBreak hMore, hPrefix, hSome⟩

/-! ## The cuts -/

namespace Splitting

variable {limit : Nat} {sp : Splitting}

/-- The text that has been taken in. -/
def taken (sp : Splitting) : Text := sp.chunks.flatten ++ sp.current

theorem taken_cut (sp : Splitting) : sp.cut.taken = sp.taken := by
  unfold cut
  split
  · rfl
  · simp [taken]

theorem chunks_prefix_cut (sp : Splitting) : sp.chunks <+: sp.cut.chunks := by
  unfold cut
  split
  · exact List.prefix_rfl
  · exact List.prefix_append _ _

theorem current_cut (sp : Splitting) : sp.cut.current = [] := by
  unfold cut
  split
  · rename_i hNone
    exact hNone
  · rfl

theorem cutHard_of_long {rounds : Nat} {rest : Text} (hLong : limit < rest.length) :
    cutHard limit (rounds + 1) sp rest =
      cutHard limit rounds
        { chunks := sp.cut.chunks ++ [rest.take limit], current := sp.cut.current }
        (rest.drop limit) := by
  rw [cutHard, if_pos hLong]

theorem cutHard_of_short {rounds : Nat} {rest : Text} (hShort : ¬ limit < rest.length) :
    cutHard limit (rounds + 1) sp rest = (sp, rest) := by
  rw [cutHard, if_neg hShort]

theorem taken_cutHard (rounds : Nat) (sp : Splitting) (rest : Text) :
    (cutHard limit rounds sp rest).1.taken ++ (cutHard limit rounds sp rest).2 = sp.taken ++ rest := by
  induction rounds generalizing sp rest with
  | zero => rfl
  | succ rounds ih =>
      by_cases hLong : limit < rest.length
      · have hTaken := taken_cut sp
        rw [taken, current_cut, List.append_nil] at hTaken
        rw [cutHard_of_long hLong, ih, ← hTaken]
        simp [taken, current_cut]
      · rw [cutHard_of_short hLong]

theorem chunks_prefix_cutHard (rounds : Nat) (sp : Splitting) (rest : Text) :
    sp.chunks <+: (cutHard limit rounds sp rest).1.chunks := by
  induction rounds generalizing sp rest with
  | zero => exact List.prefix_rfl
  | succ rounds ih =>
      by_cases hLong : limit < rest.length
      · rw [cutHard_of_long hLong]
        have hRest := ih { chunks := sp.cut.chunks ++ [rest.take limit], current := sp.cut.current }
          (rest.drop limit)
        exact ((chunks_prefix_cut sp).trans (List.prefix_append _ _)).trans hRest
      · simp only [cutHard_of_short hLong, List.prefix_rfl]

/-- What is left of a line that was cut starts a chunk and fits in it. -/
theorem cutHard_rest (hLimit : 0 < limit) {rounds : Nat} {rest : Text} (sp : Splitting)
    (hRounds : rest.length ≤ rounds) :
    (cutHard limit rounds sp rest = (sp, rest) ∧ rest.length ≤ limit) ∨
    ((cutHard limit rounds sp rest).1.current = [] ∧
      (cutHard limit rounds sp rest).2.length ≤ limit ∧ limit < rest.length ∧
      sp.cut.chunks <+: (cutHard limit rounds sp rest).1.chunks) := by
  induction rounds generalizing sp rest with
  | zero =>
      refine Or.inl ⟨rfl, ?_⟩
      omega
  | succ rounds ih =>
      by_cases hLong : limit < rest.length
      · rw [cutHard_of_long hLong]
        right
        have hShort : (rest.drop limit).length ≤ rounds := by
          rw [List.length_drop]
          omega
        have hGrows : sp.cut.chunks <+: sp.cut.chunks ++ [rest.take limit] :=
          List.prefix_append _ _
        rcases ih { chunks := sp.cut.chunks ++ [rest.take limit], current := sp.cut.current } hShort with
          ⟨hDone, hFits⟩ | ⟨hCurrent, hFits, -, hChunks⟩
        · rw [hDone]
          exact ⟨current_cut sp, hFits, hLong, hGrows⟩
        · refine ⟨hCurrent, hFits, hLong, hGrows.trans ?_⟩
          exact (chunks_prefix_cut _).trans hChunks
      · rw [cutHard_of_short hLong]
        exact Or.inl ⟨rfl, by omega⟩

theorem cutHard_rest_ne_nil {rounds : Nat} {rest : Text} (sp : Splitting) (hRest : rest ≠ []) :
    (cutHard limit rounds sp rest).2 ≠ [] := by
  induction rounds generalizing sp rest with
  | zero => exact hRest
  | succ rounds ih =>
      by_cases hLong : limit < rest.length
      · rw [cutHard_of_long hLong]
        refine ih _ fun hNone => ?_
        rw [List.drop_eq_nil_iff] at hNone
        omega
      · rw [cutHard_of_short hLong]
        exact hRest

/-- A longer line is cut in the same places. -/
theorem cutHard_isPrefix {rounds rounds' : Nat} {rest rest' : Text} (sp : Splitting)
    (hRounds : rounds ≤ rounds') (hPrefix : rest <+: rest') :
    (cutHard limit rounds sp rest).1.chunks <+: (cutHard limit rounds' sp rest').1.chunks := by
  induction rounds generalizing sp rest rest' rounds' with
  | zero => exact chunks_prefix_cutHard rounds' sp rest'
  | succ rounds ih =>
      have hLength := hPrefix.length_le
      by_cases hLong : limit < rest.length
      · obtain ⟨others, rfl⟩ : ∃ n, rounds' = n + 1 := ⟨rounds' - 1, by omega⟩
        obtain ⟨more, rfl⟩ := hPrefix
        rw [cutHard_of_long hLong, cutHard_of_long (Nat.lt_of_lt_of_le hLong hLength),
          List.take_append_of_le_length (by omega), List.drop_append_of_le_length (by omega)]
        exact ih _ (by omega) (List.prefix_append _ _)
      · rw [cutHard_of_short hLong]
        exact chunks_prefix_cutHard rounds' sp rest'

theorem addLine_eq (sp : Splitting) (line : Text) :
    sp.addLine limit line =
      (cutHard limit line.length sp line).1.join limit (cutHard limit line.length sp line).2 := rfl

theorem taken_join (sp : Splitting) (rest : Text) : (sp.join limit rest).taken = sp.taken ++ rest := by
  unfold join
  split
  · simp [taken]
  · simp [taken]

theorem taken_addLine (sp : Splitting) (line : Text) :
    (sp.addLine limit line).taken = sp.taken ++ line := by
  rw [addLine_eq, taken_join, taken_cutHard]

theorem chunks_prefix_join (sp : Splitting) (rest : Text) :
    sp.chunks <+: (sp.join limit rest).chunks := by
  unfold join
  split
  · exact List.prefix_append _ _
  · exact List.prefix_rfl

theorem chunks_prefix_addLine (sp : Splitting) (line : Text) :
    sp.chunks <+: (sp.addLine limit line).chunks := by
  rw [addLine_eq]
  exact (chunks_prefix_cutHard _ _ _).trans (chunks_prefix_join _ _)

theorem current_join_ne_nil (sp : Splitting) {rest : Text} (hRest : rest ≠ []) :
    (sp.join limit rest).current ≠ [] := by
  unfold join
  split
  · exact hRest
  · simp [hRest]

/-- A longer line begins its chunk in the same place. -/
theorem addLine_isPrefix (hLimit : 0 < limit) (sp : Splitting) {line line' : Text}
    (hPrefix : line <+: line') :
    (sp.addLine limit line).chunks <+: (sp.addLine limit line').chunks := by
  have hLength := hPrefix.length_le
  rw [addLine_eq, addLine_eq]
  rcases cutHard_rest hLimit sp (Nat.le_refl line.length) with
    ⟨hWhole, hFits⟩ | ⟨hCurrent, hFits, hLong, -⟩
  · rw [hWhole]
    rcases cutHard_rest hLimit sp (Nat.le_refl line'.length) with
      ⟨hWhole', -⟩ | ⟨-, -, -, hChunks⟩
    · rw [hWhole']
      simp only [join]
      split
      · have hOver : limit < sp.current.length + line'.length := by omega
        simp only [if_pos hOver, List.prefix_rfl]
      · split
        · exact List.prefix_append _ _
        · exact List.prefix_rfl
    · -- the longer line is cut, and begins a chunk of its own
      refine List.IsPrefix.trans ?_ (hChunks.trans (chunks_prefix_join _ _))
      simp only [join]
      split
      · rename_i hFull
        have hCurrent : sp.current ≠ [] := by
          intro hNone
          rw [hNone, List.length_nil] at hFull
          omega
        simp only [cut, if_neg hCurrent, List.prefix_rfl]
      · exact chunks_prefix_cut sp
  · have hStays : ((cutHard limit line.length sp line).1.join limit
        (cutHard limit line.length sp line).2).chunks = (cutHard limit line.length sp line).1.chunks := by
      rw [join, if_neg]
      rw [hCurrent, List.length_nil]
      omega
    rw [hStays]
    exact (cutHard_isPrefix sp hLength hPrefix).trans (chunks_prefix_join _ _)

end Splitting

/-! ## The chunks of a text -/

section Chunks

variable {limit : Nat}

theorem taken_foldl (lines : List Text) (sp : Splitting) :
    (lines.foldl (Splitting.addLine limit) sp).taken = sp.taken ++ lines.flatten := by
  induction lines generalizing sp with
  | nil => simp
  | cons line rest ih => rw [List.foldl_cons, ih, Splitting.taken_addLine]; simp

theorem chunks_prefix_foldl (lines : List Text) (sp : Splitting) :
    sp.chunks <+: (lines.foldl (Splitting.addLine limit) sp).chunks := by
  induction lines generalizing sp with
  | nil => exact List.prefix_rfl
  | cons line rest ih => exact (Splitting.chunks_prefix_addLine sp line).trans (ih _)

theorem flatten_rawChunks (limit : Nat) (text : Text) : (rawChunks limit text).flatten = text := by
  have hTaken := Splitting.taken_cut ((splitLines text).foldl (Splitting.addLine limit) {})
  rw [taken_foldl, flatten_splitLines, Splitting.taken, Splitting.current_cut, List.append_nil]
    at hTaken
  exact hTaken

/-- A longer text has the same raw chunks up to the last one. -/
theorem rawChunks_append (hLimit : 0 < limit) {text : Text} (hText : text ≠ []) (more : Text) :
    ∃ chunks last rest, rawChunks limit text = chunks ++ [last] ∧
      rawChunks limit (text ++ more) = chunks ++ rest := by
  obtain ⟨lines, line, line', others, hLines, hMore, hPrefix, hSome⟩ := splitLines_append hText more
  have hFold : (splitLines text).foldl (Splitting.addLine limit) {} =
      (lines.foldl (Splitting.addLine limit) {}).addLine limit line := by
    rw [hLines, List.foldl_append, List.foldl_cons, List.foldl_nil]
  have hCurrent : ((lines.foldl (Splitting.addLine limit) {}).addLine limit line).current ≠ [] := by
    rw [Splitting.addLine_eq]
    exact Splitting.current_join_ne_nil _ (Splitting.cutHard_rest_ne_nil _ hSome)
  have hGrows : ((lines.foldl (Splitting.addLine limit) {}).addLine limit line).chunks <+:
      rawChunks limit (text ++ more) := by
    rw [rawChunks, hMore, List.foldl_append, List.foldl_cons]
    exact ((Splitting.addLine_isPrefix hLimit _ hPrefix).trans (chunks_prefix_foldl _ _)).trans
      (Splitting.chunks_prefix_cut _)
  obtain ⟨rest, hRest⟩ := hGrows
  refine ⟨_, ((lines.foldl (Splitting.addLine limit) {}).addLine limit line).current, rest, ?_,
    hRest.symm⟩
  rw [rawChunks, hFold, Splitting.cut, if_neg hCurrent]

/-! ## The chunks as they are sent -/

/-- The chunks without those that are blank. -/
def trimmed (chunks : List Text) : List Text := (chunks.map stripNewlines).filter (· ≠ [])

theorem trimmed_append (chunks more : List Text) :
    trimmed (chunks ++ more) = trimmed chunks ++ trimmed more := by
  simp [trimmed]

theorem splitMarkdown_of_short {text : Text} (hShort : text.length ≤ limit) :
    splitMarkdown limit text = [text] := if_pos hShort

theorem splitMarkdown_of_long {text : Text} (hLong : limit < text.length) :
    splitMarkdown limit text =
      if trimmed (rawChunks limit text) = [] then [text.take limit] else trimmed (rawChunks limit text) := by
  rw [splitMarkdown, if_neg (by omega), ← trimmed]
  split
  · rename_i hNone
    rw [if_pos hNone]
  · rename_i hSome
    rw [if_neg hSome]

theorem splitMarkdown_ne_nil (limit : Nat) (text : Text) : splitMarkdown limit text ≠ [] := by
  by_cases hShort : text.length ≤ limit
  · rw [splitMarkdown_of_short hShort]
    exact List.cons_ne_nil _ _
  · rw [splitMarkdown_of_long (by omega)]
    split
    · exact List.cons_ne_nil _ _
    · rename_i hSome
      exact hSome

theorem ne_nil_of_mem_splitMarkdown (hLimit : 0 < limit) {text chunk : Text} (hText : text ≠ [])
    (hMem : chunk ∈ splitMarkdown limit text) : chunk ≠ [] := by
  by_cases hShort : text.length ≤ limit
  · rw [splitMarkdown_of_short hShort] at hMem
    obtain rfl := List.mem_singleton.mp hMem
    exact hText
  · rw [splitMarkdown_of_long (by omega)] at hMem
    split at hMem
    · obtain rfl := List.mem_singleton.mp hMem
      intro hNone
      rcases List.take_eq_nil_iff.mp hNone with hZero | hNil
      · omega
      · exact hText hNil
    · exact of_decide_eq_true (List.mem_filter.mp hMem).2

/-- A chunk is blank when there is nothing but line breaks in it. -/
theorem stripNewlines_eq_nil_iff {text : Text} : stripNewlines text = [] ↔ ∀ c ∈ text, c = '\n' := by
  rw [stripNewlines, rstripNewlines, List.rdropWhile_eq_nil_iff]
  induction text with
  | nil => simp
  | cons c rest ih =>
      by_cases hBreak : c = '\n'
      · simpa [hBreak] using ih
      · simp [hBreak]

theorem trimmed_singleton {chunk : Text} (hSome : stripNewlines chunk ≠ []) :
    trimmed [chunk] = [stripNewlines chunk] := by
  simp [trimmed, hSome]

/-- Of chunks that make up a text with more than line breaks in it, one is not blank. -/
theorem trimmed_ne_nil {chunks : List Text} {c : Char} (hMem : c ∈ chunks.flatten) (hC : c ≠ '\n') :
    trimmed chunks ≠ [] := by
  obtain ⟨chunk, hChunk, hIn⟩ := List.mem_flatten.mp hMem
  have hSome : stripNewlines chunk ≠ [] := fun hNone => hC (stripNewlines_eq_nil_iff.mp hNone c hIn)
  refine List.ne_nil_of_mem (a := stripNewlines chunk) (List.mem_filter.mpr ⟨?_, by simpa using hSome⟩)
  exact List.mem_map_of_mem hChunk

/-- A text that goes on keeps its chunks up to the last one, and gets no fewer. -/
theorem splitMarkdown_append (hLimit : 0 < limit) (text more : Text) :
    (splitMarkdown limit text).dropLast <+: splitMarkdown limit (text ++ more) ∧
      (splitMarkdown limit text).length ≤ (splitMarkdown limit (text ++ more)).length := by
  have hSome := List.length_pos_of_ne_nil (splitMarkdown_ne_nil limit (text ++ more))
  by_cases hShort : text.length ≤ limit
  · rw [splitMarkdown_of_short hShort]
    exact ⟨List.nil_prefix, hSome⟩
  · have hText : text ≠ [] := by
      rintro rfl
      simp at hShort
    obtain ⟨chunks, last, rest, hRaw, hRaw'⟩ := rawChunks_append hLimit hText more
    have hRest : rest.flatten = last ++ more := by
      have hFlatten := flatten_rawChunks limit text
      have hFlatten' := flatten_rawChunks limit (text ++ more)
      rw [hRaw, List.flatten_append] at hFlatten
      rw [hRaw', List.flatten_append, ← hFlatten, List.append_assoc] at hFlatten'
      simpa using List.append_cancel_left hFlatten'
    rw [splitMarkdown_of_long (Nat.lt_of_not_le hShort), hRaw]
    split
    · exact ⟨List.nil_prefix, hSome⟩
    · rename_i hTrimmed
      have hLong : limit < (text ++ more).length := by
        rw [List.length_append]
        omega
      by_cases hBlank : stripNewlines last = []
      · -- the chunk that may go on is blank so far
        have hLast : trimmed [last] = [] := by simp [trimmed, hBlank]
        rw [trimmed_append, hLast, List.append_nil] at hTrimmed ⊢
        rw [splitMarkdown_of_long hLong, hRaw', trimmed_append, if_neg (by simp [hTrimmed]),
          List.length_append]
        exact ⟨(List.dropLast_prefix _).trans (List.prefix_append _ _), Nat.le_add_right _ _⟩
      -- The last chunk has something to show, and so has what it grows to.
      · obtain ⟨c, hMem, hC⟩ : ∃ c ∈ last, c ≠ '\n' := by
          by_contra hNone
          push Not at hNone
          exact hBlank (stripNewlines_eq_nil_iff.mpr hNone)
        have hNew : trimmed rest ≠ [] :=
          trimmed_ne_nil (hRest ▸ List.mem_append_left more hMem) hC
        have hCount := List.length_pos_of_ne_nil hNew
        rw [splitMarkdown_of_long hLong, hRaw', trimmed_append, trimmed_append,
          trimmed_singleton hBlank, if_neg (by simp [hNew]), List.dropLast_concat,
          List.length_append, List.length_append, List.length_singleton]
        exact ⟨List.prefix_append _ _, by omega⟩

end Chunks

end Telegram
end OctoForge
