import Mathlib.Data.List.Forall2
import OctoForge.Text

/-!
# LIKE

The pattern matching of SQL.  Two characters are the same to a database when its folding takes
them to one: the identity, or the lower case of the letters of ASCII.
-/

namespace OctoForge
namespace Like

inductive Token where
  /-- `%`. -/
  | any
  /-- `_`. -/
  | one
  | char (c : Char)
  deriving DecidableEq, Repr

/-- The tokens of a pattern.  The escape character makes a character stand for itself. -/
def tokens (escape : Char) : Text → List Token
  | [] => []
  | [c] => if c = '%' then [.any] else if c = '_' then [.one] else [.char c]
  | c :: d :: rest =>
      if c = escape then .char d :: tokens escape rest
      else if c = '%' then .any :: tokens escape (d :: rest)
      else if c = '_' then .one :: tokens escape (d :: rest)
      else .char c :: tokens escape (d :: rest)

def accepts (fold : Char → Char) : List Token → Text → Bool
  | [], t => t.isEmpty
  | .any :: rest, t => t.tails.any (accepts fold rest)
  | .one :: _, [] => false
  | .one :: rest, _ :: t => accepts fold rest t
  | .char _ :: _, [] => false
  | .char c :: rest, d :: t => fold c == fold d && accepts fold rest t

/-- `t LIKE pattern ESCAPE escape`. -/
def like (fold : Char → Char) (escape : Char) (pattern t : Text) : Bool :=
  accepts fold (tokens escape pattern) t

/-- The characters that have a meaning of their own, with the escape character before them. -/
def autoescape (escape : Char) (t : Text) : Text :=
  t.flatMap fun c => if c = escape ∨ c = '%' ∨ c = '_' then [escape, c] else [c]

/-- `startswith(start, autoescape=True)`. -/
def startsWith (fold : Char → Char) (start t : Text) : Bool :=
  like fold '/' (autoescape '/' start ++ ['%']) t

/-! ## A literal start -/

variable {fold : Char → Char} {escape : Char} {start t : Text}

theorem tokens_cons_of_ne {c : Char} (hEscape : c ≠ escape) (hAny : c ≠ '%') (hOne : c ≠ '_')
    (rest : Text) : tokens escape (c :: rest) = .char c :: tokens escape rest := by
  cases rest with
  | nil => simp [tokens, hAny, hOne]
  | cons d rest => simp [tokens, hEscape, hAny, hOne]

/-- An escaped text stands for its own characters. -/
theorem tokens_autoescape_append (start rest : Text) :
    tokens escape (autoescape escape start ++ rest) = start.map .char ++ tokens escape rest := by
  induction start with
  | nil => rfl
  | cons c start ih =>
      by_cases hSpecial : c = escape ∨ c = '%' ∨ c = '_'
      · have hEscaped : autoescape escape (c :: start) =
            escape :: c :: autoescape escape start := by
          simp [autoescape, hSpecial]
        rw [hEscaped, List.cons_append, List.cons_append, tokens, if_pos rfl, ih]
        rfl
      · have hPlain : autoescape escape (c :: start) = c :: autoescape escape start := by
          simp [autoescape, hSpecial]
        obtain ⟨hEscape, hAny, hOne⟩ : c ≠ escape ∧ c ≠ '%' ∧ c ≠ '_' := by simpa using hSpecial
        rw [hPlain, List.cons_append, tokens_cons_of_ne hEscape hAny hOne, ih]
        rfl

theorem accepts_any (t : Text) : accepts fold [.any] t = true := by
  rw [accepts, List.any_eq_true]
  exact ⟨[], (List.mem_tails [] t).mpr List.nil_suffix, rfl⟩

/-- A text starts with another one, up to the folding. -/
theorem accepts_start (start t : Text) :
    accepts fold (start.map .char ++ [.any]) t = true ↔ start.map fold <+: t.map fold := by
  induction start generalizing t with
  | nil => simp [accepts_any]
  | cons c start ih =>
      cases t with
      | nil => simp [accepts]
      | cons d t => simp [accepts, ih, List.cons_prefix_cons]

theorem startsWith_iff : startsWith fold start t = true ↔ start.map fold <+: t.map fold := by
  rw [startsWith, like, tokens_autoescape_append]
  exact accepts_start start t

theorem startsWith_of_prefix (hStart : start <+: t) : startsWith fold start t = true :=
  startsWith_iff.mpr (hStart.map fold)

/-! ## A literal part -/

/-- The characters of a text all stand for themselves. -/
def Plain (escape : Char) (t : Text) : Prop := ∀ c ∈ t, c ≠ escape ∧ c ≠ '%' ∧ c ≠ '_'

instance (escape : Char) (t : Text) : Decidable (Plain escape t) :=
  inferInstanceAs (Decidable (∀ c ∈ t, c ≠ escape ∧ c ≠ '%' ∧ c ≠ '_'))

/-- A pattern of a part with anything before and after it. -/
def around (part : Text) : Text := ['%'] ++ part ++ ['%']

/-- A shortest text that is accepted, with a character for each `_`. -/
def sample (other : Char) : List Token → Text
  | [] => []
  | .any :: rest => sample other rest
  | .one :: rest => other :: sample other rest
  | .char c :: rest => c :: sample other rest

variable {part : Text} {other : Char}

theorem tokens_plain_append (hPlain : Plain escape part) (rest : Text) :
    tokens escape (part ++ rest) = part.map .char ++ tokens escape rest := by
  induction part with
  | nil => rfl
  | cons c part ih =>
      obtain ⟨hEscape, hAny, hOne⟩ := hPlain c List.mem_cons_self
      have hRest : Plain escape part := fun d hMem => hPlain d (List.mem_cons_of_mem c hMem)
      rw [List.cons_append, tokens_cons_of_ne hEscape hAny hOne, ih hRest]
      rfl

theorem tokens_any_cons (hEscape : escape ≠ '%') (rest : Text) :
    tokens escape ('%' :: rest) = .any :: tokens escape rest := by
  cases rest with
  | nil => rfl
  | cons d rest => simp [tokens, hEscape.symm]

theorem accepts_any_cons (tokens : List Token) (t : Text) :
    accepts fold (.any :: tokens) t = true ↔
      ∃ rest, rest <:+ t ∧ accepts fold tokens rest = true := by
  simp [accepts]

/-- A part with anything before and after it is found where it stands, up to the folding. -/
theorem accepts_part (part t : Text) :
    accepts fold (.any :: (part.map .char ++ [.any])) t = true ↔ part.map fold <:+: t.map fold := by
  rw [accepts_any_cons]
  constructor
  · rintro ⟨rest, hRest, hStart⟩
    exact ((accepts_start part rest).mp hStart).isInfix.trans (hRest.map fold).isInfix
  · intro hPart
    obtain ⟨before, after, hText⟩ := hPart
    refine ⟨t.drop before.length, List.drop_suffix _ t, (accepts_start part _).mpr ⟨after, ?_⟩⟩
    rw [List.map_drop, ← hText, List.append_assoc, List.drop_left]

/-- A part without characters of a meaning is its own pattern. -/
theorem like_around_of_plain (hEscape : escape ≠ '%') (hPlain : Plain escape part) (t : Text) :
    like fold escape (around part) t = true ↔ part.map fold <:+: t.map fold := by
  have hTokens : tokens escape (around part) = .any :: (part.map .char ++ [.any]) := by
    rw [around, List.append_assoc, List.cons_append, List.nil_append, tokens_any_cons hEscape,
      tokens_plain_append hPlain]
    rfl
  rw [like, hTokens]
  exact accepts_part part t

/-- An escaped part is found where the part stands, whatever its characters are. -/
theorem like_around_autoescape (hEscape : escape ≠ '%') (part t : Text) :
    like fold escape (around (autoescape escape part)) t = true ↔
      part.map fold <:+: t.map fold := by
  have hTokens : tokens escape (around (autoescape escape part)) =
      .any :: (part.map .char ++ [.any]) := by
    rw [around, List.append_assoc, List.cons_append, List.nil_append, tokens_any_cons hEscape,
      tokens_autoescape_append]
    rfl
  rw [like, hTokens]
  exact accepts_part part t

theorem accepts_sample (other : Char) (tokens : List Token) :
    accepts fold tokens (sample other tokens) = true := by
  induction tokens with
  | nil => rfl
  | cons token rest ih =>
      cases token with
      | any => exact (accepts_any_cons rest _).mpr ⟨_, List.suffix_rfl, ih⟩
      | one => exact ih
      | char c => simpa [sample, accepts] using ih

/-- What stands before a last `%` has no more characters in a shortest text than in the pattern. -/
theorem length_sample_le (other : Char) : (part : Text) →
    (sample other (tokens escape (part ++ ['%']))).length ≤ part.length
  | [] => by simp [tokens, sample]
  | [c] => by
      show (sample other (tokens escape [c, '%'])).length ≤ 1
      rw [tokens]
      split_ifs <;> simp [tokens, sample]
  | c :: d :: rest => by
      have hRest := length_sample_le other rest
      have hNext := length_sample_le other (d :: rest)
      show (sample other (tokens escape (c :: d :: (rest ++ ['%'])))).length ≤ rest.length + 2
      rw [tokens]
      rw [List.cons_append, List.length_cons] at hNext
      split_ifs <;> simp only [sample, List.length_cons] <;> omega

/-- Only a part without characters of a meaning is a shortest text of its own pattern. -/
theorem plain_of_sample (hOther : fold other ≠ fold '_') (hFold : fold '%' ≠ fold escape) :
    (part : Text) →
    (sample other (tokens escape (part ++ ['%']))).map fold = part.map fold → Plain escape part
  | [], _ => by simp [Plain]
  | [c], hSample => by
      change (sample other (tokens escape [c, '%'])).map fold = [fold c] at hSample
      rw [tokens] at hSample
      split_ifs at hSample with hEscape hAny hOne
      · simp [tokens, sample, hEscape, hFold] at hSample
      · simp [tokens, sample] at hSample
      · simp [tokens, sample, hOne, hOther] at hSample
      · simp [Plain, hEscape, hAny, hOne]
  | c :: d :: rest, hSample => by
      have hRest : (sample other (tokens escape (rest ++ ['%']))).length ≤ rest.length :=
        length_sample_le other rest
      have hNext : (sample other (tokens escape (d :: rest ++ ['%']))).length ≤ rest.length + 1 :=
        length_sample_le other (d :: rest)
      have hLength := congrArg List.length hSample
      change (sample other (tokens escape (c :: d :: (rest ++ ['%'])))).map fold =
        fold c :: (d :: rest).map fold at hSample
      change ((sample other (tokens escape (c :: d :: (rest ++ ['%'])))).map fold).length = _
        at hLength
      rw [tokens] at hSample hLength
      rw [List.cons_append] at hNext
      simp only [List.length_map, List.length_cons] at hLength hNext
      -- An escape or a wildcard makes the shortest text shorter than the part.
      split_ifs at hSample hLength with hEscape hAny hOne
      · simp only [sample, List.length_cons] at hLength
        omega
      · simp only [sample] at hLength
        omega
      · simp [sample, hOne, hOther] at hSample
      · have hTail : Plain escape (d :: rest) :=
          plain_of_sample hOther hFold (d :: rest) (List.cons.inj hSample).2
        intro e hMem
        rcases List.mem_cons.mp hMem with rfl | hThere
        · exact ⟨hEscape, hAny, hOne⟩
        · exact hTail e hThere

/-- A pattern that is a part between two `%` finds the part, and it only, when the part has no
characters of a meaning. -/
theorem like_around_iff (hEscape : escape ≠ '%') (hFold : fold '%' ≠ fold escape) :
    (∀ t, like fold escape (around part) t = true ↔ part.map fold <:+: t.map fold) ↔
      Plain escape part := by
  constructor
  · intro hLike
    obtain ⟨other, hOther⟩ : ∃ other, fold other ≠ fold '_' := by
      by_contra hNone
      push Not at hNone
      exact hFold ((hNone '%').trans (hNone escape).symm)
    have hAccepts : like fold escape (around part)
        (sample other (tokens escape (part ++ ['%']))) = true := by
      rw [like, around, List.append_assoc, List.cons_append, List.nil_append,
        tokens_any_cons hEscape, accepts_any_cons]
      exact ⟨_, List.suffix_rfl, accepts_sample other _⟩
    have hInfix := (hLike _).mp hAccepts
    have hSame := hInfix.eq_of_length_le (by
      rw [List.length_map, List.length_map]
      exact length_sample_le other part)
    exact plain_of_sample hOther hFold part hSame.symm
  · exact fun hPlain t => like_around_of_plain hEscape hPlain t

end Like
end OctoForge
