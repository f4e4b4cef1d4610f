import Mathlib.Algebra.GroupWithZero.Nat
import Mathlib.Data.List.Forall2
import OctoForge.Conversation.Store
import OctoForge.Text

/-!
# Previews of collected material

A preview of some pieces has a budget of characters, and every piece gets an equal share of it.  A
longer piece loses its middle.  The line breaks that join the pieces are no one's share: they fit
into what the shorter pieces leave, or not at all.
-/

namespace OctoForge
namespace Conversation

open Dialog (ExchangeId)

/-- `MATERIAL_DIGEST_ELLIPSIS`. -/
def materialDigestEllipsis : Text := "\n[…]\n".toList

/-- `MATERIAL_DIGEST_MESSAGES`. -/
def materialDigestMessages : Nat := 20

/-- `MATERIAL_DIGEST_CHARS`. -/
def materialDigestChars : Nat := 4000

/-- `_middle_out`. -/
def middleOut (text : Text) (limit : Nat) : Text :=
  if text.length ≤ limit then text
  else
    let keep := limit - materialDigestEllipsis.length
    let head := keep / 2
    text.take head ++ materialDigestEllipsis ++ text.drop (text.length - (keep - head))

/-- What a piece may have of the budget. -/
def share (count budget : Nat) : Nat := max (budget / count) (materialDigestEllipsis.length + 2)

/-- `_bounded_preview`. -/
def boundedPreview (pieces : List Text) (budget : Nat) : Text :=
  if pieces.isEmpty then []
  else Text.join ['\n'] (pieces.map fun piece => middleOut piece (share pieces.length budget))

/-- `_material_pieces`. -/
def World.materialPieces (s : World) (exchangeId : ExchangeId) : List Text :=
  ((s.narrative.filter fun message =>
    message.exchangeId = some exchangeId && message.kind = .material).map
      (·.content.toList)).take materialDigestMessages

/-- `_material_preview`. -/
def World.materialPreview (s : World) (exchangeId : ExchangeId) : Option Text :=
  let pieces := s.materialPieces exchangeId
  if pieces.isEmpty then none else some (boundedPreview pieces materialDigestChars)

/-- A piece as it is shown in a share: whole, or with both of its ends. -/
def ShownIn (limit : Nat) (piece line : Text) : Prop :=
  (piece.length ≤ limit ∧ line = piece) ∨
    (limit < piece.length ∧ ∃ front back, line = front ++ materialDigestEllipsis ++ back ∧
      front <+: piece ∧ back <:+ piece ∧ front.length ≤ back.length + 1 ∧
      back.length ≤ front.length + 1)

/-- The preview keeps to the budget, and shows every piece. -/
structure Bounded (pieces : List Text) (budget : Nat) : Prop where
  fits : (boundedPreview pieces budget).length ≤ budget
  pieces : ∃ lines, boundedPreview pieces budget = Text.join ['\n'] lines ∧
    List.Forall₂ (ShownIn (budget / pieces.length)) pieces lines

/-- What the pieces leave of the budget: what is short of the shares, and the rest of the
division. -/
def unspent (pieces : List Text) (budget : Nat) : Nat :=
  (pieces.map fun piece => budget / pieces.length - piece.length).sum + budget % pieces.length

section Previews

variable {pieces lines : List Text} {piece : Text} {limit budget : Nat}

theorem middleOut_of_short (hShort : piece.length ≤ limit) : middleOut piece limit = piece :=
  if_pos hShort

theorem shownIn_middleOut (hLimit : materialDigestEllipsis.length ≤ limit) (piece : Text) :
    ShownIn limit piece (middleOut piece limit) := by
  by_cases hShort : piece.length ≤ limit
  · exact .inl ⟨hShort, middleOut_of_short hShort⟩
  · refine .inr ⟨Nat.lt_of_not_le hShort, ?_⟩
    rw [middleOut, if_neg hShort]
    -- The front gets the smaller half of what is left beside the ellipsis.
    refine ⟨_, _, rfl, List.take_prefix _ _, List.drop_suffix _ _, ?_, ?_⟩
    · rw [List.length_take, List.length_drop]
      omega
    · rw [List.length_take, List.length_drop]
      omega

theorem length_middleOut (hLimit : materialDigestEllipsis.length ≤ limit) (piece : Text) :
    (middleOut piece limit).length = min piece.length limit := by
  by_cases hShort : piece.length ≤ limit
  · rw [middleOut_of_short hShort, Nat.min_eq_left hShort]
  · rw [middleOut, if_neg hShort]
    simp only [List.length_append, List.length_take, List.length_drop]
    omega

theorem length_join (hSome : lines ≠ []) :
    (Text.join ['\n'] lines).length + 1 = (lines.map List.length).sum + lines.length := by
  induction lines with
  | nil => exact absurd rfl hSome
  | cons line rest ih =>
      cases rest with
      | nil => simp [Text.join]
      | cons next rest =>
          have hRest := ih (List.cons_ne_nil next rest)
          rw [Text.join, List.intercalate_cons_cons, List.length_append, List.length_append,
            List.length_singleton, List.map_cons, List.sum_cons, List.length_cons]
          rw [Text.join] at hRest
          omega

/-- What the pieces get and what they leave of their shares make up the shares. -/
theorem sum_shares (pieces : List Text) (limit : Nat) :
    (pieces.map fun piece => min piece.length limit).sum +
        (pieces.map fun piece => limit - piece.length).sum = limit * pieces.length := by
  induction pieces with
  | nil => rfl
  | cons piece rest ih =>
      rw [List.map_cons, List.map_cons, List.sum_cons, List.sum_cons, List.length_cons,
        Nat.mul_succ]
      omega

theorem share_eq (hSome : pieces ≠ [])
    (hBudget : pieces.length * (materialDigestEllipsis.length + 2) ≤ budget) :
    share pieces.length budget = budget / pieces.length := by
  refine Nat.max_eq_left ((Nat.le_div_iff_mul_le (List.length_pos_of_ne_nil hSome)).mpr ?_)
  rwa [Nat.mul_comm]

/-- A preview is one character longer than the budget less what is left of it, for every line
break. -/
theorem length_boundedPreview (hSome : pieces ≠ [])
    (hBudget : pieces.length * (materialDigestEllipsis.length + 2) ≤ budget) :
    (boundedPreview pieces budget).length + unspent pieces budget + 1 = budget + pieces.length := by
  have hShare := share_eq hSome hBudget
  have hEllipsis : materialDigestEllipsis.length ≤ budget / pieces.length := by
    rw [← hShare]
    exact Nat.le_trans (Nat.le_add_right _ 2) (Nat.le_max_right _ _)
  have hNone : (pieces.map fun piece => middleOut piece (budget / pieces.length)) ≠ [] := by
    simpa using hSome
  have hLength := length_join hNone
  have hEach : (pieces.map fun piece => middleOut piece (budget / pieces.length)).map List.length =
      pieces.map fun piece => min piece.length (budget / pieces.length) := by
    rw [List.map_map]
    exact List.map_congr_left fun piece _ => length_middleOut hEllipsis piece
  rw [hEach, List.length_map] at hLength
  have hShares := sum_shares pieces (budget / pieces.length)
  have hDivision := Nat.div_add_mod' budget pieces.length
  -- The shares and the rest of the division are the budget; the line breaks come on top.
  rw [boundedPreview, if_neg (by simpa using hSome), hShare, unspent]
  omega

/-- A preview is bounded where the pieces leave a character for every line break between them. -/
theorem bounded_iff {pieces : List Text} {budget : Nat} (hSome : pieces ≠ [])
    (hBudget : pieces.length * (materialDigestEllipsis.length + 2) ≤ budget) :
    Bounded pieces budget ↔ pieces.length ≤ unspent pieces budget + 1 := by
  have hLength := length_boundedPreview hSome hBudget
  constructor
  · intro hBounded
    have hFits := hBounded.fits
    omega
  · intro hLeft
    refine ⟨by omega, pieces.map fun piece => middleOut piece (share pieces.length budget), ?_, ?_⟩
    · rw [boundedPreview, if_neg (by simpa using hSome)]
    · rw [share_eq hSome hBudget, List.forall₂_map_right_iff, List.forall₂_same]
      refine fun piece _ => shownIn_middleOut ?_ piece
      rw [← share_eq hSome hBudget]
      exact Nat.le_trans (Nat.le_add_right _ 2) (Nat.le_max_right _ _)

theorem bounded_one : Bounded ["A letter of some length".toList] 7 ↔
    [("A letter of some length".toList)].length ≤ unspent ["A letter of some length".toList] 7 + 1 :=
  bounded_iff (by decide) (by decide)

/-- Two pieces that spend all of the budget, and the line break between them. -/
theorem two_pieces_over_budget : ¬Bounded ["forward one".toList, "forward two".toList] 14 :=
  fun hBounded => absurd hBounded.fits (by decide)

/-- The material of an exchange is never too much for the ellipses, but its preview can be longer
than it should be. -/
theorem World.length_materialPreview {s : World} {x : ExchangeId} {preview : Text}
    (hPreview : s.materialPreview x = some preview) :
    preview.length ≤ materialDigestChars ↔
      (s.materialPieces x).length ≤ unspent (s.materialPieces x) materialDigestChars + 1 := by
  rw [World.materialPreview] at hPreview
  split at hPreview
  · cases hPreview
  · rename_i hSome
    obtain rfl := Option.some.inj hPreview
    have hCount : (s.materialPieces x).length ≤ materialDigestMessages := List.length_take_le _ _
    have hBudget : (s.materialPieces x).length * (materialDigestEllipsis.length + 2) ≤
        materialDigestChars :=
      (Nat.mul_le_mul_right _ hCount).trans (by decide)
    have hLength := length_boundedPreview (by simpa using hSome) hBudget
    omega

end Previews

end Conversation
end OctoForge
