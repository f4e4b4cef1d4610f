import OctoForge.Dialog.Branch
import OctoForge.Like

/-!
# Searching the history

The archive of a dialog is searched for a text that its messages have as a part, without regard to
letter case.  The database does it with a pattern: the query is escaped, so that it stands for its
own characters, and put between two wildcards.
-/

namespace OctoForge
namespace Context
namespace SqlAlchemySummaryStore

open Dialog (MessageRole)
open Like (like around autoescape)

/-- A `lower` of a database that neither makes nor changes a character with a meaning. -/
structure Lowering where
  lower : Char → Char
  keeps : ∀ special, special = '\\' ∨ special = '%' ∨ special = '_' →
    ∀ c, lower c = special ↔ c = special

/-- How a database compares without regard to case. -/
inductive Ilike where
  /-- It has an `ILIKE`. -/
  | native (fold : Char → Char)
  /-- It is asked for `lower(content) LIKE lower(pattern)`. -/
  | lowered (lowering : Lowering) (fold : Char → Char)

/-- Two characters are the same up to case when they become the same. -/
def Ilike.fold : Ilike → Char → Char
  | .native fold => fold
  | .lowered lowering fold => fun c => fold (lowering.lower c)

/-- `t ILIKE pattern ESCAPE escape`. -/
def Ilike.holds (db : Ilike) (escape : Char) (pattern t : Text) : Bool :=
  match db with
  | .native fold => like fold escape pattern t
  | .lowered lowering fold => like fold escape (pattern.map lowering.lower) (t.map lowering.lower)

/-- `LIKE_ESCAPE`. -/
def likeEscape : Char := '\\'

/-- `_escape_like`. -/
def escapeLike (text : Text) : Text :=
  -- first, or the escapes of the wildcards would be escaped
  let text := Text.replace text [likeEscape] [likeEscape, likeEscape]
  let text := Text.replace text ['%'] [likeEscape, '%']
  Text.replace text ['_'] [likeEscape, '_']

/-- A row of the archive. -/
structure ArchivedRow where
  dialogId : Text
  seq : Nat
  role : MessageRole
  content : Text
  createdAt : Int
  deriving DecidableEq, Repr

structure ArchivedMessage where
  seq : Nat
  role : MessageRole
  content : Text
  createdAt : Int
  deriving DecidableEq, Repr

structure ArchiveFilter where
  seqRanges : Option (List (Nat × Nat)) := none
  dateFrom : Option Int := none
  dateTo : Option Int := none
  deriving DecidableEq, Repr

/-- `to_archived`. -/
def toArchived (row : ArchivedRow) : ArchivedMessage :=
  ⟨row.seq, row.role, row.content, row.createdAt⟩

/-- The clauses of a filter. -/
def ArchiveFilter.admits (filters : ArchiveFilter) (row : ArchivedRow) : Bool :=
  (filters.seqRanges.all fun ranges => ranges.any fun (seqFrom, seqTo) =>
      seqFrom ≤ row.seq && row.seq ≤ seqTo) &&
    (filters.dateFrom.all fun date => date ≤ row.createdAt) &&
    filters.dateTo.all fun date => row.createdAt < date

/-- The rows of a dialog that a filter admits and whose content is as asked for, by seq. -/
def select (rows : List ArchivedRow) (dialogId : Text) (asked : Text → Bool)
    (filters : ArchiveFilter) (limit : Nat) : List ArchivedMessage :=
  (((rows.filter fun row =>
    row.dialogId = dialogId && asked row.content && filters.admits row).mergeSort
      fun row other => row.seq ≤ other.seq).take limit).map toArchived

/-- The condition that `search` builds for the content of a message. -/
def contentClause (db : Ilike) (needle content : Text) : Bool :=
  db.holds likeEscape (around (escapeLike needle)) content

/-- `search`. -/
def search (db : Ilike) (rows : List ArchivedRow) (dialogId query : Text)
    (filters : Option ArchiveFilter) (limit : Nat) : List ArchivedMessage :=
  let needle := Text.strip query
  let restriction := filters.getD {}
  if needle.isEmpty || restriction.seqRanges = some [] then []
  else select rows dialogId (contentClause db needle) restriction limit

/-- A content has a text as a part, up to letter case. -/
def Occurs (fold : Char → Char) (needle content : Text) : Prop :=
  needle.map fold <:+: content.map fold

instance (fold : Char → Char) (needle content : Text) : Decidable (Occurs fold needle content) :=
  inferInstanceAs (Decidable (_ <:+: _))

/-- What a search is for: the messages that have the query as a part. -/
def literalSearch (fold : Char → Char) (rows : List ArchivedRow) (dialogId query : Text)
    (filters : Option ArchiveFilter) (limit : Nat) : List ArchivedMessage :=
  let needle := Text.strip query
  if needle.isEmpty then []
  else
    select rows dialogId (fun content => decide (Occurs fold needle content)) (filters.getD {})
      limit

/-! ## Escaping -/

section Escaping

variable {t : Text} {c : Char} {new : Text}

/-- A character is replaced wherever it stands. -/
theorem replace_char (t : Text) (c : Char) (new : Text) :
    Text.replace t [c] new = t.flatMap fun d => if d = c then new else [d] := by
  have hFrom : ∀ t : Text, Text.replaceFrom [c] new 0 t =
      t.flatMap fun d => if d = c then new else [d] := by
    intro t
    induction t with
    | nil => rfl
    | cons d rest ih =>
        have hHere : List.isPrefixOf [c] (d :: rest) = true ↔ d = c := by
          rw [List.isPrefixOf_iff_prefix, List.cons_prefix_cons, and_iff_left List.nil_prefix]
          exact eq_comm
        rw [Text.replaceFrom, List.flatMap_cons, ← ih]
        by_cases hSame : d = c
        · rw [if_pos (hHere.mpr hSame), if_pos hSame]
          rfl
        · rw [if_neg (mt hHere.mp hSame), if_neg hSame, List.singleton_append]
  rw [Text.replace, if_neg (by simp)]
  exact hFrom t

/-- The escape character is replaced first, so that those of the other two replacements stay. -/
theorem escapeLike_eq (text : Text) : escapeLike text = autoescape likeEscape text := by
  simp only [escapeLike, replace_char, autoescape, List.flatMap_assoc]
  refine congrArg (List.flatMap · text) (funext fun c => ?_)
  by_cases hEscape : c = likeEscape
  · subst hEscape
    rfl
  · by_cases hAny : c = '%'
    · subst hAny
      rfl
    · by_cases hOne : c = '_'
      · subst hOne
        rfl
      · simp [hEscape, hAny, hOne]

/-- Lower case keeps the pattern that an escaped text is. -/
theorem map_around_autoescape (lowering : Lowering) (text : Text) :
    (around (autoescape likeEscape text)).map lowering.lower =
      around (autoescape likeEscape (text.map lowering.lower)) := by
  have hEscape : ∀ c, lowering.lower c = likeEscape ↔ c = likeEscape :=
    lowering.keeps likeEscape (.inl rfl)
  have hAny : ∀ c, lowering.lower c = '%' ↔ c = '%' := lowering.keeps '%' (.inr (.inl rfl))
  have hOne : ∀ c, lowering.lower c = '_' ↔ c = '_' := lowering.keeps '_' (.inr (.inr rfl))
  have hInner : (autoescape likeEscape text).map lowering.lower =
      autoescape likeEscape (text.map lowering.lower) := by
    rw [autoescape, autoescape, List.map_flatMap, List.flatMap_map]
    refine congrArg (List.flatMap · text) (funext fun c => ?_)
    simp only [hEscape, hAny, hOne]
    split
    · rw [List.map_cons, List.map_singleton, (hEscape likeEscape).mpr rfl]
    · rfl
  rw [around, List.map_append, List.map_append, hInner, around, List.map_singleton,
    (hAny '%').mpr rfl]

/-- The condition holds for the contents that have the needle as a part. -/
theorem contentClause_iff (db : Ilike) (needle content : Text) :
    contentClause db needle content = true ↔ Occurs db.fold needle content := by
  rw [contentClause, escapeLike_eq]
  cases db with
  | native fold => exact Like.like_around_autoescape (by decide) needle content
  | lowered lowering fold =>
      -- The lower case of the pattern is the pattern of the lower case.
      have hLike : like fold likeEscape
          (around (autoescape likeEscape (needle.map lowering.lower))) (content.map lowering.lower) =
            true ↔ (needle.map lowering.lower).map fold <:+: (content.map lowering.lower).map fold :=
        Like.like_around_autoescape (by decide) _ _
      rw [Ilike.holds, map_around_autoescape, hLike, List.map_map, List.map_map]
      rfl

end Escaping

/-! ## The search -/

theorem select_none (rows : List ArchivedRow) (dialogId : Text) (asked : Text → Bool)
    (filters : ArchiveFilter) (limit : Nat) (hRanges : filters.seqRanges = some []) :
    select rows dialogId asked filters limit = [] := by
  have hAdmits : ∀ row, filters.admits row = false := by
    intro row
    simp [ArchiveFilter.admits, hRanges]
  simp [select, hAdmits]

end SqlAlchemySummaryStore
end Context
end OctoForge
