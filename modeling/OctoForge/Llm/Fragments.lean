import Mathlib.Data.List.Nodup
import OctoForge.Llm.Accumulator
import OctoForge.Sequence.History

/-!
# The fragments of the calls

What a stream says of its tool calls once the cuts are forgotten: their indices in the order they
appear, and what the fragments of each of them say together.
-/

namespace OctoForge
namespace Llm

/-- The fragments of the tool calls, over all the deltas. -/
def fragmentsOf (chunks : List Chunk) : List RawCall :=
  chunks.flatMap fun chunk => (chunk.delta.map Delta.toolCalls).getD []

/-- The content, over all the deltas. -/
def contentOf (chunks : List Chunk) : Text :=
  chunks.flatMap fun chunk => (chunk.delta.map Delta.content).getD []

/-- The indices of the fragments, in the order they appear. -/
def indices (fragments : List RawCall) : List Int := (fragments.map RawCall.slot).eraseDups

/-- The index of the last fragment. -/
def openOf (fragments : List RawCall) : Option Int := fragments.getLast?.map RawCall.slot

/-- A fragment of an index that has appeared comes right after another one of that index. -/
def Contiguous (fragments : List RawCall) : Prop :=
  Sequence.Along (fun before fragment =>
    fragment.slot ∈ indices before → openOf before = some fragment.slot) fragments

/-- What the fragments of one index say together. -/
structure CallText where
  id : Text := []
  name : Text := []
  arguments : Text := []
  deriving DecidableEq, Repr

/-- The last id that is given, and the names and the arguments one after the other. -/
def CallText.add (text : CallText) (fragment : RawCall) : CallText where
  id := if fragment.id.isEmpty then text.id else fragment.id
  name := text.name ++ fragment.name
  arguments := text.arguments ++ fragment.arguments

/-- The text of the arguments; the empty object when there is none. -/
def CallText.raw (text : CallText) : Text :=
  if text.arguments.isEmpty then "\x7b\x7d".toList else text.arguments

def textOf (fragments : List RawCall) (index : Int) : CallText :=
  (fragments.filter fun fragment => fragment.slot = index).foldl CallText.add {}

/-- What a stream says, once the cuts and the order of the calls are forgotten. -/
structure Texts where
  content : Text
  calls : List (Int × CallText)

def textsOf (chunks : List Chunk) : Texts where
  content := contentOf chunks
  calls :=
    ((indices (fragmentsOf chunks)).insertionSort (· ≤ ·)).map fun index =>
      (index, textOf (fragmentsOf chunks) index)

variable {fragments rest : List RawCall} {fragment : RawCall} {index : Int}

/-! ## Chunks -/

theorem fragmentsOf_singleton (chunk : Chunk) :
    fragmentsOf [chunk] = (chunk.delta.map Delta.toolCalls).getD [] :=
  List.flatMap_singleton _ chunk

theorem fragmentsOf_cons (chunk : Chunk) (chunks : List Chunk) :
    fragmentsOf (chunk :: chunks) = fragmentsOf [chunk] ++ fragmentsOf chunks := by
  rw [fragmentsOf_singleton]
  exact List.flatMap_cons

theorem contentOf_singleton (chunk : Chunk) :
    contentOf [chunk] = (chunk.delta.map Delta.content).getD [] :=
  List.flatMap_singleton _ chunk

theorem contentOf_cons (chunk : Chunk) (chunks : List Chunk) :
    contentOf (chunk :: chunks) = contentOf [chunk] ++ contentOf chunks := by
  rw [contentOf_singleton]
  exact List.flatMap_cons

/-! ## Indices -/

theorem mem_indices : index ∈ indices fragments ↔ ∃ fragment ∈ fragments, fragment.slot = index := by
  rw [indices, List.mem_eraseDups, List.mem_map]

theorem indices_concat :
    indices (fragments ++ [fragment]) =
      if fragment.slot ∈ indices fragments then indices fragments
      else indices fragments ++ [fragment.slot] := by
  simp only [indices, List.mem_eraseDups, List.map_append, List.map_singleton,
    List.eraseDups_append]
  generalize fragments.map RawCall.slot = seen
  split
  · rename_i hSeen
    simp [List.removeAll, hSeen]
  · rename_i hNew
    simp [List.removeAll, hNew, List.eraseDups_cons]

theorem nodup_indices (fragments : List RawCall) : (indices fragments).Nodup := by
  induction fragments using List.reverseRecOn with
  | nil => exact List.nodup_nil
  | append_singleton fragments fragment ih =>
      rw [indices_concat]
      split
      · exact ih
      · rename_i hNew
        refine List.nodup_append.mpr ⟨ih, List.nodup_singleton _, ?_⟩
        intro index hIndex other hOther hSame
        obtain rfl := List.mem_singleton.mp hOther
        exact hNew (hSame ▸ hIndex)

theorem openOf_concat : openOf (fragments ++ [fragment]) = some fragment.slot := by
  rw [openOf, List.getLast?_concat, Option.map_some]

/-! ## Texts -/

theorem textOf_concat :
    textOf (fragments ++ [fragment]) index =
      if fragment.slot = index then (textOf fragments index).add fragment
      else textOf fragments index := by
  rw [textOf, List.filter_append, List.foldl_append]
  split
  · rename_i hSame
    rw [List.filter_singleton, decide_eq_true hSame]
    rfl
  · rename_i hOther
    rw [List.filter_singleton, decide_eq_false hOther]
    rfl

/-- An index that has not appeared has nothing said of it. -/
theorem textOf_of_notMem (hNew : index ∉ indices fragments) : textOf fragments index = {} := by
  have hNone : fragments.filter (fun fragment => fragment.slot = index) = [] := by
    refine List.filter_eq_nil_iff.mpr fun fragment hFragment hSame => ?_
    exact hNew (mem_indices.mpr ⟨fragment, hFragment, of_decide_eq_true hSame⟩)
  rw [textOf, hNone]
  rfl

/-! ## Contiguous fragments -/

theorem Contiguous.next (hContiguous : Contiguous (fragments ++ fragment :: rest))
    (hSeen : fragment.slot ∈ indices fragments) : openOf fragments = some fragment.slot :=
  hContiguous fragments fragment rest rfl hSeen

/-- An index that is left behind has no fragment any more. -/
theorem Contiguous.left_behind (hContiguous : Contiguous (fragments ++ rest))
    (hIndex : index ∈ indices fragments) (hLeft : openOf fragments ≠ some index) :
    index ∈ indices (fragments ++ rest) ∧ openOf (fragments ++ rest) ≠ some index ∧
      textOf (fragments ++ rest) index = textOf fragments index := by
  induction rest generalizing fragments with
  | nil =>
      rw [List.append_nil]
      exact ⟨hIndex, hLeft, rfl⟩
  | cons fragment rest ih =>
      -- A further fragment of the index would come right after another one.
      have hOther : fragment.slot ≠ index := by
        rintro rfl
        exact hLeft (hContiguous.next hIndex)
      have hKept : index ∈ indices (fragments ++ [fragment]) := by
        obtain ⟨first, hFirst, hSlot⟩ := mem_indices.mp hIndex
        exact mem_indices.mpr ⟨first, List.mem_append_left _ hFirst, hSlot⟩
      have hOpen : openOf (fragments ++ [fragment]) ≠ some index := by
        rw [openOf_concat]
        exact fun hSame => hOther (Option.some.inj hSame)
      rw [List.append_cons] at hContiguous ⊢
      obtain ⟨hMem, hBehind, hText⟩ := ih hContiguous hKept hOpen
      refine ⟨hMem, hBehind, ?_⟩
      rw [hText, textOf_concat, if_neg hOther]

end Llm
end OctoForge
