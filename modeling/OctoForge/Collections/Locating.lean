import OctoForge.Collections.Ingest
import OctoForge.Sequence.Levels

/-!
# Where the records are found

The records of a document are the array of objects nearest its root: of those on the first level
that has one, the longest, and of these the first.  Only the values of objects are looked at, never
the elements of an array.
-/

namespace OctoForge
namespace Collections

open Levels

/-! ## The document as a tree -/

/-- The objects among the values of an object. -/
def innerObjects (node : Payload) : List Payload :=
  node.filterMap fun member => objectOf? member.2

/-- The arrays of objects among the values of an object, with the object. -/
def innerArrays (node : Payload) : List (List Json × Payload) :=
  node.filterMap fun member => (objectArray? member.2).map fun items => (items, node)

/-- The arrays of objects that are values of the objects at a depth, in breadth-first order. -/
def arraysAt (root : Payload) (depth : Nat) : List (List Json × Payload) :=
  (level innerObjects root depth).flatMap innerArrays

/-- A non-empty array all of whose elements are objects. -/
structure ObjectArray (items : List Json) : Prop where
  nonempty : items ≠ []
  objects : ∀ item ∈ items, isObject item = true

variable {root node parent inner : Payload} {items : List Json} {value : Json} {depth : Nat}

theorem objectArray?_eq_some :
    objectArray? value = some items ↔ value = .array items ∧ ObjectArray items := by
  constructor
  · intro hSome
    cases value with
    | array found =>
        rw [objectArray?] at hSome
        split at hSome
        · rename_i hObjects
          obtain rfl := Option.some.inj hSome
          obtain ⟨hSome, hAll⟩ := Bool.and_eq_true_iff.mp hObjects
          exact ⟨rfl, by simpa using hSome, List.all_eq_true.mp hAll⟩
        · cases hSome
    | _ => cases hSome
  · rintro ⟨rfl, hNonempty, hObjects⟩
    rw [objectArray?, if_pos]
    rw [Bool.and_eq_true_iff]
    exact ⟨by simpa using hNonempty, List.all_eq_true.mpr hObjects⟩

theorem mem_innerArrays :
    (items, parent) ∈ innerArrays node ↔
      parent = node ∧ ObjectArray items ∧ ∃ name, (name, .array items) ∈ node := by
  constructor
  · intro hMem
    obtain ⟨⟨name, value⟩, hMember, hFound⟩ := List.mem_filterMap.mp hMem
    obtain ⟨found, hArray, hPair⟩ := Option.map_eq_some_iff.mp hFound
    obtain ⟨rfl, rfl⟩ := Prod.mk.inj hPair
    obtain ⟨rfl, hObjects⟩ := objectArray?_eq_some.mp hArray
    exact ⟨rfl, hObjects, name, hMember⟩
  · rintro ⟨rfl, hObjects, name, hMember⟩
    refine List.mem_filterMap.mpr ⟨(name, .array items), hMember, ?_⟩
    rw [objectArray?_eq_some.mpr ⟨rfl, hObjects⟩]
    rfl

/-- An array of objects at a depth is a value of an object that a path of that length leads to. -/
theorem mem_arraysAt :
    (items, parent) ∈ arraysAt root depth ↔
      Reaches innerObjects root depth parent ∧ ObjectArray items ∧
        ∃ name, (name, .array items) ∈ parent := by
  rw [arraysAt, List.mem_flatMap]
  constructor
  · rintro ⟨node, hNode, hMem⟩
    obtain ⟨rfl, hObjects, hValue⟩ := mem_innerArrays.mp hMem
    exact ⟨mem_level.mp hNode, hObjects, hValue⟩
  · rintro ⟨hReaches, hObjects, hValue⟩
    exact ⟨parent, mem_level.mpr hReaches, mem_innerArrays.mpr ⟨rfl, hObjects, hValue⟩⟩

/-! ## The search -/

/-- A level that is within the budget is scanned whole. -/
theorem scanLevel_eq (visited : Nat) (candidates : List (List Json × Payload))
    (deeper frontier : List Payload) (hBudget : visited + frontier.length ≤ maxUnwrapNodes) :
    scanLevel visited candidates deeper frontier =
      (visited + frontier.length, candidates ++ frontier.flatMap innerArrays,
        deeper ++ frontier.flatMap innerObjects) := by
  induction frontier generalizing visited candidates deeper with
  | nil => simp [scanLevel]
  | cons node rest ih =>
      rw [List.length_cons] at hBudget
      rw [scanLevel, if_neg (by omega), ih _ _ _ (by omega)]
      simp only [List.flatMap_cons, List.length_cons, List.append_assoc, innerArrays, innerObjects]
      rw [show visited + 1 + rest.length = visited + (rest.length + 1) by omega]

/-- The first of the longest. -/
structure FirstLongest (found : List Json × Payload) (all : List (List Json × Payload)) : Prop where
  split : ∃ before after, all = before ++ found :: after ∧
    (∀ other ∈ before, other.1.length < found.1.length) ∧
    ∀ other ∈ after, other.1.length ≤ found.1.length

theorem firstLongest_longest (first : List Json × Payload)
    (others : List (List Json × Payload)) : FirstLongest (longest first others) (first :: others) := by
  induction others using List.reverseRecOn with
  | nil => exact ⟨[], [], rfl, by simp, by simp⟩
  | append_singleton others last ih =>
      obtain ⟨before, after, hAll, hBefore, hAfter⟩ := ih
      have hStep : longest first (others ++ [last]) =
          if (longest first others).1.length < last.1.length then last else longest first others := by
        rw [longest, List.foldl_append]
        rfl
      rw [hStep, ← List.cons_append, hAll]
      by_cases hLonger : (longest first others).1.length < last.1.length
      · rw [if_pos hLonger]
        refine ⟨before ++ longest first others :: after, [], rfl, fun other hOther => ?_, by simp⟩
        rcases List.mem_append.mp hOther with hEarly | hLate
        · exact (hBefore other hEarly).trans hLonger
        · rcases List.mem_cons.mp hLate with rfl | hLate
          · exact hLonger
          · exact (hAfter other hLate).trans_lt hLonger
      · rw [if_neg hLonger]
        refine ⟨before, after ++ [last], by simp, hBefore, fun other hOther => ?_⟩
        rcases List.mem_append.mp hOther with hEarly | hLast
        · exact hAfter other hEarly
        · obtain rfl := List.mem_singleton.mp hLast
          omega

/-- Levels that are all within the budget are searched one after the other, down to the first that
has an array of objects. -/
theorem locateBelow_level (root : Payload) (levels depth : Nat)
    (hNodes : above innerObjects root (depth + levels) ≤ maxUnwrapNodes) :
    (locateBelow levels (above innerObjects root depth) (level innerObjects root depth) = none →
        ∀ d, depth ≤ d → d < depth + levels → arraysAt root d = []) ∧
      ∀ found,
        locateBelow levels (above innerObjects root depth) (level innerObjects root depth) =
            some found →
          ∃ d, depth ≤ d ∧ d < depth + levels ∧
            (∀ upper, depth ≤ upper → upper < d → arraysAt root upper = []) ∧
            FirstLongest found (arraysAt root d) := by
  induction levels generalizing depth with
  | zero =>
      refine ⟨fun _ d hFrom hTo => by omega, fun found hFound => ?_⟩
      rw [locateBelow] at hFound
      cases hFound
  | succ levels ih =>
      have hStep : above innerObjects root (depth + 1) ≤ maxUnwrapNodes :=
        (above_le (by omega)).trans hNodes
      have hScan := scanLevel_eq (above innerObjects root depth) [] []
        (level innerObjects root depth) (by rwa [← above_succ])
      rw [← above_succ, List.nil_append, List.nil_append, ← level_succ] at hScan
      change _ = (_, arraysAt root depth, _) at hScan
      rw [locateBelow, hScan]
      cases hHere : arraysAt root depth with
      | cons first others =>
          -- The level has one: whatever is further down is not looked at.
          refine ⟨nofun, fun found hFound => ?_⟩
          obtain rfl := Option.some.inj hFound
          refine ⟨depth, Nat.le_refl _, by omega, fun upper hFrom hTo => by omega, ?_⟩
          rw [hHere]
          exact firstLongest_longest first others
      | nil =>
          simp only [show ¬maxUnwrapNodes < above innerObjects root (depth + 1) by omega,
            decide_false, Bool.false_or]
          by_cases hDeeper : level innerObjects root (depth + 1) = []
          · -- There is no object on the next level, so there is nothing below it either.
            rw [if_pos (by rw [hDeeper]; rfl)]
            refine ⟨fun _ d hFrom _ => ?_, fun found hFound => by cases hFound⟩
            rcases Nat.eq_or_lt_of_le hFrom with rfl | hBelow
            · exact hHere
            · rw [arraysAt, level_eq_nil_of_le hDeeper hBelow, List.flatMap_nil]
          · rw [if_neg (by simpa using hDeeper)]
            obtain ⟨hNone, hSome⟩ := ih (depth + 1)
              (by rwa [show depth + 1 + levels = depth + (levels + 1) by omega])
            refine ⟨fun hSearch d hFrom hTo => ?_, fun found hFound => ?_⟩
            · rcases Nat.eq_or_lt_of_le hFrom with rfl | hBelow
              · exact hHere
              · exact hNone hSearch d hBelow (by omega)
            · obtain ⟨d, hFrom, hTo, hUpper, hFirst⟩ := hSome found hFound
              refine ⟨d, by omega, by omega, fun upper hAbove hLt => ?_, hFirst⟩
              rcases Nat.eq_or_lt_of_le hAbove with rfl | hBelow
              · exact hHere
              · exact hUpper upper hBelow hLt

/-! ## What is around the records -/

theorem isArray_of_envelopeOf {name : String} (hMem : (name, value) ∈ envelopeOf parent) :
    isArray value = false := by
  simpa using (List.mem_filter.mp hMem).2

theorem isArray_of_scalarsOf {name : String} (hMem : (name, value) ∈ scalarsOf root) :
    isArray value = false := by
  have hScalar := (List.mem_filter.mp hMem).2
  rw [Bool.and_eq_true_iff] at hScalar
  simpa using hScalar.2

/-- A member of the union is one of the two, with its value. -/
theorem value_of_updated {base other : Payload} {member : String × Json}
    (hMem : member ∈ updated base other) :
    (∃ name, (name, member.2) ∈ base) ∨ ∃ name, (name, member.2) ∈ other := by
  rcases List.mem_append.mp hMem with hBase | hOther
  · obtain ⟨⟨name, value⟩, hKept, rfl⟩ := List.mem_map.mp hBase
    cases hLookup : Json.lookup other name with
    | none => exact .inl ⟨name, by simpa [hLookup] using hKept⟩
    | some found =>
        obtain ⟨⟨name', value'⟩, hFind, rfl⟩ := Option.map_eq_some_iff.mp hLookup
        exact .inr ⟨name', by simpa [hLookup] using List.mem_of_find?_eq_some hFind⟩
  · exact .inr ⟨member.1, (List.mem_filter.mp hOther).1⟩

/-- **The nearest records.**  A root with a bounded number of objects in reach has records exactly
when some level within the limit has an array of objects; they are then the first of the longest on
the first such level, a value of an object that only objects lead to, and what is around them has no
array. -/
theorem locateRecords_nearest (root : Payload)
    (hNodes : above innerObjects root maxUnwrapDepth ≤ maxUnwrapNodes) :
    (locateRecords root = none ↔ ∀ d, d < maxUnwrapDepth → arraysAt root d = []) ∧
      ∀ items envelope, locateRecords root = some (items, envelope) →
        (∃ d, d < maxUnwrapDepth ∧ (∀ upper, upper < d → arraysAt root upper = []) ∧
          ∃ parent, FirstLongest (items, parent) (arraysAt root d) ∧
            Reaches innerObjects root d parent ∧ ObjectArray items ∧
            ∃ name, (name, .array items) ∈ parent) ∧
        ∀ member ∈ envelope, isArray member.2 = false := by
  obtain ⟨hNone, hSome⟩ := locateBelow_level root maxUnwrapDepth 0 (by simpa)
  simp only [above_zero, level_zero, Nat.zero_add, Nat.zero_le, true_implies, true_and] at hNone hSome
  refine ⟨⟨fun hSearch => hNone (Option.map_eq_none_iff.mp hSearch), fun hEmpty => ?_⟩,
    fun items envelope hFound => ?_⟩
  · rw [locateRecords, Option.map_eq_none_iff]
    cases hSearch : locateBelow maxUnwrapDepth 0 [root] with
    | none => rfl
    | some found =>
        obtain ⟨d, hDepth, -, before, after, hAll, -⟩ := hSome found hSearch
        rw [hEmpty d hDepth] at hAll
        simp at hAll
  · obtain ⟨⟨found, parent⟩, hSearch, hPair⟩ := Option.map_eq_some_iff.mp hFound
    obtain ⟨rfl, rfl⟩ := Prod.mk.inj hPair
    obtain ⟨d, hDepth, hUpper, hFirst⟩ := hSome _ hSearch
    obtain ⟨before, after, hAll, -⟩ := hFirst.split
    have hMem : (found, parent) ∈ arraysAt root d := by simp [hAll]
    refine ⟨⟨d, hDepth, hUpper, parent, hFirst, mem_arraysAt.mp hMem⟩, fun member hMember => ?_⟩
    rcases value_of_updated hMember with ⟨name, hScalar⟩ | ⟨name, hSibling⟩
    · exact isArray_of_scalarsOf hScalar
    · exact isArray_of_envelopeOf hSibling

/-- A response that wraps its records twice, with more of them than one list beside them has. -/
def wrappedRoot : Payload :=
  [("ok", .bool true), ("tags", .array [.string "new"]),
    ("data", .object
      [("errors", .array [.object [("code", .number 7)]]), ("total", .number 2),
        ("items", .array [.object [("id", .number 1)], .object [("id", .number 2)]])])]

theorem locateRecords_nearest_wrapped :
    (locateRecords wrappedRoot = none ↔
        ∀ d, d < maxUnwrapDepth → arraysAt wrappedRoot d = []) ∧
      ∀ items envelope, locateRecords wrappedRoot = some (items, envelope) →
        (∃ d, d < maxUnwrapDepth ∧ (∀ upper, upper < d → arraysAt wrappedRoot upper = []) ∧
          ∃ parent, FirstLongest (items, parent) (arraysAt wrappedRoot d) ∧
            Reaches innerObjects wrappedRoot d parent ∧ ObjectArray items ∧
            ∃ name, (name, .array items) ∈ parent) ∧
        ∀ member ∈ envelope, isArray member.2 = false :=
  locateRecords_nearest wrappedRoot (by decide)

end Collections
end OctoForge
