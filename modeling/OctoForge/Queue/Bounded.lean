import Mathlib.Data.List.Basic

/-!
# Bounded queues that make room

A queue of at most `n` items, as a list with its head first.  Three operations
put an item at the end:

* `put` refuses when the queue is full;
* `evictAndPut` drops the oldest item that may be dropped, and refuses when
  there is none;
* `close` drops items from the head, whatever they are, until the item fits.

What must not get lost is named by a function `f : α → Option β`: the items it
selects are the ones a reader has to see.  `put` and `evictAndPut` append to
`items.filterMap f` and take nothing from it; `close` takes the head of a full
queue.
-/

namespace Queue

variable {α β : Type}

/-- The queue with the item at its end, unless it is full. -/
def put (n : Nat) (x : α) (items : List α) : Option (List α) :=
  if items.length < n then some (items ++ [x]) else none

/-- Put several items, in order; the ones that do not fit are left out. -/
def putAll (n : Nat) : List α → List α → List α
  | items, [] => items
  | items, x :: rest => putAll n ((put n x items).getD items) rest

/-- Drain the queue, drop the oldest item that may be dropped and put the rest
back with the new item behind it.  With nothing to drop the put is refused and
the rest is put back as it was. -/
def evictAndPut (n : Nat) (droppable : α → Bool) (x : α) (drained : List α) : Bool × List α :=
  match drained.findIdx? droppable with
  | some victim => (true, putAll n [] (drained.eraseIdx victim ++ [x]))
  | none => (false, putAll n [] drained)

/-- Drop items from the head until the new one fits. -/
def close (n : Nat) (x : α) : List α → List α
  | [] => [x]
  | head :: rest => (put n x (head :: rest)).getD (close n x rest)

section Put

variable {n : Nat} {x : α} {items : List α}

theorem put_eq_some_iff {items' : List α} :
    put n x items = some items' ↔ items.length < n ∧ items' = items ++ [x] := by
  unfold put
  split
  · next hRoom => simp [hRoom, eq_comm]
  · next hFull => simp [hFull]

theorem put_eq_none_iff : put n x items = none ↔ n ≤ items.length := by
  simp [put]

theorem putAll_eq (items rest : List α) (hRoom : items.length + rest.length ≤ n) :
    putAll n items rest = items ++ rest := by
  induction rest generalizing items with
  | nil => simp [putAll]
  | cons x rest ih =>
      have hLength : items.length + (rest.length + 1) ≤ n := hRoom
      have hPut : put n x items = some (items ++ [x]) :=
        put_eq_some_iff.mpr ⟨by omega, rfl⟩
      have hNext : (items ++ [x]).length + rest.length ≤ n := by
        simp only [List.length_append, List.length_cons, List.length_nil]
        omega
      simp only [putAll, hPut, Option.getD_some]
      rw [ih (items ++ [x]) hNext, List.append_assoc, List.singleton_append]

end Put

section Evict

variable {n : Nat} (droppable : α → Bool) (x : α) {items : List α}

/-- What an eviction does to a queue within its bound: it leaves the queue as
it was because nothing may be dropped, or it takes out the oldest item that
may be and puts the new one at the end. -/
theorem evictAndPut_cases (hBound : items.length ≤ n) :
    (evictAndPut n droppable x items = (false, items) ∧ ∀ y ∈ items, droppable y = false) ∨
    ∃ before victim after, items = before ++ victim :: after ∧ droppable victim = true ∧
      (∀ y ∈ before, droppable y = false) ∧
      evictAndPut n droppable x items = (true, before ++ after ++ [x]) := by
  unfold evictAndPut
  cases hFind : items.findIdx? droppable with
  | none =>
      left
      have hNone : ∀ y ∈ items, droppable y = false := List.findIdx?_eq_none_iff.mp hFind
      have hBack : putAll n [] items = items := by
        simpa using putAll_eq [] items (by simpa using hBound)
      exact ⟨by simp [hBack], hNone⟩
  | some i =>
      right
      obtain ⟨hLt, hVictim, hBefore⟩ := List.findIdx?_eq_some_iff_getElem.mp hFind
      have hSplit : items = items.take i ++ items[i] :: items.drop (i + 1) := by simp
      have hErase : items.eraseIdx i = items.take i ++ items.drop (i + 1) :=
        List.eraseIdx_eq_take_drop_succ items i
      -- With one item less there is room for the new one.
      have hRoom : ([] : List α).length + (items.eraseIdx i ++ [x]).length ≤ n := by
        simp only [List.length_append, List.length_eraseIdx, List.length_cons, List.length_nil]
        split <;> omega
      refine ⟨items.take i, items[i], items.drop (i + 1), hSplit, hVictim, ?_, ?_⟩
      · intro y hy
        obtain ⟨j, hj, rfl⟩ := List.getElem_of_mem hy
        have hLess : j < i := by
          simp only [List.length_take] at hj
          omega
        rw [List.getElem_take]
        simpa using hBefore j hLess
      · simp only
        rw [putAll_eq [] _ hRoom, List.nil_append, hErase]

/-- An eviction keeps the bound. -/
theorem evictAndPut_length_le (hBound : items.length ≤ n) :
    (evictAndPut n droppable x items).2.length ≤ n := by
  obtain ⟨hEq, -⟩ | ⟨before, victim, after, rfl, -, -, hEq⟩ :=
    evictAndPut_cases droppable x hBound
  · rw [hEq]
    exact hBound
  · rw [hEq]
    simp only [List.length_append, List.length_cons, List.length_nil] at hBound ⊢
    omega

/-- An eviction takes nothing the reader has to see: it appends the new item
when it is let in and changes nothing else of the selection. -/
theorem evictAndPut_filterMap {f : α → Option β} (hBound : items.length ≤ n)
    (hDroppable : ∀ y, droppable y = true → f y = none) :
    (evictAndPut n droppable x items).2.filterMap f =
      items.filterMap f ++
        if (evictAndPut n droppable x items).1 then [x].filterMap f else [] := by
  obtain ⟨hEq, -⟩ | ⟨before, victim, after, rfl, hVictim, -, hEq⟩ :=
    evictAndPut_cases droppable x hBound
  · rw [hEq]
    simp
  · rw [hEq]
    simp [hDroppable victim hVictim]

end Evict

section Close

variable {n : Nat} {x : α} {items : List α}

theorem close_of_lt (hRoom : items.length < n) : close n x items = items ++ [x] := by
  cases items with
  | nil => rfl
  | cons head rest =>
      have hPut : put n x (head :: rest) = some (head :: rest ++ [x]) :=
        put_eq_some_iff.mpr ⟨hRoom, rfl⟩
      simp [close, hPut]

/-- A full queue gives up its head, and only its head. -/
theorem close_of_length_eq (hFull : items.length = n) : close n x items = items.tail ++ [x] := by
  cases items with
  | nil => rfl
  | cons head rest =>
      have hPut : put n x (head :: rest) = none := put_eq_none_iff.mpr (Nat.le_of_eq hFull.symm)
      have hRoom : rest.length < n := by
        simp only [List.length_cons] at hFull
        omega
      simp [close, hPut, close_of_lt hRoom]

theorem close_length_le (hPos : 0 < n) (hBound : items.length ≤ n) :
    (close n x items).length ≤ n := by
  rcases Nat.lt_or_eq_of_le hBound with hRoom | hFull
  · rw [close_of_lt hRoom, List.length_append, List.length_singleton]
    omega
  · rw [close_of_length_eq hFull, List.length_append, List.length_tail, List.length_singleton]
    omega

/-- Whatever had to go, the new item is the last one. -/
theorem close_getLast? : (close n x items).getLast? = some x := by
  induction items with
  | nil => rfl
  | cons head rest ih =>
      cases hPut : put n x (head :: rest) with
      | none => simpa [close, hPut] using ih
      | some items' =>
          obtain ⟨-, rfl⟩ := put_eq_some_iff.mp hPut
          simp only [close, hPut, Option.getD_some]
          exact List.getLast?_concat

end Close

end Queue
