import OctoForge.Dialog.Branch
import Mathlib.Data.List.Range

/-!
# The marks of a branch

`renderBranch` says of every message whether a run sees it, and under which mark.  The task
mark is put on by position, and the position is the one in the whole narrative, not in what is
left of it: `IsTask` says which message that is without counting.
-/

namespace OctoForge
namespace Dialog

/-! ## Filtered positions -/

section Positions

variable {α : Type} {p : α × Nat → Bool} {list : List α} {x : α} {i : Nat}

/-- The first position that is left by a filter. -/
theorem head?_filter_zipIdx (hHead : (list.zipIdx.filter p).head? = some (x, i)) :
    list[i]? = some x ∧ p (x, i) = true ∧
      ∀ j y, j < i → list[j]? = some y → p (y, j) = false := by
  rw [List.head?_filter, List.find?_eq_some_iff_getElem] at hHead
  obtain ⟨hKept, k, hBound, hGet, hBefore⟩ := hHead
  have hLength : k < list.length := by simpa using hBound
  obtain ⟨rfl, rfl⟩ : list[k] = x ∧ k = i := by simpa using hGet
  refine ⟨List.getElem?_eq_getElem hLength, hKept, fun j y hLt hGet => ?_⟩
  obtain ⟨hIndex, rfl⟩ := List.getElem?_eq_some_iff.mp hGet
  have hSkipped := hBefore j hLt
  simpa using hSkipped

/-- The last position that is left by a filter. -/
theorem getLast?_filter_zipIdx (hLast : (list.zipIdx.filter p).getLast? = some (x, i)) :
    list[i]? = some x ∧ p (x, i) = true ∧
      ∀ j y, list[j]? = some y → p (y, j) = true → j ≤ i := by
  have hMem := List.mem_filter.mp (List.mem_of_getLast? hLast)
  refine ⟨List.mem_zipIdx_iff_getElem?.mp hMem.1, hMem.2, fun j y hGet hKept => ?_⟩
  have hOther : (y, j) ∈ list.zipIdx.filter p :=
    List.mem_filter.mpr ⟨List.mem_zipIdx_iff_getElem?.mpr hGet, hKept⟩
  -- the positions go up
  have hOrdered : (list.zipIdx.filter p).Pairwise fun a b => a.2 < b.2 := by
    have hIndices : (list.zipIdx.map Prod.snd).Pairwise (· < ·) := by
      rw [List.zipIdx_map_snd]
      exact List.pairwise_lt_range'
    exact (List.pairwise_map.mp hIndices).filter p
  obtain ⟨before, hSnoc⟩ := List.getLast?_eq_some_iff.mp hLast
  rw [hSnoc] at hOrdered hOther
  rcases List.mem_append.mp hOther with hBefore | hEq
  · exact Nat.le_of_lt ((List.pairwise_append.mp hOrdered).2.2 _ hBefore (x, i) (by simp))
  · obtain ⟨-, rfl⟩ := Prod.mk.inj (List.mem_singleton.mp hEq)
    exact Nat.le_refl _

end Positions

/-! ## Which message is the task -/

/-- A user message of the exchange the run owes an answer to. -/
def Mine (own : Option ExchangeId) (m : ChatMessage) : Prop := ∃ x, own = some x ∧ m.Carries x

/-- A user message of an exchange that another run owes an answer to. -/
def Others (live : List ExchangeId) (m : ChatMessage) : Prop := ∃ x ∈ live, m.Carries x

instance (own : Option ExchangeId) (m : ChatMessage) : Decidable (Mine own m) :=
  decidable_of_iff (m.role = .user ∧ own.isSome ∧ m.exchangeId = own) (by
    cases own <;> simp [Mine, ChatMessage.Carries])

instance (live : List ExchangeId) (m : ChatMessage) : Decidable (Others live m) :=
  inferInstanceAs (Decidable (∃ x ∈ live, m.Carries x))

/-- The message at this position is the run's task: the first that the user wrote, or the last
one that was forwarded when the user wrote none. -/
structure IsTask (messages : List Piece) (own : Option ExchangeId) (i : Nat) (piece : Piece) :
    Prop where
  here : messages[i]? = some piece
  mine : Mine own piece.message
  first : piece.message.kind = .own → ∀ j q, j < i → messages[j]? = some q →
    Mine own q.message → q.message.kind = .material
  last : piece.message.kind = .material → ∀ j q, messages[j]? = some q →
    Mine own q.message → q.message.kind = .material ∧ j ≤ i

variable {messages : List Piece} {own : Option ExchangeId} {piece : Piece} {i : Nat}

theorem kind_cases (m : ChatMessage) : m.kind = .own ∨ m.kind = .material := by
  cases m.kind with
  | own => exact .inl rfl
  | material => exact .inr rfl

/-- There is one task at most. -/
theorem IsTask.unique {j : Nat} {q : Piece} (hTask : IsTask messages own i piece)
    (hOther : IsTask messages own j q) : i = j := by
  rcases kind_cases piece.message with hKind | hKind <;>
    rcases kind_cases q.message with hKind' | hKind'
  · by_contra hNe
    rcases Nat.lt_or_gt_of_ne hNe with hLt | hLt
    · have hBoth := hOther.first hKind' i piece hLt hTask.here hTask.mine
      simp [hKind] at hBoth
    · have hBoth := hTask.first hKind j q hLt hOther.here hOther.mine
      simp [hKind'] at hBoth
  · have hBoth := (hOther.last hKind' i piece hTask.here hTask.mine).1
    simp [hKind] at hBoth
  · have hBoth := (hTask.last hKind j q hOther.here hOther.mine).1
    simp [hKind'] at hBoth
  · have hLe := (hTask.last hKind j q hOther.here hOther.mine).2
    have hGe := (hOther.last hKind' i piece hTask.here hTask.mine).2
    omega

/-- `_task_index` finds the task. -/
theorem isTask_of_taskIndex (hIndex : taskIndex messages own = some i) :
    ∃ piece, IsTask messages own i piece := by
  cases own with
  | none => cases hIndex
  | some x =>
      unfold taskIndex at hIndex
      simp only at hIndex
      split at hIndex
      · rename_i piece index hHead
        obtain rfl := Option.some.inj hIndex
        rw [List.filter_filter] at hHead
        obtain ⟨hHere, hKept, hBefore⟩ := head?_filter_zipIdx hHead
        obtain ⟨hOwn, hCarries⟩ : piece.message.kind = .own ∧ piece.message.Carries x := by
          simpa using hKept
        refine ⟨piece, hHere, ⟨x, rfl, hCarries⟩, fun _ j q hLt hGet hMine => ?_, fun hKind => ?_⟩
        · obtain ⟨y, hSame, hOther⟩ := hMine
          obtain rfl := Option.some.inj hSame
          have hSkipped := hBefore j q hLt hGet
          rcases kind_cases q.message with hKind | hKind
          · simp [hKind, hOther] at hSkipped
          · exact hKind
        · simp [hOwn] at hKind
      · rename_i hNone
        obtain ⟨⟨piece, index⟩, hLast, rfl⟩ := Option.map_eq_some_iff.mp hIndex
        obtain ⟨hHere, hKept, hBehind⟩ := getLast?_filter_zipIdx hLast
        have hCarries : piece.message.Carries x := by simpa using hKept
        -- the user has written none of them
        have hMaterial : ∀ (j : Nat) (q : Piece), messages[j]? = some q → q.message.Carries x →
            q.message.kind = .material := by
          intro j q hGet hOther
          rcases kind_cases q.message with hKind | hKind
          · have hMem : (q, j) ∈ (messages.zipIdx.filter fun entry =>
                decide (entry.1.message.Carries x)).filter fun entry =>
                  decide (entry.1.message.kind = .own) := by
              simp [List.mem_filter, List.mem_zipIdx_iff_getElem?, hGet, hOther, hKind]
            rw [List.head?_eq_none_iff.mp hNone] at hMem
            cases hMem
          · exact hKind
        refine ⟨piece, hHere, ⟨x, rfl, hCarries⟩, fun hKind => ?_, fun _ j q hGet hMine => ?_⟩
        · simp [hMaterial index piece hHere hCarries] at hKind
        · obtain ⟨y, hSame, hOther⟩ := hMine
          obtain rfl := Option.some.inj hSame
          exact ⟨hMaterial j q hGet hOther, hBehind j q hGet (by simpa using hOther)⟩

/-- There is a task where there is a message of the exchange. -/
theorem exists_taskIndex {q : Piece} (hMem : q ∈ messages) (hMine : Mine own q.message) :
    ∃ i, taskIndex messages own = some i := by
  obtain ⟨x, rfl, hCarries⟩ := hMine
  obtain ⟨j, hGet⟩ := List.mem_iff_getElem?.mp hMem
  have hOwn : (q, j) ∈ messages.zipIdx.filter fun entry =>
      decide (entry.1.message.Carries x) := by
    simp [List.mem_filter, List.mem_zipIdx_iff_getElem?, hGet, hCarries]
  unfold taskIndex
  simp only
  split
  · exact ⟨_, rfl⟩
  · obtain ⟨last, hLast⟩ := Option.isSome_iff_exists.mp
      (List.getLast?_isSome.mpr (List.ne_nil_of_mem hOwn))
    exact ⟨last.2, by simp [hLast]⟩

theorem taskIndex_eq_iff (hHere : messages[i]? = some piece) :
    taskIndex messages own = some i ↔ IsTask messages own i piece := by
  constructor
  · intro hIndex
    obtain ⟨q, hTask⟩ := isTask_of_taskIndex hIndex
    obtain rfl : q = piece := Option.some.inj (hTask.here.symm.trans hHere)
    exact hTask
  · intro hTask
    obtain ⟨j, hIndex⟩ := exists_taskIndex (List.mem_of_getElem? hTask.here) hTask.mine
    obtain ⟨q, hOther⟩ := isTask_of_taskIndex hIndex
    rw [hIndex, hTask.unique hOther]

/-! ## The branch -/

/-- The message that a run sees under a mark. -/
def shown (mark : Mark) (m : ChatMessage) : ChatMessage := { m with content := mark.note m.content }

/-- The mark of the message at a position, by the rule of `render_branch`. -/
def markOf (messages : List Piece) (own : Option ExchangeId) (live : List ExchangeId) (i : Nat)
    (m : ChatMessage) : Mark :=
  if Mine own m then ownMark m i (taskIndex messages own)
  else if Others live m ∧ m.kind = .material then .sharedMaterial
  else .plain

/-- The messages that another run owes an answer to. -/
def isOwed (own : Option ExchangeId) (live : List ExchangeId) (m : ChatMessage) : Bool :=
  decide (¬Mine own m ∧ Others live m ∧ m.kind = .own)

theorem renderPiece_eq (messages : List Piece) (own : Option ExchangeId)
    (live : List ExchangeId) (piece : Piece) (i : Nat) :
    renderPiece own live (taskIndex messages own) piece i =
      if isOwed own live piece.message then none
      else some { piece, mark := markOf messages own live i piece.message } := by
  have hMine : Mine own piece.message ↔
      piece.message.role = .user ∧ ∃ x, piece.message.exchangeId = some x ∧ some x = own := by
    simp only [Mine, ChatMessage.Carries]
    constructor
    · rintro ⟨x, rfl, hRole, hX⟩
      exact ⟨hRole, x, hX, rfl⟩
    · rintro ⟨hRole, x, hX, rfl⟩
      exact ⟨x, rfl, hRole, hX⟩
  have hOthers : Others live piece.message ↔
      piece.message.role = .user ∧ ∃ x, piece.message.exchangeId = some x ∧ x ∈ live := by
    simp only [Others, ChatMessage.Carries]
    constructor
    · rintro ⟨x, hLive, hRole, hX⟩
      exact ⟨hRole, x, hX, hLive⟩
    · rintro ⟨hRole, x, hX, hLive⟩
      exact ⟨x, hLive, hRole, hX⟩
  unfold renderPiece isOwed markOf
  simp only
  split
  · rename_i x hRole hX
    simp only [hMine, hOthers, hRole, hX, true_and, Option.some.injEq, exists_eq_left']
    by_cases hOwn : some x = own
    · simp [hOwn]
    · by_cases hLive : x ∈ live
      · cases hKind : piece.message.kind <;> simp [hOwn, hLive]
      · simp [hOwn, hLive]
  · rename_i hNot
    -- A message without an exchange is nobody's.
    have hNeither : ¬(piece.message.role = .user ∧ ∃ x, piece.message.exchangeId = some x) := by
      rintro ⟨hRole, x, hX⟩
      exact hNot x hRole hX
    have hNotMine : ¬Mine own piece.message := fun h =>
      hNeither ⟨(hMine.mp h).1, (hMine.mp h).2.imp fun _ hX => hX.1⟩
    have hNotOthers : ¬Others live piece.message := fun h =>
      hNeither ⟨(hOthers.mp h).1, (hOthers.mp h).2.imp fun _ hX => hX.1⟩
    simp [hNotMine, hNotOthers]

/-- A branch is the narrative less what others owe, every message under its mark. -/
theorem renderBranch_eq (messages : List Piece) (own : Option ExchangeId)
    (live : List ExchangeId) : renderBranch messages own live =
      (messages.zipIdx.filter fun entry => !isOwed own live entry.1.message).map fun entry =>
        { piece := entry.1, mark := markOf messages own live entry.2 entry.1.message } := by
  unfold renderBranch
  rw [← List.filterMap_eq_map, List.filterMap_filter]
  refine List.filterMap_congr fun entry _ => ?_
  obtain ⟨piece, i⟩ := entry
  have hPiece := renderPiece_eq messages own live piece i
  simp only [hPiece]
  cases isOwed own live piece.message <;> rfl

/-- The marks by their rule. -/
structure Marked (messages : List Piece) (own : Option ExchangeId) (live : List ExchangeId)
    (marks : Nat → Mark) : Prop where
  /-- A task mark is on the task, and nowhere else. -/
  task : ∀ i piece, messages[i]? = some piece →
    ((marks i = .task ∨ marks i = .materialTask) ↔ IsTask messages own i piece)
  spoken : ∀ i piece, messages[i]? = some piece → Mine own piece.message →
    piece.message.kind = .own → marks i = .task ∨ marks i = .clarification
  forwarded : ∀ i piece, messages[i]? = some piece → Mine own piece.message →
    piece.message.kind = .material → marks i = .materialTask ∨ marks i = .material
  shared : ∀ i piece, messages[i]? = some piece → Others live piece.message →
    piece.message.kind = .material → marks i = .sharedMaterial
  plain : ∀ i piece, messages[i]? = some piece → ¬Mine own piece.message →
    ¬Others live piece.message → marks i = .plain

/-- What a run is shown of the narrative: in its order, all but the questions that others owe
an answer to, each message under the mark of its rule, and one task where there is a message of
the run's own exchange. -/
theorem branch_by_rule (messages : List Piece) (own : Option ExchangeId)
    (live : List ExchangeId) (hOther : ∀ x, own = some x → x ∉ live) :
    ∃ marks : Nat → Mark,
      (renderBranch messages own live).map Line.message =
        (messages.zipIdx.filter fun entry =>
          !decide (Others live entry.1.message ∧ entry.1.message.kind = .own)).map
            (fun entry => shown (marks entry.2) entry.1.message) ∧
      Marked messages own live marks ∧
      ((∃ piece ∈ messages, Mine own piece.message) ↔
        ∃! i, ∃ piece, IsTask messages own i piece) := by
  have hApart : ∀ m, Others live m → ¬Mine own m := by
    rintro m ⟨x, hLive, -, hX⟩ ⟨y, rfl, -, hY⟩
    obtain rfl := Option.some.inj (hX.symm.trans hY)
    exact hOther x rfl hLive
  let marks : Nat → Mark := fun i =>
    (messages[i]?.map fun piece => markOf messages own live i piece.message).getD .plain
  have hMarks : ∀ i piece, messages[i]? = some piece →
      marks i = markOf messages own live i piece.message := by
    intro i piece hHere
    simp [marks, hHere]
  refine ⟨marks, ?_, ⟨?_, ?_, ?_, ?_, ?_⟩, ?_, ?_⟩
  · -- A message of the own exchange is never one that others owe an answer to.
    have hOwed : ∀ m, isOwed own live m = decide (Others live m ∧ m.kind = .own) := by
      intro m
      refine decide_eq_decide.mpr ⟨fun h => h.2, fun h => ⟨hApart m h.1, h⟩⟩
    rw [renderBranch_eq, List.map_map]
    simp only [hOwed]
    refine List.map_congr_left fun entry hMem => ?_
    have hHere := List.mem_zipIdx_iff_getElem?.mp (List.mem_filter.mp hMem).1
    rw [hMarks entry.2 entry.1 hHere]
    rfl
  · intro i piece hHere
    rw [hMarks i piece hHere, ← taskIndex_eq_iff hHere]
    unfold markOf ownMark
    constructor
    · intro hMark
      split at hMark
      · split at hMark
        · split at hMark
          · rename_i hIndex
            exact hIndex.symm
          · simp at hMark
        · split at hMark
          · rename_i hIndex
            exact hIndex.symm
          · simp at hMark
      · split at hMark <;> simp at hMark
    · intro hIndex
      -- Only a message of the own exchange is the task, whatever its kind.
      have hMine := ((taskIndex_eq_iff hHere).mp hIndex).mine
      rw [if_pos hMine, hIndex]
      cases piece.message.kind <;> simp
  · intro i piece hHere hMine hKind
    rw [hMarks i piece hHere, markOf, if_pos hMine, ownMark, hKind]
    simp only
    split
    · exact .inl rfl
    · exact .inr rfl
  · intro i piece hHere hMine hKind
    rw [hMarks i piece hHere, markOf, if_pos hMine, ownMark, hKind]
    simp only
    split
    · exact .inl rfl
    · exact .inr rfl
  · intro i piece hHere hOthers hKind
    rw [hMarks i piece hHere, markOf, if_neg (hApart _ hOthers), if_pos ⟨hOthers, hKind⟩]
  · intro i piece hHere hNotMine hNotOthers
    rw [hMarks i piece hHere, markOf, if_neg hNotMine, if_neg fun h => hNotOthers h.1]
  · rintro ⟨piece, hMem, hMine⟩
    obtain ⟨i, hIndex⟩ := exists_taskIndex hMem hMine
    obtain ⟨q, hTask⟩ := isTask_of_taskIndex hIndex
    exact ⟨i, ⟨q, hTask⟩, fun j ⟨_, hOther⟩ => hOther.unique hTask⟩
  · rintro ⟨i, ⟨piece, hTask⟩, -⟩
    exact ⟨piece, List.mem_of_getElem? hTask.here, hTask.mine⟩

/-- A forwarded message, somebody else's question and a question. -/
def twoExchanges : List Piece :=
  [.block { role := .user, content := "see this", kind := .material, exchangeId := some 1 },
    .block { role := .user, content := "and the weather?", exchangeId := some 2 },
    .block { role := .user, content := "what is it?", exchangeId := some 1 }]

theorem branch_by_rule_two_exchanges :
    ∃ marks : Nat → Mark,
      (renderBranch twoExchanges (some 1) [2]).map Line.message =
        (twoExchanges.zipIdx.filter fun entry =>
          !decide (Others [2] entry.1.message ∧ entry.1.message.kind = .own)).map
            (fun entry => shown (marks entry.2) entry.1.message) ∧
      Marked twoExchanges (some 1) [2] marks ∧
      ((∃ piece ∈ twoExchanges, Mine (some 1) piece.message) ↔
        ∃! i, ∃ piece, IsTask twoExchanges (some 1) i piece) :=
  branch_by_rule twoExchanges (some 1) [2] fun x hOwn hLive => by
    obtain rfl := Option.some.inj hOwn
    simp at hLive

end Dialog
end OctoForge
