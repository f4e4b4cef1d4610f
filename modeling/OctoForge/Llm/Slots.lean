import OctoForge.Llm.Fragments

/-!
# The slots of the accumulator

While fragments are fed, the accumulator holds a slot for each index that has appeared; the slots
that are left behind have ended with their event, and the open one has not.
-/

namespace OctoForge
namespace Llm

/-- What the fragments of a slot say together. -/
def ToolCallSlot.text (slot : ToolCallSlot) : CallText :=
  ⟨slot.callId, slot.name, slot.argumentParts.flatten⟩

theorem ToolCallSlot.text_add (slot : ToolCallSlot) (raw : RawCall) :
    (slot.add raw).text = slot.text.add raw := by
  rw [ToolCallSlot.text, ToolCallSlot.add]
  by_cases hNone : raw.arguments.isEmpty
  · simp [CallText.add, ToolCallSlot.text, List.isEmpty_iff.mp hNone]
  · simp [CallText.add, ToolCallSlot.text, hNone]

section Loading

variable (loads : Text → Loaded)

/-- A text that is read with an exception other than a `JSONDecodeError`. -/
def Raises (text : Text) : Prop := ∃ error, loads text = .raised error

/-- The members of an object; a text of anything else has none. -/
def argumentsOf (text : Text) : List (String × Json) :=
  match loads text with
  | .value (.object members) => members
  | _ => []

def CallText.call (text : CallText) : ToolCall := ⟨text.id, text.name, argumentsOf loads text.raw⟩

/-- The event that ends a call is ready when its arguments are the text of an object. -/
inductive Ends (index : Int) (text : CallText) : StreamEvent → Prop
  | ready (members : List (String × Json)) (hObject : loads text.raw = .value (.object members)) :
      Ends index text (.toolCallReady ⟨text.id, text.name, members⟩)
  | broken (error : Text) (hOther : ∀ members, loads text.raw ≠ .value (.object members)) :
      Ends index text (.toolCallBroken index text.id text.name error text.raw)

/-- What a slot holds: once it is left behind it is closed, with its arguments. -/
structure Holds (fragments : List RawCall) (opened : Option Int) (index : Int)
    (slot : ToolCallSlot) : Prop where
  text : slot.text = textOf fragments index
  closed : slot.closed = !decide (opened = some index)
  arguments : slot.arguments = if opened = some index then [] else argumentsOf loads slot.text.raw

/-- The slots once the fragments have been fed, and the events that have ended calls. -/
structure Fed (fragments : List RawCall) (opened : Option Int)
    (toolCalls : List (Int × ToolCallSlot)) (ends : List StreamEvent) : Prop where
  keys : toolCalls.map (·.1) = indices fragments
  slots : ∀ entry ∈ toolCalls, Holds loads fragments opened entry.1 entry.2
  ends : ∃ ended, indices fragments = ended ++ opened.toList ∧
    (∀ index ∈ ended, ¬Raises loads (textOf fragments index).raw) ∧
    List.Forall₂ (fun index event => Ends loads index (textOf fragments index) event) ended ends

/-- An accumulator that is being fed. -/
def Feeding (fragments : List RawCall) (acc : Accumulator) (ends : List StreamEvent) : Prop :=
  acc.openIndex = openOf fragments ∧ Fed loads fragments (openOf fragments) acc.toolCalls ends

end Loading

variable {loads : Text → Loaded} {fragments : List RawCall} {index : Int} {text : CallText}
  {event : StreamEvent}

theorem argumentsOf_object {raw : Text} {members : List (String × Json)}
    (hObject : loads raw = .value (.object members)) : argumentsOf loads raw = members := by
  rw [argumentsOf, hObject]

theorem argumentsOf_other {raw : Text} (hOther : ∀ members, loads raw ≠ .value (.object members)) :
    argumentsOf loads raw = [] := by
  rw [argumentsOf]
  split
  · rename_i members hObject
    exact absurd hObject (hOther members)
  · rfl

theorem Ends.ends (hEnds : Ends loads index text event) : event.ends = true := by
  cases hEnds with
  | ready => rfl
  | broken => rfl

theorem Ends.call (hEnds : Ends loads index text event) : event.call = some (text.call loads) := by
  cases hEnds with
  | ready members hObject =>
      rw [CallText.call, argumentsOf_object hObject]
      rfl
  | broken error hOther =>
      rw [CallText.call, argumentsOf_other hOther]
      rfl

/-! ## What is known of the slots -/

variable {opened : Option Int} {toolCalls : List (Int × ToolCallSlot)} {ends : List StreamEvent}

theorem Holds.fresh {slot : ToolCallSlot} (hHolds : Holds loads fragments (some index) index slot) :
    slot.closed = false ∧ slot.arguments = [] := by
  obtain ⟨-, hClosed, hArguments⟩ := hHolds
  rw [decide_eq_true rfl] at hClosed
  rw [if_pos rfl] at hArguments
  exact ⟨hClosed, hArguments⟩

/-- A slot that is left behind stays as it is when nothing more is said of its index. -/
theorem Holds.elsewhere {slot : ToolCallSlot} {more : List RawCall} {next : Option Int}
    (hHolds : Holds loads fragments opened index slot) (hBefore : opened ≠ some index)
    (hAfter : next ≠ some index) (hText : textOf more index = textOf fragments index) :
    Holds loads more next index slot := by
  obtain ⟨hSlot, hClosed, hArguments⟩ := hHolds
  rw [decide_eq_false hBefore] at hClosed
  rw [if_neg hBefore] at hArguments
  refine ⟨hSlot.trans hText.symm, ?_, ?_⟩
  · rw [decide_eq_false hAfter, hClosed]
  · rw [if_neg hAfter, hArguments]

theorem Fed.nodup (hFed : Fed loads fragments opened toolCalls ends) :
    (toolCalls.map (·.1)).Nodup :=
  hFed.keys ▸ nodup_indices fragments

theorem Fed.mem_open (hFed : Fed loads fragments (some index) toolCalls ends) :
    index ∈ indices fragments := by
  obtain ⟨ended, hIndices, -⟩ := hFed.ends
  rw [hIndices]
  exact List.mem_append_right _ (List.mem_singleton_self index)

/-- The slot of an index that has appeared. -/
theorem Fed.exists_slot (hFed : Fed loads fragments opened toolCalls ends)
    (hIndex : index ∈ indices fragments) :
    ∃ slot, (index, slot) ∈ toolCalls ∧ Dict.get toolCalls index = some slot ∧
      Holds loads fragments opened index slot := by
  obtain ⟨⟨index, slot⟩, hEntry, rfl⟩ := List.mem_map.mp (hFed.keys.symm ▸ hIndex)
  exact ⟨slot, hEntry, (Dict.get_eq_some hFed.nodup).mpr hEntry, hFed.slots _ hEntry⟩

/-! ## Closing a slot -/

/-- A slot ends with its event, unless its arguments are read with an exception. -/
theorem ToolCallSlot.close_cases {slot : ToolCallSlot} (hFresh : slot.arguments = []) :
    (Raises loads slot.text.raw ∧ ∃ error, slot.close loads index = .error error) ∨
      ¬Raises loads slot.text.raw ∧ ∃ event, Ends loads index slot.text event ∧
        slot.close loads index =
          .ok (event, { slot with closed := true, arguments := argumentsOf loads slot.text.raw }) := by
  rw [ToolCallSlot.close]
  split
  · rename_i error hRaised
    exact .inl ⟨⟨error, hRaised⟩, error, rfl⟩
  · rename_i error hUndecodable
    have hOther : ∀ members, loads slot.text.raw ≠ .value (.object members) := by
      intro members hObject
      exact nomatch hUndecodable.symm.trans hObject
    rw [argumentsOf_other hOther, ← hFresh]
    refine .inr ⟨?_, _, .broken error hOther, rfl⟩
    rintro ⟨raised, hRaised⟩
    exact nomatch hUndecodable.symm.trans hRaised
  · rename_i members hValue
    have hObject : loads slot.text.raw = .value (.object members) := hValue
    rw [argumentsOf_object hObject]
    refine .inr ⟨?_, _, .ready members hObject, rfl⟩
    rintro ⟨raised, hRaised⟩
    exact nomatch hObject.symm.trans hRaised
  · rename_i document hNotObject hValue
    have hOther : ∀ members, loads slot.text.raw ≠ .value (.object members) := by
      intro members hObject
      exact hNotObject members (Loaded.value.inj (hValue.symm.trans hObject))
    rw [argumentsOf_other hOther, ← hFresh]
    refine .inr ⟨?_, _, .broken argumentsNotObject hOther, rfl⟩
    rintro ⟨raised, hRaised⟩
    exact nomatch hValue.symm.trans hRaised

namespace Accumulator

variable {acc : Accumulator}

/-- The open slot ends with its event, and all slots are closed then. -/
theorem closeSlot_cases (hFed : Fed loads fragments (some index) acc.toolCalls ends) :
    (Raises loads (textOf fragments index).raw ∧ ∃ error, acc.closeSlot loads index = .error error) ∨
      ∃ event toolCalls, event.ends = true ∧ Fed loads fragments none toolCalls (ends ++ [event]) ∧
        acc.closeSlot loads index = .ok (some event, { acc with toolCalls }) := by
  obtain ⟨slot, hEntry, hSlot, hHolds⟩ := hFed.exists_slot hFed.mem_open
  obtain ⟨hClosed, hArguments⟩ := hHolds.fresh
  have hText := hHolds.text
  rw [closeSlot, hSlot]
  dsimp only
  rw [hClosed, if_neg Bool.false_ne_true, ← hText]
  -- Closing a slot reads its arguments, and this is where it can fail.
  rcases ToolCallSlot.close_cases hArguments with ⟨hRaises, error, hClose⟩ | ⟨hReads, event, hEnds, hClose⟩
  · rw [hClose]
    exact .inl ⟨hRaises, error, rfl⟩
  · rw [hClose]
    refine .inr ⟨event, _, hEnds.ends, ⟨?_, ?_, ?_⟩, rfl⟩
    · rw [Dict.keys_put, if_pos (List.mem_map.mpr ⟨_, hEntry, rfl⟩)]
      exact hFed.keys
    · -- Nothing else is open, so with this slot all of them are closed.
      intro entry hMem
      rcases (Dict.mem_put hFed.nodup).mp hMem with rfl | ⟨hOld, hKey⟩
      · exact ⟨hText, rfl, rfl⟩
      · have hBehind : some index ≠ some entry.1 := fun hSame => hKey (Option.some.inj hSame).symm
        exact (hFed.slots entry hOld).elsewhere hBehind nofun rfl
    · obtain ⟨ended, hIndices, hRead, hEvents⟩ := hFed.ends
      refine ⟨ended ++ [index], by rw [hIndices]; simp, ?_, ?_⟩
      · intro other hOther
        rcases List.mem_append.mp hOther with hOld | hNew
        · exact hRead other hOld
        · obtain rfl := List.mem_singleton.mp hNew
          rw [← hText]
          exact hReads
      · rw [hText] at hEnds
        exact List.rel_append hEvents (.cons hEnds .nil)

/-- The call that is left when the fragments go on to another index. -/
theorem closeOpen_cases {raw : RawCall} (hFeeding : Feeding loads fragments acc ends)
    (hNext : raw.slot ∈ indices fragments → openOf fragments = some raw.slot) :
    (∃ index ∈ indices fragments, index ≠ raw.slot ∧ Raises loads (textOf fragments index).raw ∧
        ∃ error, acc.closeOpen loads raw.slot = .error error) ∨
      ∃ (closed : Option StreamEvent) (toolCalls : List (Int × ToolCallSlot)),
        (∀ event ∈ closed, event.ends = true) ∧
        Fed loads fragments (if raw.slot ∈ indices fragments then some raw.slot else none) toolCalls
          (ends ++ closed.toList) ∧
        acc.closeOpen loads raw.slot = .ok (closed, { acc with toolCalls }) := by
  obtain ⟨hIndex, hFed⟩ := hFeeding
  -- An index that has been seen is the one that is open: its fragments are contiguous.
  by_cases hSeen : raw.slot ∈ indices fragments
  · rw [hNext hSeen] at hIndex hFed
    have hClose : acc.closeOpen loads raw.slot = .ok (none, acc) := by
      rw [closeOpen, hIndex]
      exact if_pos rfl
    rw [if_pos hSeen]
    exact .inr ⟨none, acc.toolCalls, nofun, by simpa using hFed, hClose⟩
  · rw [if_neg hSeen]
    cases hOpen : openOf fragments with
    | none =>
        rw [hOpen] at hIndex hFed
        have hClose : acc.closeOpen loads raw.slot = .ok (none, acc) := by rw [closeOpen, hIndex]
        exact .inr ⟨none, acc.toolCalls, nofun, by simpa using hFed, hClose⟩
    | some index =>
        rw [hOpen] at hIndex hFed
        have hOther : index ≠ raw.slot := by
          rintro rfl
          exact hSeen hFed.mem_open
        have hClose : acc.closeOpen loads raw.slot = acc.closeSlot loads index := by
          rw [closeOpen, hIndex]
          exact if_neg hOther
        rw [hClose]
        rcases closeSlot_cases hFed with ⟨hRaises, hError⟩ | ⟨event, toolCalls, hEnds, hClosed, hOk⟩
        · exact .inl ⟨index, hFed.mem_open, hOther, hRaises, hError⟩
        · exact .inr ⟨some event, toolCalls, fun _ hEvent => Option.some.inj hEvent ▸ hEnds, hClosed, hOk⟩

end Accumulator

section Adding

variable {raw : RawCall}

/-- The slot that a fragment goes into is open, or it is new. -/
theorem Fed.slot_of_next
    (hFed : Fed loads fragments (if raw.slot ∈ indices fragments then some raw.slot else none)
      toolCalls ends) :
    ((Dict.get toolCalls raw.slot).getD {}).text = textOf fragments raw.slot ∧
      ((Dict.get toolCalls raw.slot).getD {}).closed = false ∧
      ((Dict.get toolCalls raw.slot).getD {}).arguments = [] := by
  by_cases hSeen : raw.slot ∈ indices fragments
  · rw [if_pos hSeen] at hFed
    obtain ⟨slot, -, hSlot, hHolds⟩ := hFed.exists_slot hSeen
    rw [hSlot]
    exact ⟨hHolds.text, hHolds.fresh⟩
  · have hNone : Dict.get toolCalls raw.slot = none := Dict.get_eq_none (hFed.keys.symm ▸ hSeen)
    rw [hNone, textOf_of_notMem hSeen]
    exact ⟨rfl, rfl, rfl⟩

/-- A fragment goes into the slot of its index. -/
theorem Fed.add
    (hFed : Fed loads fragments (if raw.slot ∈ indices fragments then some raw.slot else none)
      toolCalls ends) (started : Bool) :
    Fed loads (fragments ++ [raw]) (some raw.slot)
      (Dict.put raw.slot { ((Dict.get toolCalls raw.slot).getD {}).add raw with started } toolCalls)
      ends := by
  obtain ⟨ended, hIndices, hRead, hEvents⟩ := hFed.ends
  -- An index appears once, so what has ended is not the one that is open.
  have hEnded : ∀ index ∈ ended, raw.slot ≠ index := by
    rintro index hIndex rfl
    have hSeen : raw.slot ∈ indices fragments := hIndices ▸ List.mem_append_left _ hIndex
    have hTwice := nodup_indices fragments
    rw [hIndices, if_pos hSeen, Option.toList_some, List.nodup_append] at hTwice
    exact hTwice.2.2 raw.slot hIndex raw.slot (List.mem_singleton_self _) rfl
  refine ⟨?_, ?_, ended, ?_, ?_, ?_⟩
  · rw [Dict.keys_put, hFed.keys, indices_concat]
  · intro entry hEntry
    rcases (Dict.mem_put hFed.nodup).mp hEntry with rfl | ⟨hOld, hKey⟩
    · obtain ⟨hText, hClosed, hArguments⟩ := hFed.slot_of_next
      refine ⟨?_, ?_, ?_⟩
      · rw [textOf_concat, if_pos rfl, ← hText]
        exact ToolCallSlot.text_add _ raw
      · rw [decide_eq_true rfl]
        exact hClosed
      · rw [if_pos rfl]
        exact hArguments
    · have hBehind : some raw.slot ≠ some entry.1 := fun hSame => hKey (Option.some.inj hSame).symm
      refine (hFed.slots entry hOld).elsewhere ?_ hBehind ?_
      · split
        · exact hBehind
        · exact nofun
      · rw [textOf_concat, if_neg (Ne.symm hKey)]
  · rw [indices_concat, Option.toList_some]
    split
    · rename_i hSeen
      rw [hIndices, if_pos hSeen, Option.toList_some]
    · rename_i hNew
      rw [hIndices, if_neg hNew, Option.toList_none, List.append_nil]
  · intro index hIndex
    rw [textOf_concat, if_neg (hEnded index hIndex)]
    exact hRead index hIndex
  · refine ((List.forall₂_and_left _ _).mpr ⟨hEnded, hEvents⟩).imp ?_
    rintro index event ⟨hOther, hEnds⟩
    rw [textOf_concat, if_neg hOther]
    exact hEnds

end Adding

end Llm
end OctoForge
