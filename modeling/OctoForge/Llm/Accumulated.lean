import OctoForge.Llm.Slots

/-!
# What is accumulated

The events and the message of a stream whose fragments are contiguous depend on the texts alone,
and not on where they are cut.
-/

namespace OctoForge
namespace Llm

section Outcomes

variable (loads : Text → Loaded)

/-- The arguments of an index that is left behind are read with an exception. -/
def Stuck (fragments : List RawCall) : Prop :=
  ∃ index ∈ indices fragments, openOf fragments ≠ some index ∧
    Raises loads (textOf fragments index).raw

/-- What is known once the fragments have been fed, by what has come of it. -/
def Outcome (fragments : List RawCall) (content : Text) (ends : List StreamEvent) :
    Except Text (List StreamEvent × Accumulator) → Prop
  | .error _ => Stuck loads fragments
  | .ok (events, after) =>
      Feeding loads fragments after (ends ++ events.filter StreamEvent.ends) ∧
        after.contentParts.flatten = content

end Outcomes

variable {loads : Text → Loaded} {fragments rest : List RawCall} {content : Text}
  {ends : List StreamEvent}

theorem Stuck.append (hStuck : Stuck loads fragments) (hContiguous : Contiguous (fragments ++ rest)) :
    Stuck loads (fragments ++ rest) := by
  obtain ⟨index, hIndex, hLeft, hRaises⟩ := hStuck
  obtain ⟨hMem, hBehind, hText⟩ := hContiguous.left_behind hIndex hLeft
  exact ⟨index, hMem, hBehind, hText ▸ hRaises⟩

/-- What has been yielded before goes before what the rest yields. -/
theorem Outcome.prepend {events : List StreamEvent}
    {next : Except Text (List StreamEvent × Accumulator)}
    (hNext : Outcome loads fragments content (ends ++ events.filter StreamEvent.ends) next) :
    Outcome loads fragments content ends
      (next >>= fun result => .ok (events ++ result.1, result.2)) := by
  cases next with
  | error error => exact hNext
  | ok result =>
      obtain ⟨hFeeding, hContent⟩ := hNext
      rw [List.append_assoc, ← List.filter_append] at hFeeding
      exact ⟨hFeeding, hContent⟩

theorem filter_ends_eq_nil {events : List StreamEvent} (hNone : ∀ event ∈ events, event.ends = false) :
    events.filter StreamEvent.ends = [] := by
  refine List.filter_eq_nil_iff.mpr fun event hEvent => ?_
  rw [hNone event hEvent]
  exact Bool.false_ne_true

/-- Events that end no call do not count. -/
theorem Outcome.yields {events : List StreamEvent}
    {next : Except Text (List StreamEvent × Accumulator)} (hNone : ∀ event ∈ events, event.ends = false)
    (hNext : Outcome loads fragments content ends next) :
    Outcome loads fragments content ends
      (next.map fun result => (events ++ result.1, result.2)) := by
  cases next with
  | error error => exact hNext
  | ok result =>
      refine ⟨?_, hNext.2⟩
      rw [List.filter_append, filter_ends_eq_nil hNone, List.nil_append]
      exact hNext.1

namespace Accumulator

variable {acc : Accumulator}

/-! ## Feeding -/

theorem feedToolCall_outcome {raw : RawCall} (hFeeding : Feeding loads fragments acc ends)
    (hContiguous : Contiguous (fragments ++ [raw])) :
    Outcome loads (fragments ++ [raw]) acc.contentParts.flatten ends (acc.feedToolCall loads raw) := by
  rw [feedToolCall]
  rcases closeOpen_cases hFeeding hContiguous.next with
    ⟨index, hIndex, hOther, hRaises, error, hClose⟩ | ⟨closed, toolCalls, hEnds, hFed, hClose⟩
  · rw [hClose]
    -- The index that raises is left behind by this fragment.
    refine ⟨index, ?_, ?_, ?_⟩
    · obtain ⟨first, hFirst, hSlot⟩ := mem_indices.mp hIndex
      exact mem_indices.mpr ⟨first, List.mem_append_left _ hFirst, hSlot⟩
    · rw [openOf_concat]
      exact fun hSame => hOther (Option.some.inj hSame).symm
    · rw [textOf_concat, if_neg (Ne.symm hOther)]
      exact hRaises
  · rw [hClose]
    refine ⟨⟨openOf_concat.symm, ?_⟩, rfl⟩
    rw [openOf_concat]
    have hClosed : closed.toList.filter StreamEvent.ends = closed.toList :=
      List.filter_eq_self.mpr fun event hEvent => hEnds event (Option.mem_toList.mp hEvent)
    dsimp only
    rw [List.filter_append, hClosed, filter_ends_eq_nil, List.append_nil]
    · exact hFed.add _
    · intro event hEvent
      split at hEvent
      · obtain rfl := List.mem_singleton.mp hEvent
        rfl
      · cases hEvent

/-- The fragments of a delta, one after the other. -/
theorem feedToolCalls_outcome (hFeeding : Feeding loads fragments acc ends)
    (hContiguous : Contiguous (fragments ++ rest)) :
    Outcome loads (fragments ++ rest) acc.contentParts.flatten ends (acc.feedToolCalls loads rest) := by
  induction rest generalizing fragments acc ends with
  | nil =>
      rw [List.append_nil]
      exact ⟨by simpa using hFeeding, rfl⟩
  | cons raw rest ih =>
      rw [List.append_cons] at hContiguous ⊢
      rw [feedToolCalls]
      have hStep := feedToolCall_outcome hFeeding (Sequence.Along.of_append hContiguous)
      cases hFed : acc.feedToolCall loads raw with
      | error error =>
          rw [hFed] at hStep
          exact hStep.append hContiguous
      | ok result =>
          obtain ⟨events, after⟩ := result
          rw [hFed] at hStep
          obtain ⟨hAfter, hContent⟩ := hStep
          have hRest := ih hAfter hContiguous
          rw [hContent] at hRest
          exact hRest.prepend

/-- One payload. -/
theorem feed_outcome {chunk : Chunk} (hFeeding : Feeding loads fragments acc ends)
    (hContiguous : Contiguous (fragments ++ fragmentsOf [chunk])) :
    Outcome loads (fragments ++ fragmentsOf [chunk]) (acc.contentParts.flatten ++ contentOf [chunk])
      ends (acc.feed loads chunk) := by
  rw [feed]
  obtain ⟨usage, delta⟩ := chunk
  cases delta with
  | none =>
      rw [fragmentsOf_singleton, Option.map_none, Option.getD_none, List.append_nil]
      refine ⟨?_, ?_⟩
      · rw [List.filter_nil, List.append_nil]
        exact hFeeding
      · exact (List.append_nil _).symm
  | some delta =>
      -- An empty delta is not kept, and adds nothing to the text either.
      have hParts : (acc.contentParts ++ if delta.content.isEmpty then [] else [delta.content]).flatten =
          acc.contentParts.flatten ++ delta.content := by
        rw [List.flatten_append]
        split
        · rename_i hEmpty
          rw [List.isEmpty_iff.mp hEmpty]
          rfl
        · rw [List.flatten_singleton]
      rw [fragmentsOf_singleton, Option.map_some, Option.getD_some] at hContiguous ⊢
      rw [contentOf_singleton, Option.map_some, Option.getD_some, ← hParts]
      refine Outcome.yields ?_ (feedToolCalls_outcome hFeeding hContiguous)
      intro event hEvent
      rcases List.mem_append.mp hEvent with hReasoning | hDelta
      · split at hReasoning
        · obtain rfl := List.mem_singleton.mp hReasoning
          rfl
        · cases hReasoning
      · obtain ⟨text, -, rfl⟩ := List.mem_map.mp hDelta
        rfl

/-- The payloads of a stream, one after the other. -/
theorem feedAll_outcome {chunks : List Chunk} (hFeeding : Feeding loads fragments acc ends)
    (hContiguous : Contiguous (fragments ++ fragmentsOf chunks)) :
    Outcome loads (fragments ++ fragmentsOf chunks) (acc.contentParts.flatten ++ contentOf chunks)
      ends (acc.feedAll loads chunks) := by
  induction chunks generalizing fragments acc ends with
  | nil =>
      have hNone : fragmentsOf [] = [] := rfl
      rw [hNone, List.append_nil]
      exact ⟨by simpa using hFeeding, (List.append_nil _).symm⟩
  | cons chunk chunks ih =>
      rw [fragmentsOf_cons, ← List.append_assoc] at hContiguous ⊢
      rw [contentOf_cons, ← List.append_assoc, feedAll]
      have hStep := feed_outcome hFeeding (Sequence.Along.of_append hContiguous)
      cases hFed : acc.feed loads chunk with
      | error error =>
          rw [hFed] at hStep
          exact hStep.append hContiguous
      | ok result =>
          obtain ⟨events, after⟩ := result
          rw [hFed] at hStep
          obtain ⟨hAfter, hContent⟩ := hStep
          have hRest := ih hAfter hContiguous
          rw [hContent] at hRest
          exact hRest.prepend

/-! ## The message -/

theorem feeding_nil : Feeding loads [] {} [] :=
  ⟨rfl, rfl, List.forall_mem_nil _, [], rfl, List.forall_mem_nil _, .nil⟩

/-- The call that is left when the stream ends. -/
theorem finish_cases (hFeeding : Feeding loads fragments acc ends) :
    (∃ index ∈ indices fragments, Raises loads (textOf fragments index).raw ∧
        ∃ error, acc.finish loads = .error error) ∨
      ∃ events after, acc.finish loads = .ok (events, after) ∧
        events.filter StreamEvent.ends = events ∧ after.contentParts = acc.contentParts ∧
        Fed loads fragments none after.toolCalls (ends ++ events) := by
  obtain ⟨hIndex, hFed⟩ := hFeeding
  rw [finish, hIndex]
  cases hOpen : openOf fragments with
  | none =>
      rw [hOpen] at hFed
      exact .inr ⟨[], acc, rfl, rfl, rfl, by simpa using hFed⟩
  | some index =>
      rw [hOpen] at hFed
      dsimp only
      rcases closeSlot_cases hFed with ⟨hRaises, error, hError⟩ | ⟨event, toolCalls, hEnds, hClosed, hOk⟩
      · exact .inl ⟨index, hFed.mem_open, hRaises, error, by rw [hError]; rfl⟩
      · refine .inr ⟨[event], { acc with toolCalls }, by rw [hOk]; rfl, ?_, rfl, hClosed⟩
        exact List.filter_eq_self.mpr fun _ hEvent => List.mem_singleton.mp hEvent ▸ hEnds

/-- There is nothing left to close in the end. -/
theorem closeAll_eq_self (hFed : Fed loads fragments none acc.toolCalls ends) (indices : List Int) :
    acc.closeAll loads indices = .ok acc := by
  induction indices with
  | nil => rfl
  | cons index rest ih =>
      have hClose : acc.closeSlot loads index = .ok (none, acc) := by
        rw [closeSlot]
        cases hFound : Dict.get acc.toolCalls index with
        | none => rfl
        | some slot =>
            have hClosed : slot.closed = true :=
              (hFed.slots _ ((Dict.get_eq_some hFed.nodup).mp hFound)).closed
            exact if_pos hClosed
      rw [closeAll, hClose]
      exact ih

/-- The message is made of the texts. -/
theorem buildMessage_eq (hFed : Fed loads fragments none acc.toolCalls ends) :
    acc.buildMessage loads = .ok ⟨acc.contentParts.flatten,
      ((indices fragments).insertionSort (· ≤ ·)).map fun index =>
        (textOf fragments index).call loads⟩ := by
  have hCalls : acc.calls = ((indices fragments).insertionSort (· ≤ ·)).map fun index =>
      (textOf fragments index).call loads := by
    have hKeys := List.map_insertionSort (fun entry other : Int × ToolCallSlot => entry.1 ≤ other.1)
      (fun index other : Int => index ≤ other) (·.1) acc.toolCalls fun _ _ _ _ => Iff.rfl
    rw [calls, ← hFed.keys, ← hKeys, List.map_map]
    refine List.map_congr_left fun entry hEntry => ?_
    obtain ⟨hText, -, hArguments⟩ := hFed.slots entry ((List.mem_insertionSort _).mp hEntry)
    rw [Function.comp_apply, ← hText, hArguments]
    rfl
  rw [buildMessage, closeAll_eq_self hFed, ← hCalls]
  rfl

end Accumulator

/-- The message of the texts. -/
def Texts.message (loads : Text → Loaded) (texts : Texts) : ChatMessage :=
  ⟨texts.content, texts.calls.map fun entry => entry.2.call loads⟩

/-- A stream of contiguous fragments is accumulated unless some arguments are read with an
exception. -/
theorem accumulate_cases {chunks : List Chunk} (hContiguous : Contiguous (fragmentsOf chunks)) :
    (∃ index ∈ indices (fragmentsOf chunks), Raises loads (textOf (fragmentsOf chunks) index).raw) ∧
        (∃ error, accumulate loads chunks = .error error) ∨
      (∀ index ∈ indices (fragmentsOf chunks),
        ¬Raises loads (textOf (fragmentsOf chunks) index).raw) ∧
        ∃ events, accumulate loads chunks = .ok (events, (textsOf chunks).message loads) ∧
          List.Forall₂ (fun index event => Ends loads index (textOf (fragmentsOf chunks) index) event)
            (indices (fragmentsOf chunks)) (events.filter StreamEvent.ends) := by
  have hFeed : Outcome loads (fragmentsOf chunks) (contentOf chunks) []
      (Accumulator.feedAll loads {} chunks) :=
    Accumulator.feedAll_outcome Accumulator.feeding_nil hContiguous
  rw [accumulate]
  cases hFed : Accumulator.feedAll loads {} chunks with
  | error error =>
      rw [hFed] at hFeed
      obtain ⟨index, hIndex, -, hRaises⟩ := hFeed
      exact .inl ⟨⟨index, hIndex, hRaises⟩, error, rfl⟩
  | ok result =>
      obtain ⟨events, acc⟩ := result
      rw [hFed] at hFeed
      obtain ⟨hFeeding, hContent⟩ := hFeed
      -- The last slot is still open when the stream ends, and its arguments are read then.
      rcases Accumulator.finish_cases hFeeding with
        ⟨index, hIndex, hRaises, error, hFinish⟩ | ⟨last, after, hFinish, hLast, hParts, hAfter⟩
      · refine .inl ⟨⟨index, hIndex, hRaises⟩, error, ?_⟩
        change (acc.finish loads >>= _) = _
        rw [hFinish]
        rfl
      · obtain ⟨ended, hIndices, hRead, hEvents⟩ := hAfter.ends
        rw [Option.toList_none, List.append_nil] at hIndices
        subst hIndices
        refine .inr ⟨hRead, events ++ last, ?_, ?_⟩
        · change (acc.finish loads >>= _) = _
          rw [hFinish]
          change (after.buildMessage loads >>= _) = _
          rw [Accumulator.buildMessage_eq hAfter, hParts, hContent, Texts.message, textsOf, List.map_map]
          rfl
        · rw [List.filter_append, hLast]
          exact hEvents

theorem filterMap_call {events : List StreamEvent} :
    (events.filter StreamEvent.ends).filterMap StreamEvent.call = events.filterMap StreamEvent.call := by
  rw [List.filterMap_filter]
  congr 1
  funext event
  cases event with
  | toolCallReady => rfl
  | toolCallBroken => rfl
  | _ => rfl

/-- The events that end the calls have the calls of the message. -/
theorem calls_of_ends {events : List StreamEvent} {texts : List Int}
    (hEnds : List.Forall₂ (fun index event => Ends loads index (textOf fragments index) event) texts
      events) :
    events.filterMap StreamEvent.call = texts.map fun index => (textOf fragments index).call loads := by
  induction hEnds with
  | nil => rfl
  | cons hFirst _ ih => rw [List.filterMap_cons, hFirst.call, List.map_cons, ih]

section Streams

variable (loads : Text → Loaded)

/-- A stream of contiguous fragments and what comes of it. -/
structure Accumulated (chunks : List Chunk) (events : List StreamEvent) (message : ChatMessage) :
    Prop where
  run : accumulate loads chunks = .ok (events, message)
  /-- Another stream of the same texts has the same message, wherever it is cut. -/
  uncut : ∀ others, Contiguous (fragmentsOf others) → textsOf others = textsOf chunks →
    ∃ yielded, accumulate loads others = .ok (yielded, message)
  /-- One event for each index, in the order they appear. -/
  ended : List.Forall₂ (fun index event => Ends loads index (textOf (fragmentsOf chunks) index) event)
    (indices (fragmentsOf chunks)) (events.filter StreamEvent.ends)
  calls : (events.filterMap StreamEvent.call).Perm message.toolCalls

end Streams

/-- A stream of contiguous fragments is accumulated when no arguments are read with an exception
other than a `JSONDecodeError`, and not otherwise. -/
theorem accumulated_iff {chunks : List Chunk} (hContiguous : Contiguous (fragmentsOf chunks)) :
    (∃ events message, Accumulated loads chunks events message) ↔
      ∀ index ∈ indices (fragmentsOf chunks),
        ¬Raises loads (textOf (fragmentsOf chunks) index).raw := by
  rcases accumulate_cases hContiguous with ⟨hRaises, error, hError⟩ | ⟨hRead, events, hRun, hEnds⟩
  · refine iff_of_false ?_ fun hRead => ?_
    · rintro ⟨events, message, hAccumulated⟩
      exact nomatch hError.symm.trans hAccumulated.run
    · obtain ⟨index, hIndex, hRaised⟩ := hRaises
      exact hRead index hIndex hRaised
  · refine iff_of_true ⟨events, (textsOf chunks).message loads, hRun, ?_, hEnds, ?_⟩ hRead
    · intro others hOthers hTexts
      rcases accumulate_cases hOthers with ⟨⟨index, hIndex, hRaised⟩, -⟩ | ⟨-, yielded, hYielded, -⟩
      · -- an index of the one stream is an index of the other, with the same text
        have hMem : (index, textOf (fragmentsOf others) index) ∈ (textsOf chunks).calls := by
          rw [← hTexts]
          exact List.mem_map_of_mem ((List.mem_insertionSort _).mpr hIndex)
        obtain ⟨same, hSame, hPair⟩ := List.mem_map.mp hMem
        obtain ⟨rfl, hText⟩ := Prod.mk.inj hPair
        rw [← hText] at hRaised
        exact absurd hRaised (hRead same ((List.mem_insertionSort _).mp hSame))
      · rw [hTexts] at hYielded
        exact ⟨yielded, hYielded⟩
    · rw [← filterMap_call, calls_of_ends hEnds, Texts.message, textsOf, List.map_map]
      exact ((List.perm_insertionSort _ _).map _).symm

/-- Two calls, the first of them in two fragments. -/
theorem accumulated_iff_cut :
    ∃ events message, Accumulated
      (fun text => if text = "\x7b\x7d".toList then .value (.object []) else .value (.array []))
      [⟨none, some ⟨[], false, "Hi".toList, [⟨some 1, "b".toList, "g".toList, "\x7b".toList⟩]⟩⟩,
        ⟨none, some ⟨[], false, [], [⟨some 1, [], [], "\x7d".toList⟩,
          ⟨some 0, "a".toList, "f".toList, "[]".toList⟩]⟩⟩] events message := by
  refine (accumulated_iff ?_).mpr ?_
  · refine Sequence.Along.snoc (Sequence.Along.snoc (Sequence.Along.snoc .nil nofun) ?_) ?_
    · decide
    · decide
  · rintro index - ⟨error, hRaised⟩
    dsimp only at hRaised
    split at hRaised
    · cases hRaised
    · cases hRaised

/-- Arguments with an integer of more digits than are converted. -/
def longNumber : Text := "\x7b\"n\": ".toList ++ List.replicate 4301 '1' ++ "\x7d".toList

/-- A stream of one call with these arguments. -/
def longStream : List Chunk :=
  [⟨none, some ⟨[], false, [], [⟨some 0, "a".toList, "f".toList, longNumber⟩]⟩⟩]

/-- An integer that is too long is a `ValueError` of its own, and the stream fails with it. -/
theorem accumulated_not_longNumber :
    Contiguous (fragmentsOf longStream) ∧ ¬∃ events message, Accumulated
      (fun text =>
        if text = longNumber then
          .raised "Exceeds the limit (4300 digits) for integer string conversion".toList
        else .value (.object []))
      longStream events message := by
  have hContiguous : Contiguous (fragmentsOf longStream) := Sequence.Along.snoc .nil nofun
  refine ⟨hContiguous, ?_⟩
  rintro ⟨events, message, hAccumulated⟩
  have hLong : longNumber.isEmpty = false :=
    List.isEmpty_eq_false_iff.mpr (List.append_ne_nil_of_right_ne_nil _ (by decide))
  have hText : (textOf (fragmentsOf longStream) 0).raw = longNumber := by
    change (if longNumber.isEmpty then _ else longNumber) = longNumber
    rw [hLong, if_neg Bool.false_ne_true]
  rcases accumulate_cases hContiguous with ⟨-, error, hError⟩ | ⟨hRead, -⟩
  · exact nomatch hError.symm.trans hAccumulated.run
  · refine hRead 0 (mem_indices.mpr ⟨_, List.mem_singleton_self _, rfl⟩) ?_
    rw [Raises, hText]
    exact ⟨_, if_pos rfl⟩

end Llm
end OctoForge
