import OctoForge.Json.Line
import OctoForge.Llm.Accumulated
import OctoForge.Llm.Client

/-!
# The two ways of asking

A provider that has the same message to give in one document and in a stream is understood in the
same way, however it cuts the stream into deltas, and the transport the text into pieces.
-/

namespace OctoForge
namespace Llm

open Text (LineEnd Unbroken joinLines splitlines)

/-! ## The lines of a stream -/

/-- A line of a stream: a payload, or anything that is none. -/
inductive StreamLine where
  | data (payload : Json)
  | other (line : Text)

def StreamLine.payload : StreamLine → Option Json
  | .data payload => some payload
  | .other _ => none

section Writing

variable (print : Json → Text)

def StreamLine.text : StreamLine → Text
  | .data payload => sseDataPrefix ++ ' ' :: print payload
  | .other line => line

/-- The text of a stream, up to what comes behind its payloads. -/
def streamText (lines : List (StreamLine × LineEnd)) : Text :=
  joinLines (lines.map fun line => (line.1.text print, line.2))

/-- A line that the client can make something of. -/
def StreamLine.Fine (reprFloat : Text → Text) : StreamLine → Prop
  | .data payload => payload.InLine print reprFloat
  | .other line => Unbroken line ∧ ¬sseDataPrefix <+: line

end Writing

/-- What follows the payloads: nothing, or the mark and anything behind it. -/
def Ended (rest : Text) : Prop :=
  rest = [] ∨ ∃ (ending : LineEnd) (more : Text),
    rest = sseDataPrefix ++ ' ' :: sseDoneMarker ++ ending.text ++ more

variable {print : Json → Text} {reprFloat : Text → Text} {lines : List (StreamLine × LineEnd)}
  {rest : Text}

theorem strip_space (t : Text) : Text.strip (' ' :: t) = Text.strip t := rfl

theorem payloads_data (data : Text) (rest : List Text) :
    payloads ((sseDataPrefix ++ ' ' :: data) :: rest) =
      if Text.strip data = sseDoneMarker then [] else Text.strip data :: payloads rest := by
  have hStart : sseDataPrefix.isPrefixOf (sseDataPrefix ++ ' ' :: data) = true :=
    List.isPrefixOf_iff_prefix.mpr (List.prefix_append _ _)
  rw [payloads, if_pos hStart, List.drop_left, strip_space]

theorem payloads_other {line : Text} (hOther : ¬sseDataPrefix <+: line) (rest : List Text) :
    payloads (line :: rest) = payloads rest := by
  rw [payloads, if_neg (fun hStart => hOther (List.isPrefixOf_iff_prefix.mp hStart))]

theorem payloads_ended (hEnded : Ended rest) : payloads (splitlines rest) = [] := by
  rcases hEnded with rfl | ⟨ending, more, rfl⟩
  · rfl
  · rw [Text.splitlines_line (by decide), payloads_data]
    exact if_pos (by decide)

/-- What is no document is no payload. -/
theorem ne_doneMarker {data : Text} {document : Json}
    (hRead : Json.loads reprFloat data = .ok document) : data ≠ sseDoneMarker := by
  rintro rfl
  have hNone : Json.loads reprFloat sseDoneMarker = .error .decode := rfl
  cases hNone.symm.trans hRead

theorem unbroken_text {line : StreamLine} (hFine : line.Fine print reprFloat) :
    Unbroken (line.text print) := by
  cases line with
  | data payload =>
      intro c hMem
      rcases List.mem_append.mp hMem with hPrefix | hRest
      · have hUnbroken : Unbroken sseDataPrefix := by decide
        exact hUnbroken c hPrefix
      · rcases List.mem_cons.mp hRest with rfl | hData
        · rfl
        · exact hFine.unbroken c hData
  | other line => exact hFine.1

/-- The client finds the payloads in the text, as they have been printed. -/
theorem payloads_streamText (hFine : ∀ line ∈ lines, line.1.Fine print reprFloat)
    (hEnded : Ended rest) :
    payloads (splitlines (streamText print lines ++ rest)) =
      (lines.filterMap fun line => line.1.payload).map fun payload =>
        Text.strip (print payload) := by
  rw [streamText, Text.splitlines_joinLines, List.map_map]
  · induction lines with
    | nil => exact payloads_ended hEnded
    | cons line lines ih =>
        obtain ⟨hFirst, hRest⟩ := List.forall_mem_cons.mp hFine
        obtain ⟨line, ending⟩ := line
        cases line with
        | data payload =>
            have hData := ne_doneMarker hFirst.read
            change payloads ((sseDataPrefix ++ ' ' :: print payload) :: _) = Text.strip _ :: _
            rw [payloads_data, if_neg hData]
            exact congrArg (_ :: ·) (ih hRest)
        | other line =>
            exact (payloads_other hFirst.2 _).trans (ih hRest)
  · intro line hLine
    obtain ⟨written, hWritten, rfl⟩ := List.mem_map.mp hLine
    exact unbroken_text (hFine written hWritten)

/-! ## The stream -/

variable {p : Platform}

/-- The data is read as the chunk. -/
def Platform.Reads (p : Platform) (data : Text) (chunk : Chunk) : Prop :=
  ∃ payload, Json.loads p.reprFloat data = .ok payload ∧ p.readChunk payload = .ok chunk

theorem streamFrom_of_feedAll {datas : List Text} {chunks : List Chunk}
    (hReads : List.Forall₂ p.Reads datas chunks) {acc after : Accumulator}
    {events : List StreamEvent} (hFed : acc.feedAll p.loads chunks = .ok (events, after)) :
    p.streamFrom acc datas =
      ⟨events ++ (p.finishStream after).events, (p.finishStream after).ending⟩ := by
  induction hReads generalizing acc events with
  | nil =>
      obtain ⟨rfl, rfl⟩ := Prod.mk.inj (Except.ok.inj hFed)
      rfl
  | @cons data chunk datas chunks hFirst _ ih =>
      obtain ⟨payload, hLoads, hRead⟩ := hFirst
      obtain ⟨⟨first, next⟩, hOne, hRest⟩ := Fallible.bind_eq_ok.mp hFed
      obtain ⟨⟨others, last⟩, hOthers, hSame⟩ := Fallible.bind_eq_ok.mp hRest
      obtain ⟨rfl, rfl⟩ := Prod.mk.inj (Except.ok.inj hSame)
      have hFeed : p.feed acc data = .ok (first, next) := by
        rw [Platform.feed, hLoads]
        change (p.readChunk payload >>= _) = _
        rw [hRead]
        change (acc.feed p.loads chunk).mapError _ = _
        rw [hOne]
        rfl
      rw [Platform.streamFrom, hFeed]
      dsimp only
      rw [ih hOthers, List.append_assoc]

/-- A stream whose payloads are accumulated yields what they are accumulated to. -/
theorem streamFrom_of_accumulate {datas : List Text} {chunks : List Chunk}
    (hReads : List.Forall₂ p.Reads datas chunks) {events : List StreamEvent} {message : ChatMessage}
    (hRun : accumulate p.loads chunks = .ok (events, message)) :
    ∃ usage, p.streamFrom {} datas = ⟨events ++ [.streamFinished message usage], .returned⟩ := by
  obtain ⟨⟨fed, acc⟩, hFed, hRest⟩ := Fallible.bind_eq_ok.mp hRun
  obtain ⟨⟨last, after⟩, hFinish, hMessage⟩ := Fallible.bind_eq_ok.mp hRest
  obtain ⟨built, hBuilt, hSame⟩ := Fallible.bind_eq_ok.mp hMessage
  obtain ⟨rfl, rfl⟩ := Prod.mk.inj (Except.ok.inj hSame)
  refine ⟨after.usage, ?_⟩
  have hEnd : p.finishStream acc = ⟨last ++ [.streamFinished built after.usage], .returned⟩ := by
    rw [Platform.finishStream]
    rw [hFinish]
    dsimp only
    rw [hBuilt]
  rw [streamFrom_of_feedAll hReads hFed, hEnd, List.append_assoc]

theorem not_raises (text : Text) : ¬Raises p.loads text := by
  rintro ⟨error, hRaised⟩
  rw [Platform.loads] at hRaised
  split at hRaised
  · cases hRaised
  · cases hRaised

/-! ## The document -/

/-- The call in the document says what the fragments of the stream say. -/
structure HoldsCall (raw : Json) (text : CallText) : Prop where
  id : raw.member "id" = some (stringOf text.id)
  name : ((raw.member "function").bind fun function => function.member "name") =
    some (stringOf text.name)
  arguments : ((raw.member "function").bind fun function => function.member "arguments") =
    some (stringOf text.arguments)

/-- The document has the message. -/
def HoldsReply (data : Json) (texts : Texts) : Prop :=
  ∃ raw calls, rawMessage data = some (.object raw) ∧
    textField raw "content" (responseError parseErrorMessage) = .ok texts.content ∧
    listField raw "tool_calls" = .ok calls ∧
    List.Forall₂ HoldsCall calls (texts.calls.map (·.2))

theorem parseArguments_of_holds {raw : Json} {text : CallText} (hHolds : HoldsCall raw text) :
    p.parseArguments raw =
      match Json.loads p.reprFloat text.raw with
      | .ok document => .ok document
      | .error _ => .error (responseError parseErrorMessage) := by
  rw [Platform.parseArguments, hHolds.arguments, stringOf]
  simp only [String.toList_ofList, CallText.raw]
  rfl

/-- A call is parsed when its arguments are the text of an object, and only then. -/
theorem parseToolCall_of_holds {raw : Json} {text : CallText} (hHolds : HoldsCall raw text) :
    (∃ members, p.loads text.raw = .value (.object members) ∧
        p.parseToolCall raw = .ok (text.call p.loads)) ∨
      (∀ members, p.loads text.raw ≠ .value (.object members)) ∧
        ∃ message, p.parseToolCall raw = .error (responseError message) := by
  rw [Platform.parseToolCall, parseArguments_of_holds hHolds, Platform.loads]
  cases hLoads : Json.loads p.reprFloat text.raw with
  | error error => exact .inr ⟨fun members hSame => (by cases hSame), parseErrorMessage, rfl⟩
  | ok document =>
      cases document with
      | object members =>
          refine .inl ⟨members, rfl, ?_⟩
          have hArguments : argumentsOf p.loads text.raw = members :=
            argumentsOf_object (by rw [Platform.loads, hLoads])
          simp only [bind, Except.bind]
          rw [hHolds.id, hHolds.name, CallText.call, hArguments]
          simp [stringOf]
      | _ => exact .inr ⟨fun members hSame => (by cases hSame), argumentsNotObject, rfl⟩

/-- The calls of the document: all of them, or the first that is not parsed. -/
theorem parseToolCalls_of_holds {calls : List Json} {texts : List CallText}
    (hHolds : List.Forall₂ HoldsCall calls texts) :
    ((∀ text ∈ texts, ∃ members, p.loads text.raw = .value (.object members)) ∧
        calls.mapM p.parseToolCall = .ok (texts.map fun text => text.call p.loads)) ∨
      (∃ text ∈ texts, ∀ members, p.loads text.raw ≠ .value (.object members)) ∧
        ∃ message, calls.mapM p.parseToolCall = .error (responseError message) := by
  induction hHolds with
  | nil => exact .inl ⟨List.forall_mem_nil _, rfl⟩
  | @cons raw text calls texts hFirst _ ih =>
      rw [List.mapM_cons]
      rcases parseToolCall_of_holds hFirst with
        ⟨members, hObject, hParsed⟩ | ⟨hOther, message, hFailed⟩
      · rw [hParsed]
        rcases ih with ⟨hAll, hCalls⟩ | ⟨⟨other, hMem, hOther⟩, message, hFailed⟩
        · refine .inl ⟨List.forall_mem_cons.mpr ⟨⟨members, hObject⟩, hAll⟩, ?_⟩
          rw [hCalls]
          rfl
        · refine .inr ⟨⟨other, List.mem_cons_of_mem _ hMem, hOther⟩, message, ?_⟩
          rw [hFailed]
          rfl
      · refine .inr ⟨⟨text, List.mem_cons_self, hOther⟩, message, ?_⟩
        rw [hFailed]
        rfl

/-- A document with the message is understood, unless some arguments are no text of an object. -/
theorem complete_of_holds {body : Text} {data : Json} {texts : Texts}
    (hBody : Json.loads p.reprFloat body = .ok data) (hReply : HoldsReply data texts) :
    ((∀ entry ∈ texts.calls, ∃ members, p.loads entry.2.raw = .value (.object members)) ∧
        p.complete body = .ok (texts.message p.loads, parseUsage (data.member "usage"))) ∨
      (∃ entry ∈ texts.calls, ∀ members, p.loads entry.2.raw ≠ .value (.object members)) ∧
        ∃ message, p.complete body = .error (responseError message) := by
  obtain ⟨raw, calls, hRaw, hContent, hCalls, hHolds⟩ := hReply
  have hParse : p.parseReply data =
      (calls.mapM p.parseToolCall).map fun toolCalls => ⟨texts.content, toolCalls⟩ := by
    rw [Platform.parseReply, hRaw]
    simp only [bind, Except.bind, hContent, hCalls]
    cases calls.mapM p.parseToolCall with
    | error exc => rfl
    | ok toolCalls => rfl
  rw [Platform.complete, hBody]
  simp only [bind, Except.bind, hParse]
  rcases parseToolCalls_of_holds (p := p) hHolds with
    ⟨hAll, hParsed⟩ | ⟨⟨text, hMem, hOther⟩, message, hFailed⟩
  · rw [hParsed]
    refine .inl ⟨fun entry hEntry => hAll entry.2 (List.mem_map_of_mem hEntry), ?_⟩
    rw [Texts.message, List.map_map]
    rfl
  · obtain ⟨entry, hEntry, rfl⟩ := List.mem_map.mp hMem
    rw [hFailed]
    exact .inr ⟨⟨entry, hEntry, hOther⟩, message, rfl⟩

/-! ## The agreement -/

/-- The event says that the arguments of a call are no text of an object. -/
def StreamEvent.broken : StreamEvent → Bool
  | .toolCallBroken .. => true
  | _ => false

/-- The lines of a stream and what is behind them have these chunks. -/
structure Streams (p : Platform) (print : Json → Text) (lines : List (StreamLine × LineEnd))
    (rest : Text) (chunks : List Chunk) : Prop where
  fine : ∀ line ∈ lines, line.1.Fine print p.reprFloat
  ended : Ended rest
  reads : List.Forall₂ (fun payload chunk => p.readChunk payload = .ok chunk)
    (lines.filterMap fun line => line.1.payload) chunks
  contiguous : Contiguous (fragmentsOf chunks)

theorem reads_of_fine {chunks : List Chunk} (hFine : ∀ line ∈ lines, line.1.Fine print p.reprFloat)
    (hChunks : List.Forall₂ (fun payload chunk => p.readChunk payload = .ok chunk)
      (lines.filterMap fun line => line.1.payload) chunks) :
    List.Forall₂ p.Reads
      ((lines.filterMap fun line => line.1.payload).map fun payload => Text.strip (print payload))
      chunks := by
  have hInLine : ∀ payload ∈ lines.filterMap (fun line => line.1.payload),
      payload.InLine print p.reprFloat := by
    intro payload hPayload
    obtain ⟨⟨line, ending⟩, hLine, hSame⟩ := List.mem_filterMap.mp hPayload
    have hLineFine := hFine _ hLine
    cases line with
    | data inner =>
        obtain rfl := Option.some.inj hSame
        exact hLineFine
    | other line => cases hSame
  rw [List.forall₂_map_left_iff]
  refine ((List.forall₂_and_left _ _).mpr ⟨hInLine, hChunks⟩).imp fun payload chunk hBoth => ?_
  exact ⟨payload, hBoth.1.read, hBoth.2⟩

theorem exists_of_mem_left {α β : Type} {R : α → β → Prop} {firsts : List α} {seconds : List β}
    (hPairs : List.Forall₂ R firsts seconds) {first : α} (hMem : first ∈ firsts) :
    ∃ second ∈ seconds, R first second := by
  induction hPairs with
  | nil => cases hMem
  | cons hHead _ ih =>
      rcases List.mem_cons.mp hMem with rfl | hRest
      · exact ⟨_, List.mem_cons_self, hHead⟩
      · obtain ⟨second, hSecond, hPair⟩ := ih hRest
        exact ⟨second, List.mem_cons_of_mem _ hSecond, hPair⟩

theorem exists_of_mem_right {α β : Type} {R : α → β → Prop} {firsts : List α} {seconds : List β}
    (hPairs : List.Forall₂ R firsts seconds) {second : β} (hMem : second ∈ seconds) :
    ∃ first ∈ firsts, R first second :=
  exists_of_mem_left hPairs.flip hMem

/-- The events that end the calls are broken just when some arguments are no text of an object. -/
theorem broken_of_ends {chunks : List Chunk} {events : List StreamEvent} {loads : Text → Loaded}
    (hEnds : List.Forall₂
      (fun index event => Ends loads index (textOf (fragmentsOf chunks) index) event)
      (indices (fragmentsOf chunks)) (events.filter StreamEvent.ends)) :
    (∃ event ∈ events, event.broken = true) ↔
      ∃ entry ∈ (textsOf chunks).calls,
        ∀ members, loads entry.2.raw ≠ .value (.object members) := by
  constructor
  · rintro ⟨event, hEvent, hBroken⟩
    have hEnd : event ∈ events.filter StreamEvent.ends := by
      refine List.mem_filter.mpr ⟨hEvent, ?_⟩
      cases event with
      | toolCallBroken => rfl
      | _ => cases hBroken
    obtain ⟨index, hIndex, hIs⟩ := exists_of_mem_right hEnds hEnd
    refine ⟨(index, textOf (fragmentsOf chunks) index),
      List.mem_map_of_mem ((List.mem_insertionSort _).mpr hIndex), ?_⟩
    cases hIs with
    | ready members hObject => cases hBroken
    | broken error hOther => exact hOther
  · rintro ⟨entry, hEntry, hOther⟩
    obtain ⟨index, hIndex, rfl⟩ := List.mem_map.mp hEntry
    obtain ⟨event, hEvent, hIs⟩ :=
      exists_of_mem_left hEnds ((List.mem_insertionSort _).mp hIndex)
    refine ⟨event, List.mem_of_mem_filter hEvent, ?_⟩
    cases hIs with
    | ready members hObject => exact absurd hObject (hOther members)
    | broken error hNone => rfl

/-- Whatever a stream is cut into, it ends with the message of its texts. -/
theorem stream_message {chunks : List Chunk} {pieces : List Text}
    (hLines : ∀ pieces, p.iterLines pieces = splitlines pieces.flatten)
    (hStreams : Streams p print lines rest chunks)
    (hPieces : pieces.flatten = streamText print lines ++ rest) :
    ∃ events usage,
      p.stream pieces =
        ⟨events ++ [.streamFinished ((textsOf chunks).message p.loads) usage], .returned⟩ ∧
      ((∃ event ∈ events, event.broken = true) ↔
        ∃ entry ∈ (textsOf chunks).calls,
          ∀ members, p.loads entry.2.raw ≠ .value (.object members)) := by
  rcases @accumulate_cases p.loads chunks hStreams.contiguous with
    ⟨⟨index, -, hRaises⟩, -⟩ | ⟨-, events, hRun, hEnds⟩
  · exact absurd hRaises (not_raises _)
  obtain ⟨usage, hStream⟩ :=
    streamFrom_of_accumulate (reads_of_fine hStreams.fine hStreams.reads) hRun
  refine ⟨events, usage, ?_, broken_of_ends hEnds⟩
  rw [Platform.stream, hLines, hPieces, payloads_streamText hStreams.fine hStreams.ended, hStream]

theorem unbroken_of_all {texts : Texts} {events : List StreamEvent}
    (hBroken : (∃ event ∈ events, event.broken = true) ↔
      ∃ entry ∈ texts.calls, ∀ members, p.loads entry.2.raw ≠ .value (.object members))
    (hAll : ∀ entry ∈ texts.calls, ∃ members, p.loads entry.2.raw = .value (.object members)) :
    ∀ event ∈ events, event.broken = false := by
  intro event hEvent
  by_contra hIs
  obtain ⟨entry, hEntry, hOther⟩ := hBroken.mp ⟨event, hEvent, (Bool.not_eq_false _).mp hIs⟩
  obtain ⟨members, hObject⟩ := hAll entry hEntry
  exact hOther members hObject

section Saying

/-- A platform on which a float is read as it is written. -/
def plainPlatform : Platform where
  reprFloat := id
  lower := id
  str := Json.dumps
  decodeError := fun _ => []
  iterLines := fun pieces => splitlines pieces.flatten

def saidCall (id name arguments : String) : List (String × Json) :=
  [("id", .string id),
    ("function", .object [("name", .string name), ("arguments", .string arguments)])]

def saidFragment (index : Int) (id name arguments : String) : Json :=
  .object (("index", .number index) :: saidCall id name arguments)

def saidDelta (content : String) (fragments : List Json) : Json :=
  .object [("choices", .array [.object
    [("delta", .object [("content", .string content), ("tool_calls", .array fragments)])]])]

/-- Two calls, the second of them first and in two fragments. -/
def saidLines : List (StreamLine × LineEnd) :=
  [(.data (saidDelta "H\u2028" [saidFragment 1 "b" "g" "\x7b\"n\":"]), .lf), (.other [], .lf),
    (.other ": ping".toList, .crlf),
    (.data (saidDelta "i" [saidFragment 1 "" "" " [1]\x7d", saidFragment 0 "a" "f" ""]), .lf)]

def saidChunks : List Chunk :=
  [⟨none, some ⟨[], false, "H\u2028".toList,
      [⟨some 1, "b".toList, "g".toList, "\x7b\"n\":".toList⟩]⟩⟩,
    ⟨none, some ⟨[], false, "i".toList,
      [⟨some 1, [], [], " [1]\x7d".toList⟩, ⟨some 0, "a".toList, "f".toList, []⟩]⟩⟩]

/-- The same in a document. -/
def saidData : Json :=
  .object [("choices", .array [.object [("message", .object [("content", .string "H\u2028i"),
    ("tool_calls", .array [.object (saidCall "a" "f" ""),
      .object (saidCall "b" "g" "\x7b\"n\": [1]\x7d")])])]])]

theorem saidLines_stream :
    Streams plainPlatform Json.dumpsAscii saidLines "data: [DONE]\n".toList saidChunks where
  fine := by
    refine List.forall_mem_cons.mpr ⟨Json.inLine_dumpsAscii (by simp [saidFragment, saidCall]), ?_⟩
    refine List.forall_mem_cons.mpr ⟨⟨by decide, by decide⟩, ?_⟩
    refine List.forall_mem_cons.mpr ⟨⟨by decide, by decide⟩, ?_⟩
    exact List.forall_mem_singleton.mpr (Json.inLine_dumpsAscii (by simp [saidFragment, saidCall]))
  ended := .inr ⟨.lf, [], by decide⟩
  reads := .cons rfl (.cons rfl .nil)
  contiguous := by
    refine Sequence.Along.snoc (Sequence.Along.snoc (Sequence.Along.snoc .nil ?_) ?_) ?_
    · decide
    · decide
    · decide

/-- The line separator is a character of JSON, but where a provider does not escape it, it ends the
line of its payload, which is then no document. -/
theorem not_streamed_of_separator :
    (plainPlatform.stream
        [streamText Json.dumps [(.data (saidDelta "H\u2028" []), .lf)]]).ending =
      .raised (responseError parseErrorMessage) := by
  decide +kernel

end Saying

/-! ## What is said again -/

/-- The call as it is written for the provider. -/
def wireCall (call : ToolCall) : CallText :=
  ⟨call.id, call.name, (Json.object call.arguments).dumpsAscii⟩

theorem wireCall_raw (call : ToolCall) :
    (wireCall call).raw = (Json.object call.arguments).dumpsAscii := by
  have hStart := Json.code_object Json.transparent_asciiOf call.arguments []
  rw [List.append_nil] at hStart
  refine if_neg ?_
  rw [wireCall, Json.dumpsAscii, hStart]
  exact Bool.false_ne_true

theorem holds_serializeToolCall (call : ToolCall) :
    HoldsCall (serializeToolCall call) (wireCall call) where
  id := rfl
  name := rfl
  arguments := rfl

/-- A call that is written for the provider is read as it was. -/
theorem call_wireCall {call : ToolCall}
    (hProper : Json.Proper p.reprFloat (.object call.arguments)) :
    p.loads (wireCall call).raw = .value (.object call.arguments) ∧
      (wireCall call).call p.loads = call := by
  have hLoads : p.loads (wireCall call).raw = .value (.object call.arguments) := by
    rw [wireCall_raw, Platform.loads, Json.loads_dumpsAscii hProper]
  refine ⟨hLoads, ?_⟩
  rw [CallText.call, argumentsOf_object hLoads]
  rfl

theorem textField_of_lookup {members : List (String × Json)} {name : String} {wrong : Raised}
    {t : Text} (hFound : Json.lookup members name = some (stringOf t)) :
    textField members name wrong = .ok t := by
  rw [textField, Json.field, hFound, stringOf]
  by_cases hEmpty : String.ofList t = ""
  · have hNone : t = [] := by
      have hList := congrArg String.toList hEmpty
      rwa [String.toList_ofList] at hList
    rw [hNone]
    rfl
  · rw [Option.filter_some, if_pos (by simpa [Json.truthy] using hEmpty)]
    exact congrArg Except.ok String.toList_ofList

/-- The document has the message that is written for the provider. -/
theorem holdsReply_serializeMessage {data : Json} {message : Prompted} {texts : Texts}
    (hRaw : rawMessage data = some (serializeMessage message))
    (hContent : texts.content = message.content)
    (hCalls : texts.calls.map (·.2) = message.toolCalls.map wireCall) : HoldsReply data texts := by
  have hHolds : List.Forall₂ HoldsCall (message.toolCalls.map serializeToolCall)
      (message.toolCalls.map wireCall) := by
    rw [List.forall₂_map_left_iff, List.forall₂_map_right_iff]
    exact List.forall₂_same.mpr fun call _ => holds_serializeToolCall call
  refine ⟨_, message.toolCalls.map serializeToolCall, hRaw, ?_, ?_, ?_⟩
  · rw [hContent]
    exact textField_of_lookup rfl
  · rw [listField]
    cases hSome : message.toolCalls with
    | nil =>
        cases hId : message.toolCallId with
        | none => rfl
        | some id => rfl
    | cons call calls => rfl
  · rw [hCalls]
    exact hHolds

/-- A message with a character beyond the basic plane, and another one in its arguments. -/
def saidMessage : Prompted where
  role := .assistant
  content := "H😀".toList
  toolCalls := [⟨"a".toList, "f".toList, [("q", .string "é")]⟩]

def saidArguments : String := "\x7b\"q\": \"\\u00e9\"\x7d"

def saidOnce : List (StreamLine × LineEnd) :=
  [(.data (saidDelta "H😀" [saidFragment 0 "a" "f" saidArguments]), .crlf)]

def saidAgain : List Chunk :=
  [⟨none, some ⟨[], false, "H😀".toList,
    [⟨some 0, "a".toList, "f".toList, saidArguments.toList⟩]⟩⟩]

end Llm
end OctoForge
