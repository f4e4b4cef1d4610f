import OctoForge.Outbox.Streams
import OctoForge.Telegram.Bridge
import OctoForge.Sequence.Places

/-!
# What the bridge writes when an answer has finished

The runner broadcasts to the queue of the bridge, and the bridge takes one event
after the other out of it and renders it.  The queue is bounded: when it is full a
text delta is dropped, and a critical event takes the place of the oldest event
that is not critical.

What is broadcast comes from any number of speakers at once: runs of the loop and
deliveries of the outbox, each under the tag of its exchange.  A speaker finishes
with the text it has said since its last iteration began.  `composed` is read by
nothing: each `Finished` the bridge has rendered, with the text of its last flush.

The bridge does not look at the message of a `Finished`.  What it writes contains the
answer as long as no text delta is lost and the speakers of an exchange do not speak
into each other's turns.
-/

namespace OctoForge
namespace Telegram

open Dialog (ExchangeId)

/-- `ConversationEvent`, as far as the bridge reads it. -/
structure Envelope where
  payload : Payload
  exchangeId : Option ExchangeId
  deriving DecidableEq, Repr

namespace Payload

/-- `_CRITICAL_EVENTS`. -/
def critical : Payload → Bool
  | .loop event => event.terminal
  | .processStarted .. | .processCompleted .. => true

def isText : Payload → Bool
  | .loop (.textDelta _) => true
  | _ => false

def isTerminal : Payload → Bool
  | .loop event => event.terminal
  | _ => false

/-- The message of a `Finished`. -/
def finished? : Payload → Option Agent.ChatMessage
  | .loop (.finished message _) => some message
  | _ => none

end Payload

/-- What may be evicted for the sake of a critical event. -/
def Envelope.droppable (e : Envelope) : Bool := !e.payload.critical

/-- The queue of the bridge after a broadcast: one round of the loop of `_broadcast`. -/
def offer (e : Envelope) (items : List Envelope) : List Envelope :=
  match Queue.put Outbox.subscriberQueueSize e items with
  | some items => items
  | none =>
      if e.payload.critical then
        (Queue.evictAndPut Outbox.subscriberQueueSize Envelope.droppable e items).2
      else items

/-- A run of the loop, or a delivery of the outbox. -/
structure Speaker where
  exchangeId : Option ExchangeId
  /-- What it has said since its last iteration began. -/
  said : Text := []
  deriving DecidableEq, Repr

def Speaker.speak (speaker : Speaker) : Payload → Speaker
  | .loop (.textDelta text) => { speaker with said := speaker.said ++ text.toList }
  | .loop (.iterationStarted _) => { speaker with said := [] }
  | .loop event => if event.terminal then { speaker with said := [] } else speaker
  | _ => speaker

structure Surface where
  items : List Envelope := []
  drafts : Option ExchangeId → Option Draft := fun _ => none
  speakers : List Speaker := []
  composed : List (Agent.ChatMessage × Text) := []

namespace Surface

/-- `_draft_of`. -/
def draftOf (exchangeId : Option ExchangeId) (s : Surface) : Draft :=
  (s.drafts exchangeId).getD {}

/-- The bridge takes the event: `_render`, and for a terminal the text of the last
flush and the end of the draft. -/
def take (e : Envelope) (s : Surface) : Surface :=
  match render (s.draftOf e.exchangeId) e.payload with
  | (draft, .flushTerminal) =>
      { s with
        drafts := Function.update s.drafts e.exchangeId none
        composed := s.composed ++ e.payload.finished?.toList.map (·, draft.compose) }
  | (draft, _) => { s with drafts := Function.update s.drafts e.exchangeId (some draft) }

inductive Move where
  | start (exchangeId : Option ExchangeId)
  | speak (speaker : Nat) (payload : Payload)
  | read
  deriving DecidableEq, Repr

/-- The speaker has said what it finishes with. -/
def mayFinish (speaker : Speaker) (payload : Payload) : Bool :=
  payload.finished?.all fun message => message.content.toList = speaker.said

def step (s : Surface) : Move → Option Surface
  | .start exchangeId => some { s with speakers := s.speakers ++ [{ exchangeId }] }
  | .speak i payload =>
      (s.speakers[i]?).bind fun speaker =>
        if mayFinish speaker payload then
          some
            { s with
              items := offer { payload, exchangeId := speaker.exchangeId } s.items
              speakers := s.speakers.set i (speaker.speak payload) }
        else none
  | .read =>
      match s.items with
      | [] => none
      | e :: rest => some ({ s with items := rest }.take e)

def run : List Move → Surface → Option Surface
  | [], s => some s
  | m :: rest, s => (s.step m).bind (run rest)

/-! ## Moves that take nothing from an answer -/

/-- The broadcast costs a text delta its place. -/
def losesText (payload : Payload) (s : Surface) : Bool :=
  Outbox.subscriberQueueSize ≤ s.items.length &&
    (payload.isText ||
      payload.critical && (s.items.find? Envelope.droppable).any (·.payload.isText))

/-- Another speaker of the exchange is in the middle of a turn. -/
def inTurn (i : Nat) (exchangeId : Option ExchangeId) (s : Surface) : Bool :=
  s.speakers.zipIdx.any fun (other, j) =>
    j ≠ i && (other.exchangeId = exchangeId && other.said ≠ [])

/-- The move costs no text delta its place, writes into no turn of another speaker,
and finishes no answer that ends with a line break. -/
def gentle (s : Surface) : Move → Bool
  | .speak i payload =>
      (s.speakers[i]?).all fun speaker =>
        !s.losesText payload &&
          (!(payload.isText || payload.isTerminal) || !s.inTurn i speaker.exchangeId) &&
          payload.finished?.all fun message => message.content.toList.getLast? ≠ some '\n'
  | _ => true

def gentleRun : List Move → Surface → Bool
  | [], _ => true
  | m :: rest, s => s.gentle m && (s.step m).all (gentleRun rest)

end Surface

/-! ## The text on its way -/

/-- The buffers of the drafts, by exchange. -/
abbrev Buffers := Option ExchangeId → Text

/-- What the event makes of the buffer of its exchange. -/
def Payload.grow (text : Text) : Payload → Text
  | .loop (.textDelta more) => text ++ more.toList
  | payload => if payload.isTerminal then [] else text

def growAll (b : Buffers) (e : Envelope) : Buffers :=
  Function.update b e.exchangeId (e.payload.grow (b e.exchangeId))

def Surface.buffers (s : Surface) : Buffers := fun x => (s.draftOf x).buffer

@[simp] theorem Draft.countStatus_buffer (label : Text) (d : Draft) :
    (d.countStatus label).buffer = d.buffer := by
  unfold Draft.countStatus
  split
  · split <;> rfl
  · rfl

/-- The bridge ends a draft for the terminals, and otherwise only text deltas change
its buffer. -/
theorem render_cases (d : Draft) (payload : Payload) :
    (payload.isTerminal = true ∧ (render d payload).2 = .flushTerminal ∧
      ∀ message, payload.finished? = some message → (render d payload).1 = d) ∨
    (payload.isTerminal = false ∧ (render d payload).2 ≠ .flushTerminal ∧
      payload.finished? = none ∧ (render d payload).1.buffer = payload.grow d.buffer) := by
  cases payload with
  | loop event =>
      cases event with
      | finished message usage => exact Or.inl ⟨rfl, rfl, fun _ _ => rfl⟩
      | cancelled => exact Or.inl ⟨rfl, rfl, nofun⟩
      | failed error => exact Or.inl ⟨rfl, rfl, nofun⟩
      | reasoningDelta =>
          exact Or.inr ⟨rfl, nofun, rfl, Draft.countStatus_buffer _ _⟩
      | toolCallRequested call =>
          exact Or.inr ⟨rfl, nofun, rfl, Draft.countStatus_buffer _ _⟩
      | textDelta text => exact Or.inr ⟨rfl, nofun, rfl, rfl⟩
      | iterationStarted index => exact Or.inr ⟨rfl, nofun, rfl, rfl⟩
      | assistantMessage message interrupted usage => exact Or.inr ⟨rfl, nofun, rfl, rfl⟩
      | toolCallCompleted call output => exact Or.inr ⟨rfl, nofun, rfl, rfl⟩
      | toolCallFailed call error => exact Or.inr ⟨rfl, nofun, rfl, rfl⟩
      | retryScheduled attempt delaySeconds reason => exact Or.inr ⟨rfl, nofun, rfl, rfl⟩
  | processStarted processId title source => exact Or.inr ⟨rfl, nofun, rfl, rfl⟩
  | processCompleted processId title status => exact Or.inr ⟨rfl, nofun, rfl, rfl⟩

theorem grow_of_isTerminal {payload : Payload} (hTerminal : payload.isTerminal = true) (text : Text) :
    payload.grow text = [] := by
  cases payload with
  | loop event => cases event <;> simp_all [Payload.grow, Payload.isTerminal, Agent.LoopEvent.terminal]
  | processStarted processId title source => simp [Payload.isTerminal] at hTerminal
  | processCompleted processId title status => simp [Payload.isTerminal] at hTerminal

theorem grow_of_neither {payload : Payload} (hText : payload.isText = false)
    (hTerminal : payload.isTerminal = false) (text : Text) : payload.grow text = text := by
  cases payload with
  | loop event => cases event <;> simp_all [Payload.grow, Payload.isTerminal, Payload.isText]
  | processStarted processId title source => rfl
  | processCompleted processId title status => rfl

theorem take_of_terminal {s : Surface} {e : Envelope}
    (hEnds : (render (s.draftOf e.exchangeId) e.payload).2 = .flushTerminal) :
    s.take e =
      { s with
        drafts := Function.update s.drafts e.exchangeId none
        composed := s.composed ++ e.payload.finished?.toList.map
          (·, (render (s.draftOf e.exchangeId) e.payload).1.compose) } := by
  unfold Surface.take
  split
  · rename_i draft hRender
    rw [hRender]
  · rename_i draft sequel hOther hRender
    rw [hRender] at hEnds
    exact absurd hEnds hOther

theorem take_of_other {s : Surface} {e : Envelope}
    (hGoesOn : (render (s.draftOf e.exchangeId) e.payload).2 ≠ .flushTerminal) :
    s.take e =
      { s with
        drafts := Function.update s.drafts e.exchangeId
          (some (render (s.draftOf e.exchangeId) e.payload).1) } := by
  unfold Surface.take
  split
  · rename_i draft hRender
    exact absurd (by rw [hRender]) hGoesOn
  · rename_i draft sequel _ hRender
    rw [hRender]

/-- What the bridge takes has the effect on the buffers that was on its way. -/
theorem buffers_take (s : Surface) (e : Envelope) : (s.take e).buffers = growAll s.buffers e := by
  funext x
  unfold growAll
  rcases render_cases (s.draftOf e.exchangeId) e.payload with
    ⟨hTerminal, hEnds, -⟩ | ⟨-, hGoesOn, -, hBuffer⟩
  · rw [take_of_terminal hEnds, grow_of_isTerminal hTerminal]
    by_cases hHere : x = e.exchangeId
    · subst hHere
      simp [Surface.buffers, Surface.draftOf]
    · simp [Surface.buffers, Surface.draftOf, hHere]
  · rw [take_of_other hGoesOn]
    by_cases hHere : x = e.exchangeId
    · subst hHere
      simp only [Surface.buffers, Surface.draftOf, Function.update_self, Option.getD_some] at hBuffer ⊢
      exact hBuffer
    · simp [Surface.buffers, Surface.draftOf, hHere]

/-- Each `Finished` on its way finds the answer at the end of its buffer. -/
def Ready (b : Buffers) : List Envelope → Prop
  | [] => True
  | e :: rest =>
      (∀ message, e.payload.finished? = some message →
        message.content.toList <:+ b e.exchangeId ∧
          message.content.toList.getLast? ≠ some '\n') ∧
      Ready (growAll b e) rest

theorem ready_append {b : Buffers} {items more : List Envelope} :
    Ready b (items ++ more) ↔ Ready b items ∧ Ready (items.foldl growAll b) more := by
  induction items generalizing b with
  | nil => simp [Ready]
  | cons e rest ih => simp [Ready, ih, and_assoc]

/-- An event that is neither text nor terminal leaves the buffers alone. -/
theorem growAll_of_neither {e : Envelope} (hText : e.payload.isText = false)
    (hTerminal : e.payload.isTerminal = false) (b : Buffers) : growAll b e = b := by
  unfold growAll
  rw [grow_of_neither hText hTerminal]
  exact Function.update_eq_self _ _

theorem isTerminal_of_critical {payload : Payload} (hCritical : payload.critical = false) :
    payload.isTerminal = false := by
  cases payload with
  | loop event => exact hCritical
  | processStarted processId title source => rfl
  | processCompleted processId title status => rfl

/-! ## What holds in every state -/

structure Inv (s : Surface) : Prop where
  bounded : s.items.length ≤ Outbox.subscriberQueueSize
  ready : Ready s.buffers s.items
  speaking : ∀ speaker ∈ s.speakers, speaker.said <:+ s.items.foldl growAll s.buffers speaker.exchangeId
  composed : ∀ message text, (message, text) ∈ s.composed → message.content.toList <:+: text

theorem suffix_intercalate (separator text : Text) (parts : List Text) :
    text <:+ separator.intercalate (parts ++ [text]) := by
  induction parts with
  | nil => simp [List.intercalate]
  | cons part rest ih =>
      cases rest with
      | nil => simpa [List.intercalate, List.intersperse] using ⟨part ++ separator, by simp⟩
      | cons next rest =>
          have hCons : separator.intercalate (part :: next :: rest ++ [text]) =
              part ++ separator ++ separator.intercalate (next :: rest ++ [text]) := by
            simp [List.intercalate, List.intersperse]
          rw [hCons]
          exact ih.trans (List.suffix_append _ _)

/-- The text of a draft contains what its buffer ends with. -/
theorem infix_compose {d : Draft} {content : Text} (hSuffix : content <:+ d.buffer)
    (hLast : content.getLast? ≠ some '\n') : content <:+: d.compose := by
  by_cases hNone : content = []
  · subst hNone
    exact List.nil_infix
  · have hBuffer : d.buffer ≠ [] := by
      rintro hEmpty
      exact hNone (List.suffix_nil.mp (hEmpty ▸ hSuffix))
    have hText : rstripNewlines d.buffer = d.buffer := by
      rw [rstripNewlines, List.rdropWhile_eq_self_iff]
      intro hSome hBreak
      rw [← hSuffix.getLast hNone] at hBreak
      refine hLast ?_
      rw [List.getLast?_eq_some_getLast hNone, of_decide_eq_true hBreak]
    have hCompose : d.compose = ['\n'].intercalate (statusBlock d.status ++ [d.buffer]) := by
      simp [Draft.compose, hText, hBuffer]
    rw [hCompose]
    exact (hSuffix.trans (suffix_intercalate _ _ _)).isInfix

theorem inv_read {s : Surface} {e : Envelope} {rest : List Envelope} (hInv : Inv s)
    (hItems : s.items = e :: rest) : Inv ({ s with items := rest }.take e) := by
  have hBuffers := buffers_take { s with items := rest } e
  have hSame : ({ s with items := rest } : Surface).buffers = s.buffers := rfl
  have hReady := hInv.ready
  have hSpeaking := hInv.speaking
  have hBounded := hInv.bounded
  rw [hItems] at hReady hSpeaking hBounded
  have hRest : ({ s with items := rest }.take e).items = rest ∧
      ({ s with items := rest }.take e).speakers = s.speakers := by
    unfold Surface.take
    split <;> exact ⟨rfl, rfl⟩
  refine ⟨?_, ?_, ?_, ?_⟩
  · rw [hRest.1]
    simp only [List.length_cons] at hBounded
    omega
  · rw [hRest.1, hBuffers, hSame]
    exact hReady.2
  · intro speaker hMem
    rw [hRest.1, hBuffers, hSame]
    rw [hRest.2] at hMem
    exact hSpeaking speaker hMem
  -- A read that ends a run composes its text from the buffer; any other composes nothing.
  · intro message text hMem
    rcases render_cases (({ s with items := rest } : Surface).draftOf e.exchangeId) e.payload with
      ⟨-, hEnds, hDraft⟩ | ⟨-, hGoesOn, -⟩
    · rw [take_of_terminal hEnds, List.mem_append] at hMem
      rcases hMem with hOld | hNew
      · exact hInv.composed message text hOld
      · obtain ⟨message', hFinished, hEq⟩ := List.mem_map.mp hNew
        obtain ⟨rfl, rfl⟩ := Prod.mk.inj hEq
        rw [Option.mem_toList] at hFinished
        rw [hDraft message' hFinished]
        obtain ⟨hSuffix, hLast⟩ := hReady.1 message' hFinished
        exact infix_compose hSuffix hLast
    · rw [take_of_other hGoesOn] at hMem
      exact hInv.composed message text hMem

/-- As far as the text goes, these events are as good as those. -/
structure AsGood (items kept : List Envelope) : Prop where
  buffers : ∀ b, kept.foldl growAll b = items.foldl growAll b
  ready : ∀ b, Ready b items → Ready b kept

theorem AsGood.refl (items : List Envelope) : AsGood items items :=
  ⟨fun _ => rfl, fun _ hReady => hReady⟩

theorem AsGood.erase {before after : List Envelope} {victim : Envelope}
    (hText : victim.payload.isText = false) (hTerminal : victim.payload.isTerminal = false) :
    AsGood (before ++ victim :: after) (before ++ after) := by
  refine ⟨fun b => ?_, fun b hReady => ?_⟩
  · rw [List.foldl_append, List.foldl_append, List.foldl_cons, growAll_of_neither hText hTerminal]
  · rw [ready_append] at hReady ⊢
    obtain ⟨hBefore, -, hAfter⟩ := hReady
    rw [growAll_of_neither hText hTerminal] at hAfter
    exact ⟨hBefore, hAfter⟩

/-- The event gets to the end of the queue, at the expense of nothing that matters for
the text; or it is refused and no text delta. -/
theorem offer_cases {s : Surface} {e : Envelope}
    (hBounded : s.items.length ≤ Outbox.subscriberQueueSize)
    (hText : s.losesText e.payload = false) :
    ∃ kept, AsGood s.items kept ∧
      (offer e s.items = kept ++ [e] ∧ kept.length < Outbox.subscriberQueueSize ∨
        offer e s.items = kept ∧ kept = s.items ∧ e.payload.isText = false) := by
  unfold offer
  cases hPut : Queue.put Outbox.subscriberQueueSize e s.items with
  | some items =>
      obtain ⟨hRoom, rfl⟩ := Queue.put_eq_some_iff.mp hPut
      exact ⟨s.items, AsGood.refl _, Or.inl ⟨rfl, hRoom⟩⟩
  | none =>
      have hFull := Queue.put_eq_none_iff.mp hPut
      simp only [Surface.losesText, hFull, decide_true, Bool.true_and, Bool.or_eq_false_iff,
        Bool.and_eq_false_iff] at hText
      simp only
      split
      · rename_i hCritical
        rcases Queue.evictAndPut_cases Envelope.droppable e hBounded with
          ⟨hRefused, -⟩ | ⟨before, victim, after, hItems, hDroppable, hBefore, hEvicted⟩
        · rw [hRefused]
          exact ⟨s.items, AsGood.refl _, Or.inr ⟨rfl, rfl, hText.1⟩⟩
        · rw [hEvicted]
          have hFind : s.items.find? Envelope.droppable = some victim := by
            rw [hItems, List.find?_append, List.find?_eq_none.mpr (by simpa using hBefore),
              Option.none_or, List.find?_cons_of_pos hDroppable]
          -- The offer loses no text, so what is evicted is none.
          have hVictim : victim.payload.isText = false := by
            simpa [hCritical, hFind] using hText.2
          have hOrdinary : victim.payload.critical = false := by
            simpa [Envelope.droppable] using hDroppable
          refine ⟨before ++ after, ?_, Or.inl ⟨rfl, ?_⟩⟩
          · rw [hItems]
            exact AsGood.erase hVictim (isTerminal_of_critical hOrdinary)
          · rw [hItems] at hBounded
            simp only [List.length_append, List.length_cons] at hBounded ⊢
            omega
      · exact ⟨s.items, AsGood.refl _, Or.inr ⟨rfl, rfl, hText.1⟩⟩

/-- What a speaker has said is still at the end of the text on its way. -/
theorem suffix_speak {speaker : Speaker} {payload : Payload} {text : Text}
    (hSaid : speaker.said <:+ text) : (speaker.speak payload).said <:+ payload.grow text := by
  cases payload with
  | loop event =>
      cases event with
      | textDelta more =>
          obtain ⟨before, rfl⟩ := hSaid
          exact ⟨before, (List.append_assoc _ _ _).symm⟩
      | iterationStarted index => exact List.nil_suffix
      | finished message usage => exact List.nil_suffix
      | cancelled => exact List.nil_suffix
      | failed error => exact List.nil_suffix
      | reasoningDelta => exact hSaid
      | assistantMessage message interrupted usage => exact hSaid
      | toolCallRequested call => exact hSaid
      | toolCallCompleted call output => exact hSaid
      | toolCallFailed call error => exact hSaid
      | retryScheduled attempt delaySeconds reason => exact hSaid
  | processStarted processId title source => exact hSaid
  | processCompleted processId title status => exact hSaid

theorem suffix_speak_of_quiet {speaker : Speaker} {payload : Payload} {text : Text}
    (hSaid : speaker.said <:+ text) (hText : payload.isText = false) :
    (speaker.speak payload).said <:+ text := by
  cases payload with
  | loop event =>
      cases event with
      | textDelta more => simp [Payload.isText] at hText
      | _ => first | exact hSaid | exact List.nil_suffix
  | processStarted processId title source => exact hSaid
  | processCompleted processId title status => exact hSaid

@[simp] theorem speak_exchangeId (speaker : Speaker) (payload : Payload) :
    (speaker.speak payload).exchangeId = speaker.exchangeId := by
  unfold Speaker.speak
  split
  · rfl
  · rfl
  · split <;> rfl
  · rfl

/-- A step of one speaker leaves what the others have said at the end of theirs. -/
theorem suffix_others {s : Surface} {i : Nat} {speaker : Speaker} {payload : Payload} (hInv : Inv s)
    (hTurn : (payload.isText || payload.isTerminal) = true → s.inTurn i speaker.exchangeId = false)
    {j : Nat} {other : Speaker} (hOther : j ≠ i) (hAt : s.speakers[j]? = some other) :
    other.said <:+ growAll (s.items.foldl growAll s.buffers)
      { payload, exchangeId := speaker.exchangeId } other.exchangeId := by
  have hSaid := hInv.speaking other (List.mem_of_getElem? hAt)
  cases hWrites : payload.isText || payload.isTerminal with
  | false =>
      obtain ⟨hText, hTerminal⟩ := Bool.or_eq_false_iff.mp hWrites
      rw [growAll_of_neither hText hTerminal]
      exact hSaid
  | true =>
      by_cases hSame : other.exchangeId = speaker.exchangeId
      · have hQuiet : other.said = [] := by
          by_contra hSome
          have hNone := List.any_eq_false.mp (hTurn hWrites) (other, j)
            (List.mem_zipIdx_iff_getElem?.mpr hAt)
          simp [hOther, hSame, hSome] at hNone
        rw [hQuiet]
        exact List.nil_suffix
      · rw [growAll, Function.update_of_ne hSame]
        exact hSaid

theorem inv_speak {s : Surface} {i : Nat} {speaker : Speaker} {payload : Payload} (hInv : Inv s)
    (hAt : s.speakers[i]? = some speaker) (hMay : Surface.mayFinish speaker payload = true)
    (hText : s.losesText payload = false)
    (hTurn : (payload.isText || payload.isTerminal) = true → s.inTurn i speaker.exchangeId = false)
    (hLast : ∀ message, payload.finished? = some message →
      message.content.toList.getLast? ≠ some '\n') :
    Inv { s with
      items := offer { payload, exchangeId := speaker.exchangeId } s.items
      speakers := s.speakers.set i (speaker.speak payload) } := by
  have hBuffers : ({ s with
      items := offer { payload, exchangeId := speaker.exchangeId } s.items
      speakers := s.speakers.set i (speaker.speak payload) } : Surface).buffers = s.buffers := rfl
  have hOwn := hInv.speaking speaker (List.mem_of_getElem? hAt)
  have hCases : ∀ other ∈ s.speakers.set i (speaker.speak payload),
      other = speaker.speak payload ∨ ∃ j, j ≠ i ∧ s.speakers[j]? = some other := by
    intro other hMem
    obtain ⟨j, hBound⟩ := List.getElem?_of_mem hMem
    rcases Sequence.getElem?_set_cases hBound with ⟨-, rfl⟩ | ⟨hOther, hOld⟩
    · exact Or.inl rfl
    · exact Or.inr ⟨j, hOther, hOld⟩
  obtain ⟨kept, hGood, hOffer⟩ := offer_cases (e := { payload, exchangeId := speaker.exchangeId })
    hInv.bounded hText
  -- What the full queue refuses is no text, so the buffers are as they were.
  rcases hOffer with ⟨hOffer, hRoom⟩ | ⟨hOffer, rfl, hQuiet⟩
  · refine ⟨?_, ?_, ?_, hInv.composed⟩
    · rw [hOffer, List.length_append, List.length_singleton]
      omega
    · rw [hBuffers, hOffer, ready_append]
      refine ⟨hGood.ready _ hInv.ready, fun message hFinished => ⟨?_, hLast message hFinished⟩, trivial⟩
      have hContent : message.content.toList = speaker.said := by
        have hAll := (Option.all_eq_true _ _).mp hMay message hFinished
        exact of_decide_eq_true hAll
      rw [hContent, hGood.buffers]
      exact hOwn
    · intro other hMem
      rw [hBuffers, hOffer, List.foldl_append, List.foldl_cons, List.foldl_nil, hGood.buffers]
      rcases hCases other hMem with rfl | ⟨j, hOther, hAtJ⟩
      · rw [speak_exchangeId, growAll, Function.update_self]
        exact suffix_speak hOwn
      · exact suffix_others hInv hTurn hOther hAtJ
  · refine ⟨?_, ?_, ?_, hInv.composed⟩
    · rw [hOffer]
      exact hInv.bounded
    · rw [hBuffers, hOffer]
      exact hInv.ready
    · intro other hMem
      rw [hBuffers, hOffer]
      rcases hCases other hMem with rfl | ⟨j, -, hAtJ⟩
      · rw [speak_exchangeId]
        exact suffix_speak_of_quiet hOwn hQuiet
      · exact hInv.speaking other (List.mem_of_getElem? hAtJ)

theorem inv_step {s s' : Surface} {m : Surface.Move} (hInv : Inv s) (hGentle : s.gentle m = true)
    (hStep : s.step m = some s') : Inv s' := by
  cases m with
  | start exchangeId =>
      obtain rfl := Option.some.inj hStep
      refine ⟨hInv.bounded, hInv.ready, fun speaker hMem => ?_, hInv.composed⟩
      rcases List.mem_append.mp hMem with hOld | hNew
      · exact hInv.speaking speaker hOld
      · obtain rfl := List.mem_singleton.mp hNew
        exact List.nil_suffix
  | speak i payload =>
      obtain ⟨speaker, hAt, hSpeak⟩ := Option.bind_eq_some_iff.mp hStep
      split at hSpeak
      · rename_i hMay
        obtain rfl := Option.some.inj hSpeak
        simp only [Surface.gentle, hAt, Option.all_some, Bool.and_eq_true, Bool.not_eq_true',
          Bool.or_eq_true] at hGentle
        obtain ⟨⟨hText, hTurn⟩, hLast⟩ := hGentle
        refine inv_speak hInv hAt hMay hText (fun hWrites => ?_) fun message hFinished => ?_
        · rcases hTurn with hQuiet | hTurn
          · exact absurd hWrites (by simp [hQuiet])
          · exact hTurn
        · exact of_decide_eq_true ((Option.all_eq_true _ _).mp hLast message hFinished)
      · simp at hSpeak
  | read =>
      simp only [Surface.step] at hStep
      split at hStep
      · simp at hStep
      · rename_i e rest hItems
        obtain rfl := Option.some.inj hStep
        exact inv_read hInv hItems

theorem inv_run {moves : List Surface.Move} {s s' : Surface} (hInv : Inv s)
    (hGentle : Surface.gentleRun moves s = true) (hRun : Surface.run moves s = some s') : Inv s' := by
  induction moves generalizing s with
  | nil =>
      obtain rfl := Option.some.inj hRun
      exact hInv
  | cons m rest ih =>
      obtain ⟨next, hStep, hRest⟩ := Option.bind_eq_some_iff.mp hRun
      simp only [Surface.gentleRun, Bool.and_eq_true, hStep, Option.all_some] at hGentle
      exact ih (inv_step hInv hGentle.1 hStep) hGentle.2 hRest

theorem inv_initial : Inv {} :=
  ⟨Nat.zero_le _, trivial, fun _ hMem => by simp at hMem, fun _ _ hMem => by simp at hMem⟩

/-- In a run of gentle moves every answer that the bridge has been told of is in the text
of its last flush. -/
theorem answer_in_final_text {moves : List Surface.Move} {s : Surface}
    (hRun : Surface.run moves {} = some s) (hGentle : Surface.gentleRun moves {} = true) :
    ∀ message text, (message, text) ∈ s.composed → message.content.toList <:+: text :=
  (inv_run inv_initial hGentle hRun).composed

/-- An answer in two pieces, read while it is written. -/
def promptAnswer : List Surface.Move :=
  [.start (some 1), .speak 0 (.loop (.iterationStarted 0)), .speak 0 (.loop .reasoningDelta),
    .speak 0 (.loop (.textDelta "Hello, ")), .read, .read, .read,
    .speak 0 (.loop (.textDelta "world")),
    .speak 0 (.loop (.finished (.assistant "Hello, world" []) none)), .read, .read]

theorem answer_in_final_text_promptAnswer :
    ∃ s, Surface.run promptAnswer {} = some s ∧ Surface.gentleRun promptAnswer {} = true ∧
      s.composed = [(.assistant "Hello, world" [], "```\n💭 думаю ·\n```\nHello, world".toList)] ∧
      "Hello, world".toList <:+: "```\n💭 думаю ·\n```\nHello, world".toList := by
  have hRuns : (Surface.run promptAnswer {}).map (·.composed) =
      some [(.assistant "Hello, world" [], "```\n💭 думаю ·\n```\nHello, world".toList)] := by
    decide +kernel
  obtain ⟨s, hRun, hComposed⟩ := Option.map_eq_some_iff.mp hRuns
  have hGentle : Surface.gentleRun promptAnswer {} = true := by decide +kernel
  refine ⟨s, hRun, hGentle, hComposed, ?_⟩
  exact answer_in_final_text hRun hGentle (.assistant "Hello, world" []) _
    (hComposed ▸ List.mem_singleton.mpr rfl)

/-- The agent thinks for a hundred chunks while the bridge is busy; the text of the answer
comes when the queue is full, and its end when the queue can be made to take it. -/
def lagging : List Surface.Move :=
  List.flatten [[.start (some 1)], List.replicate 100 (.speak 0 (.loop .reasoningDelta)),
    [.speak 0 (.loop (.textDelta "Hello")),
      .speak 0 (.loop (.finished (.assistant "Hello" []) none))],
    List.replicate 100 .read]

/-- The answer is lost along with its tokens. -/
theorem answer_lost_to_lag :
    ∃ s, Surface.run lagging {} = some s ∧
      ∃ message text, (message, text) ∈ s.composed ∧ ¬ message.content.toList <:+: text := by
  have hRuns : (Surface.run lagging {}).map (·.composed) =
      some [(.assistant "Hello" [], "```\n💭 думаю ··99\n```".toList)] := by
    decide +kernel
  obtain ⟨s, hRun, hComposed⟩ := Option.map_eq_some_iff.mp hRuns
  refine ⟨s, hRun, .assistant "Hello" [], _, hComposed ▸ List.mem_singleton.mpr rfl, ?_⟩
  decide +kernel

end Telegram
end OctoForge
