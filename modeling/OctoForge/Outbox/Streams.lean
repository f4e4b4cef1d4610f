import OctoForge.Conversation.Store
import OctoForge.Queue.Bounded

/-!
# Subscriber queues

A conversation runner fans its events out to the transports that are attached
to it, each behind a bounded queue.  Stream chatter may be dropped on a queue
that is full; a terminal or a process marker is critical and may not, because
the outbox stamps a result as delivered on the strength of its terminal having
been accepted.  When the runner stands down every attached queue gets an
end-of-stream marker.

A queue is kept after its transport has gone, since the transport may go on
reading it.  Two fields of a `Stream` are read by no operation: `read` is what
the consumer has taken out so far and `accepted` the critical events that
`_broadcast` counted as accepted by the queue.

Payloads that neither the queues nor the outbox look at (usage, tool calls,
retry delays) are left out of the events.  The set of subscribers is a set of
queues, so the order in which `_broadcast` visits them is of no consequence.
-/

namespace OctoForge
namespace Outbox

open Dialog (ExchangeId ChatMessage)
open Conversation (TaskId TaskStatus)

inductive LoopEvent where
  | iterationStarted (index : Nat)
  | textDelta (text : String)
  | reasoningDelta
  | assistantMessage (message : ChatMessage) (interrupted : Bool)
  | toolCallRequested
  | toolCallCompleted
  | toolCallFailed
  /-- `taskId` is the `task_id` of the message. -/
  | finished (message : ChatMessage) (taskId : Option TaskId)
      (sourceClientMessageId : Option String)
  | cancelled
  | failed (error : String)
  | retryScheduled
  | processStarted (processId : TaskId) (title : String) (sourceClientMessageId : Option String)
  | processCompleted (processId : TaskId) (title : String) (status : TaskStatus)
  deriving DecidableEq, Repr

/-- `_CRITICAL_EVENTS`. -/
def LoopEvent.critical : LoopEvent → Bool
  | .finished .. | .failed _ | .cancelled | .processStarted .. | .processCompleted .. => true
  | _ => false

structure ConversationEvent where
  dialogId : String
  seq : Nat
  payload : LoopEvent
  exchangeId : Option ExchangeId
  deriving DecidableEq, Repr

/-- What stands in a subscriber queue: an event or the end-of-stream marker. -/
abbrev Item := Option ConversationEvent

/-- `STREAM_CLOSED`. -/
def streamClosed : Item := none

/-- `SUBSCRIBER_QUEUE_SIZE`. -/
def subscriberQueueSize : Nat := 100

/-- The event of an item, when it is a critical one. -/
def critical? : Item → Option ConversationEvent
  | some event => if event.payload.critical then some event else none
  | none => none

/-- What may be evicted for the sake of a critical event. -/
def droppable : Item → Bool
  | some event => !event.payload.critical
  | none => false

/-- The critical events among the items, in order. -/
def criticals (items : List Item) : List ConversationEvent := items.filterMap critical?

/-- Whether a queue is in `_subscribers`.  A queue that is not has been taken
out by `unsubscribe`, or it was given the end-of-stream marker. -/
inductive Attachment where
  | attached
  | detached
  | closed
  deriving DecidableEq, Repr

structure Stream where
  items : List Item := []
  attachment : Attachment
  read : List Item := []
  accepted : List ConversationEvent := []
  deriving DecidableEq, Repr

namespace Stream

def isAttached (s : Stream) : Bool := s.attachment = .attached

/-- `put_nowait` would raise `QueueFull`. -/
def full (s : Stream) : Bool := subscriberQueueSize ≤ s.items.length

/-- The queue after it has taken the event. -/
def take (event : ConversationEvent) (items : List Item) (s : Stream) : Stream :=
  { s with items, accepted := s.accepted ++ criticals [some event] }

/-- One round of the loop of `_broadcast`: whether the queue accepts the event,
and the queue afterwards.  `_evict_and_put` is `Queue.evictAndPut`. -/
def offer (event : ConversationEvent) (s : Stream) : Bool × Stream :=
  match Queue.put subscriberQueueSize (some event) s.items with
  | some items => (true, s.take event items)
  | none =>
      if event.payload.critical then
        let evicted := Queue.evictAndPut subscriberQueueSize droppable (some event) s.items
        (evicted.1, if evicted.1 then s.take event evicted.2 else { s with items := evicted.2 })
      else (false, s)

/-- The consumer takes the head of the queue; on an empty queue it waits. -/
def get (s : Stream) : Stream :=
  match s.items with
  | [] => s
  | item :: rest => { s with items := rest, read := s.read ++ [item] }

/-- `_close_stream`, and the queue is no longer a subscriber. -/
def close (s : Stream) : Stream :=
  { s with items := Queue.close subscriberQueueSize streamClosed s.items, attachment := .closed }

/-- `unsubscribe`.  A queue that is not in the set is left alone. -/
def detach (s : Stream) : Stream :=
  if s.isAttached then { s with attachment := .detached } else s

end Stream

/-- The part of a runner that speaks to its transports. -/
structure Hub where
  dialogId : String
  seq : Nat := 0
  droppedEvents : Nat := 0
  stoodDown : Bool := false
  /-- Every queue `subscribe` has handed out, by number. -/
  streams : List Stream := []
  deriving DecidableEq, Repr

namespace Hub

/-- `_subscribers`. -/
def subscribers (h : Hub) : List Stream := h.streams.filter (·.isAttached)

/-- The envelope `_broadcast` makes next. -/
def envelope (event : LoopEvent) (exchangeId : Option ExchangeId) (h : Hub) : ConversationEvent where
  dialogId := h.dialogId
  seq := h.seq + 1
  payload := event
  exchangeId := exchangeId

/-- `_broadcast`: how many queues accepted the event, and the hub afterwards.
Every full queue counts as a dropped event, also when it was the victim of an
eviction that was dropped. -/
def broadcast (event : LoopEvent) (exchangeId : Option ExchangeId) (h : Hub) : Nat × Hub :=
  let sent := h.envelope event exchangeId
  (h.subscribers.countP fun s => (s.offer sent).1,
    { h with
      seq := h.seq + 1
      droppedEvents := h.droppedEvents + h.subscribers.countP (·.full)
      streams := h.streams.map fun s => if s.isAttached then (s.offer sent).2 else s })

/-- `subscribe`.  A runner that has stood down hands back a closed queue. -/
def subscribe (h : Hub) : Hub :=
  let queue : Stream :=
    if h.stoodDown then { items := [streamClosed], attachment := .closed }
    else { attachment := .attached }
  { h with streams := h.streams ++ [queue] }

/-- `stand_down`, as far as the transports see it. -/
def standDown (h : Hub) : Hub :=
  if h.stoodDown then h
  else
    { h with
      stoodDown := true
      streams := h.streams.map fun s => if s.isAttached then s.close else s }

def update (queue : Nat) (f : Stream → Stream) (h : Hub) : Hub :=
  { h with streams := h.streams.modify queue f }

end Hub

/-- What may happen to the queues of a runner. -/
inductive Op where
  | broadcast (event : LoopEvent) (exchangeId : Option ExchangeId)
  | read (queue : Nat)
  | subscribe
  | unsubscribe (queue : Nat)
  | standDown
  deriving DecidableEq, Repr

/-- Each of them is synchronous: nothing runs in between. -/
def Hub.step (h : Hub) : Op → Hub
  | .broadcast event exchangeId => (h.broadcast event exchangeId).2
  | .read queue => h.update queue Stream.get
  | .subscribe => h.subscribe
  | .unsubscribe queue => h.update queue Stream.detach
  | .standDown => h.standDown

def Hub.run (ops : List Op) (h : Hub) : Hub := ops.foldl Hub.step h

/-! ## One queue -/

@[simp] theorem criticals_nil : criticals [] = [] := rfl

@[simp] theorem criticals_append (items items' : List Item) :
    criticals (items ++ items') = criticals items ++ criticals items' :=
  List.filterMap_append

@[simp] theorem criticals_streamClosed : criticals [streamClosed] = [] := rfl

theorem critical?_of_droppable {item : Item} (hDroppable : droppable item = true) :
    critical? item = none := by
  cases item with
  | none => rfl
  | some event => simpa [critical?, droppable] using hDroppable

namespace Stream

variable {s : Stream} {event : ConversationEvent}

/-- The critical events the consumer has seen or will see. -/
def visible (s : Stream) : List ConversationEvent := criticals s.read ++ criticals s.items

/-- No critical event the queue accepted has been taken back, and their order
is kept. -/
def Kept (s : Stream) : Prop := s.visible = s.accepted

instance : Decidable s.Kept := inferInstanceAs (Decidable (_ = _))

/-- The queue is full and its head is a critical event. -/
def headAtRisk (s : Stream) : Bool := s.full && (s.items.head?.bind critical?).isSome

/-- What an offer does: the queue takes the event, at its end and at the
expense of nothing critical, or it is left alone. -/
theorem offer_cases (event : ConversationEvent) (hBound : s.items.length ≤ subscriberQueueSize) :
    (∃ items, s.offer event = (true, s.take event items) ∧
      items.length ≤ subscriberQueueSize ∧
      criticals items = criticals s.items ++ criticals [some event]) ∨
    s.offer event = (false, s) := by
  unfold offer
  cases hPut : Queue.put subscriberQueueSize (some event) s.items with
  | some items =>
      obtain ⟨hRoom, rfl⟩ := Queue.put_eq_some_iff.mp hPut
      left
      refine ⟨_, rfl, ?_, criticals_append _ _⟩
      rw [List.length_append, List.length_singleton]
      exact hRoom
  | none =>
      simp only
      split
      -- A full queue gives up an item that is not critical, if it has one.
      · have hLength := Queue.evictAndPut_length_le droppable (some event) hBound
        have hKept := Queue.evictAndPut_filterMap droppable (some event) hBound
          fun _ => critical?_of_droppable
        rcases Queue.evictAndPut_cases droppable (some event) hBound with
          ⟨hEq, -⟩ | ⟨before, victim, after, -, -, -, hEq⟩
        · right
          rw [hEq]
          rfl
        · left
          refine ⟨(Queue.evictAndPut subscriberQueueSize droppable (some event) s.items).2,
            ?_, hLength, ?_⟩
          · rw [hEq]
            rfl
          · rw [criticals, hKept, hEq]
            rfl
      · exact Or.inr rfl

theorem visible_get : s.get.visible = s.visible := by
  unfold get
  split
  · rfl
  · next item rest hItems =>
      have hHead : criticals (item :: rest) = criticals [item] ++ criticals rest :=
        criticals_append [item] rest
      simp only [visible, hItems, hHead, criticals_append, List.append_assoc]

@[simp] theorem accepted_get : s.get.accepted = s.accepted := by
  unfold get
  split <;> rfl

theorem visible_detach : s.detach.visible = s.visible := by
  unfold detach
  split <;> rfl

@[simp] theorem accepted_detach : s.detach.accepted = s.accepted := by
  unfold detach
  split <;> rfl

/-- Closing a queue costs the consumer the head of a full one. -/
theorem visible_close (hBound : s.items.length ≤ subscriberQueueSize) :
    s.close.visible =
      criticals s.read ++ criticals (if s.full then s.items.tail else s.items) := by
  have hClose : criticals (Queue.close subscriberQueueSize streamClosed s.items) =
      criticals (if s.full then s.items.tail else s.items) := by
    by_cases hFull : subscriberQueueSize ≤ s.items.length
    · rw [Queue.close_of_length_eq (Nat.le_antisymm hBound hFull), if_pos (by simpa [full] using hFull),
        criticals_append, criticals_streamClosed, List.append_nil]
    · rw [Queue.close_of_lt (Nat.lt_of_not_le hFull), if_neg (by simpa [full] using hFull),
        criticals_append, criticals_streamClosed, List.append_nil]
  rw [← hClose]
  rfl

/-- What holds of a queue however it was used: it is within its bound, what it
still shows of its critical events is in order, and a closed one ends with the
marker. -/
structure Valid (seq : Nat) (s : Stream) : Prop where
  bounded : s.items.length ≤ subscriberQueueSize
  ordered : s.accepted.Pairwise fun first second => first.seq < second.seq
  fresh : ∀ event ∈ s.accepted, event.seq ≤ seq
  sublist : s.visible.Sublist s.accepted
  last : s.attachment = .closed → (s.read ++ s.items).getLast? = some streamClosed

theorem Valid.mono {seq seq' : Nat} (hValid : s.Valid seq) (hLe : seq ≤ seq') : s.Valid seq' :=
  { hValid with fresh := fun event hMem => Nat.le_trans (hValid.fresh event hMem) hLe }

theorem Valid.offer {seq : Nat} (hValid : s.Valid seq) (hAttached : s.isAttached = true)
    (hSeq : event.seq = seq + 1) : (s.offer event).2.Valid (seq + 1) := by
  rcases offer_cases event hValid.bounded with ⟨items, hEq, hLength, hItems⟩ | hEq
  · rw [hEq]
    have hNew : ∀ other ∈ criticals [some event], other = event := by
      intro other hMem
      obtain ⟨item, hItem, hCritical⟩ := List.mem_filterMap.mp hMem
      obtain rfl := List.mem_singleton.mp hItem
      simp only [critical?, Option.ite_none_right_eq_some, Option.some.injEq] at hCritical
      exact hCritical.2.symm
    refine ⟨hLength, ?_, ?_, ?_, ?_⟩
    · refine List.pairwise_append.mpr ⟨hValid.ordered, ?_, ?_⟩
      · simp only [criticals, List.filterMap_cons, List.filterMap_nil]
        split <;> simp
      · intro first hFirst second hSecond
        have hLe := hValid.fresh first hFirst
        rw [hNew second hSecond]
        omega
    · intro other hMem
      rcases List.mem_append.mp hMem with hOld | hMem'
      · exact Nat.le_succ_of_le (hValid.fresh other hOld)
      · rw [hNew other hMem']
        exact Nat.le_of_eq hSeq
    · show (criticals s.read ++ criticals items).Sublist (s.accepted ++ criticals [some event])
      rw [hItems, ← List.append_assoc]
      exact hValid.sublist.append (List.Sublist.refl _)
    · intro hClosed
      have hOpen : s.attachment = .attached := by simpa [isAttached] using hAttached
      exact absurd (hOpen.symm.trans hClosed) (by decide)
  · rw [hEq]
    exact hValid.mono (Nat.le_succ seq)

theorem Valid.get {seq : Nat} (hValid : s.Valid seq) : s.get.Valid seq := by
  have hAll : s.get.read ++ s.get.items = s.read ++ s.items := by
    unfold Stream.get
    split
    · rfl
    · next item rest hItems => simp [hItems]
  have hAttachment : s.get.attachment = s.attachment := by
    unfold Stream.get
    split <;> rfl
  have hLength : s.get.items.length ≤ s.items.length := by
    unfold Stream.get
    split
    · exact Nat.le_refl _
    · next item rest hItems => simp [hItems]
  refine ⟨Nat.le_trans hLength hValid.bounded, ?_, ?_, ?_, ?_⟩
  · rw [accepted_get]
    exact hValid.ordered
  · rw [accepted_get]
    exact hValid.fresh
  · rw [accepted_get, visible_get]
    exact hValid.sublist
  · rw [hAll, hAttachment]
    exact hValid.last

theorem Valid.detach {seq : Nat} (hValid : s.Valid seq) : s.detach.Valid seq := by
  unfold Stream.detach
  split
  · exact ⟨hValid.bounded, hValid.ordered, hValid.fresh, hValid.sublist,
      fun hClosed => by cases hClosed⟩
  · exact hValid

theorem Valid.close {seq : Nat} (hValid : s.Valid seq) : s.close.Valid seq := by
  refine ⟨Queue.close_length_le (by decide) hValid.bounded, hValid.ordered, hValid.fresh, ?_, ?_⟩
  · rw [visible_close hValid.bounded]
    refine List.Sublist.trans ?_ hValid.sublist
    refine (List.Sublist.refl _).append ?_
    split
    · exact (List.tail_sublist _).filterMap _
    · exact List.Sublist.refl _
  · intro _
    show (s.read ++ Queue.close subscriberQueueSize streamClosed s.items).getLast? = _
    rw [List.getLast?_append, Queue.close_getLast?]
    rfl

/-! ### What takes an event back -/

theorem kept_offer_iff {seq : Nat} (hValid : s.Valid seq) : (s.offer event).2.Kept ↔ s.Kept := by
  rcases offer_cases event hValid.bounded with ⟨items, hEq, -, hItems⟩ | hEq
  · rw [hEq]
    show criticals s.read ++ criticals items = s.accepted ++ criticals [some event] ↔ _
    rw [hItems, ← List.append_assoc]
    exact List.append_left_inj _
  · rw [hEq]

theorem kept_get_iff : s.get.Kept ↔ s.Kept := by
  rw [Kept, visible_get, accepted_get]
  rfl

theorem kept_detach_iff : s.detach.Kept ↔ s.Kept := by
  rw [Kept, visible_detach, accepted_detach]
  rfl

/-- Closing takes back exactly the critical head of a full queue. -/
theorem kept_close_iff {seq : Nat} (hValid : s.Valid seq) :
    s.close.Kept ↔ s.Kept ∧ s.headAtRisk = false := by
  have hAccepted : s.close.accepted = s.accepted := rfl
  rw [Kept, visible_close hValid.bounded, hAccepted]
  by_cases hFull : s.full = true
  · rw [if_pos hFull]
    cases hItems : s.items with
    | nil => simp [Kept, visible, headAtRisk, hItems]
    | cons item rest =>
        have hHead : criticals (item :: rest) = criticals [item] ++ criticals rest :=
          criticals_append [item] rest
        cases hCritical : critical? item with
        | none =>
            have hNone : criticals [item] = [] := by simp [criticals, hCritical]
            simp [Kept, visible, headAtRisk, hItems, hHead, hNone, hCritical]
        | some lost =>
            -- one critical event too few is left for the two lists to agree
            have hLost : criticals [item] = [lost] := by simp [criticals, hCritical]
            have hSub := hValid.sublist.length_le
            have hRisk : s.headAtRisk = true := by simp [headAtRisk, hItems, hFull, hCritical]
            simp only [visible, hItems, hHead, hLost, List.length_append, List.length_cons,
              List.length_nil] at hSub
            constructor
            · intro hEq
              have hLength := congrArg List.length hEq
              simp only [List.tail_cons, List.length_append] at hLength
              omega
            · rintro ⟨-, hSafe⟩
              rw [hRisk] at hSafe
              exact absurd hSafe (by decide)
  · rw [if_neg hFull]
    simp [Kept, visible, headAtRisk, hFull]

end Stream

/-! ## Every queue of a runner -/

namespace Hub

variable {h : Hub}

/-- What holds in every state: the queues are valid, and after `stand_down`
none of them is attached. -/
structure Valid (h : Hub) : Prop where
  streams : ∀ s ∈ h.streams, s.Valid h.seq
  closed : h.stoodDown = true → ∀ s ∈ h.streams, s.isAttached = false

/-- What the transports are promised. -/
structure Faithful (h : Hub) : Prop where
  /-- A critical event that was accepted has been read or is still queued, and
  so in the order of acceptance. -/
  kept : ∀ s ∈ h.streams, s.Kept
  /-- That order is the order of the broadcasts. -/
  ordered : ∀ s ∈ h.streams, s.accepted.Pairwise fun first second => first.seq < second.seq
  /-- After `stand_down` a queue is closed, unless its transport had left. -/
  closed : h.stoodDown = true → ∀ s ∈ h.streams, s.attachment ≠ .attached
  /-- The last a consumer of a closed queue reads is the marker. -/
  last : ∀ s ∈ h.streams, s.attachment = .closed →
    (s.read ++ s.items).getLast? = some streamClosed

/-- The condition on a step: `stand_down` finds no attached queue that is full
and has a critical event at its head. -/
def Spares (h : Hub) : Op → Prop
  | .standDown => h.stoodDown = false → ∀ s ∈ h.subscribers, s.headAtRisk = false
  | _ => True

/-- Every step of the run meets the condition. -/
def SparedAlong (h : Hub) : List Op → Prop
  | [] => True
  | op :: rest => h.Spares op ∧ (h.step op).SparedAlong rest

theorem mem_subscribers {s : Stream} :
    s ∈ h.subscribers ↔ s ∈ h.streams ∧ s.isAttached = true :=
  List.mem_filter

theorem mem_modify {streams : List Stream} {f : Stream → Stream} {queue : Nat} {s : Stream}
    (hMem : s ∈ streams.modify queue f) : s ∈ streams ∨ ∃ old ∈ streams, s = f old := by
  obtain ⟨k, hk, rfl⟩ := List.getElem_of_mem hMem
  rw [List.length_modify] at hk
  rw [List.getElem_modify]
  split
  · exact Or.inr ⟨_, List.getElem_mem hk, rfl⟩
  · exact Or.inl (List.getElem_mem hk)

theorem Valid.update {f : Stream → Stream} (queue : Nat) (hValid : h.Valid)
    (hStream : ∀ s : Stream, s.Valid h.seq → (f s).Valid h.seq)
    (hAttached : ∀ s : Stream, s.isAttached = false → (f s).isAttached = false) :
    (h.update queue f).Valid := by
  constructor
  · intro s hMem
    rcases mem_modify hMem with hOld | ⟨old, hOld, rfl⟩
    · exact hValid.streams s hOld
    · exact hStream old (hValid.streams old hOld)
  · intro hDown s hMem
    rcases mem_modify hMem with hOld | ⟨old, hOld, rfl⟩
    · exact hValid.closed hDown s hOld
    · exact hAttached old (hValid.closed hDown old hOld)

theorem Valid.broadcast (hValid : h.Valid) (event : LoopEvent) (exchangeId : Option ExchangeId) :
    (h.broadcast event exchangeId).2.Valid := by
  constructor
  · intro s hMem
    obtain ⟨old, hOld, rfl⟩ := List.mem_map.mp hMem
    split
    · next hAttached => exact (hValid.streams old hOld).offer hAttached rfl
    · exact (hValid.streams old hOld).mono (Nat.le_succ _)
  · intro hDown s hMem
    obtain ⟨old, hOld, rfl⟩ := List.mem_map.mp hMem
    rw [if_neg (by simp [hValid.closed hDown old hOld])]
    exact hValid.closed hDown old hOld

theorem Valid.subscribe (hValid : h.Valid) : h.subscribe.Valid := by
  constructor
  · intro s hMem
    rcases List.mem_append.mp hMem with hOld | hNew
    · exact hValid.streams s hOld
    · obtain rfl := List.mem_singleton.mp hNew
      split
      · exact ⟨by decide, List.Pairwise.nil, by simp, by decide, by simp⟩
      · exact ⟨by decide, List.Pairwise.nil, by simp, by decide, by simp⟩
  · intro hDown s hMem
    rcases List.mem_append.mp hMem with hOld | hNew
    · exact hValid.closed hDown s hOld
    · obtain rfl := List.mem_singleton.mp hNew
      have hStood : h.stoodDown = true := hDown
      rw [if_pos hStood]
      rfl

theorem Valid.standDown (hValid : h.Valid) : h.standDown.Valid := by
  unfold Hub.standDown
  split
  · exact hValid
  · constructor
    · intro s hMem
      obtain ⟨old, hOld, rfl⟩ := List.mem_map.mp hMem
      split
      · exact (hValid.streams old hOld).close
      · exact hValid.streams old hOld
    · intro _ s hMem
      obtain ⟨old, hOld, rfl⟩ := List.mem_map.mp hMem
      split
      · rfl
      · next hDetached => simpa using hDetached

theorem Valid.step (hValid : h.Valid) (op : Op) : (h.step op).Valid := by
  cases op with
  | broadcast event exchangeId => exact hValid.broadcast event exchangeId
  | read queue =>
      refine hValid.update queue (fun _ hStream => hStream.get) fun s hDetached => ?_
      unfold Stream.get
      split <;> exact hDetached
  | subscribe => exact hValid.subscribe
  | unsubscribe queue =>
      refine hValid.update queue (fun _ hStream => hStream.detach) fun s hDetached => ?_
      rw [Stream.detach, if_neg (by simp [hDetached])]
      exact hDetached
  | standDown => exact hValid.standDown

theorem Valid.run (hValid : h.Valid) (ops : List Op) : (h.run ops).Valid := by
  induction ops generalizing h with
  | nil => exact hValid
  | cons op rest ih => exact ih (hValid.step op)

theorem valid_fresh (dialogId : String) : ({ dialogId } : Hub).Valid :=
  ⟨by simp, by simp⟩

/-! ### One step keeps what was accepted exactly when it spares the heads -/

/-- No queue of the runner has taken a critical event back. -/
def AllKept (h : Hub) : Prop := ∀ s ∈ h.streams, s.Kept

theorem allKept_update_iff {f : Stream → Stream} (queue : Nat)
    (hIff : ∀ s : Stream, (f s).Kept ↔ s.Kept) : (h.update queue f).AllKept ↔ h.AllKept := by
  constructor
  · intro hKept s hMem
    obtain ⟨k, hk, rfl⟩ := List.getElem_of_mem hMem
    have hk' : k < (h.streams.modify queue f).length := by
      rw [List.length_modify]
      exact hk
    have hNew := hKept _ (List.getElem_mem hk')
    rw [List.getElem_modify] at hNew
    split at hNew
    · exact (hIff _).mp hNew
    · exact hNew
  · intro hKept s hMem
    rcases mem_modify hMem with hOld | ⟨old, hOld, rfl⟩
    · exact hKept s hOld
    · exact (hIff old).mpr (hKept old hOld)

theorem allKept_broadcast_iff (hValid : h.Valid) (event : LoopEvent)
    (exchangeId : Option ExchangeId) : (h.broadcast event exchangeId).2.AllKept ↔ h.AllKept := by
  refine List.forall_mem_map.trans (forall₂_congr fun s hMem => ?_)
  split
  · exact Stream.kept_offer_iff (hValid.streams s hMem)
  · exact Iff.rfl

theorem allKept_subscribe_iff : h.subscribe.AllKept ↔ h.AllKept := by
  refine List.forall_mem_append.trans (and_iff_left ?_)
  intro s hMem
  obtain rfl := List.mem_singleton.mp hMem
  split <;> rfl

theorem allKept_standDown_iff (hValid : h.Valid) :
    h.standDown.AllKept ↔ h.AllKept ∧ h.Spares .standDown := by
  unfold Hub.standDown
  split
  · next hDown => simp [Spares, hDown]
  · next hUp =>
      have hSpares : h.Spares .standDown ↔ ∀ s ∈ h.streams, s.isAttached = true →
          s.headAtRisk = false := by
        simp [Spares, hUp, mem_subscribers]
      rw [hSpares, AllKept, AllKept, ← forall₂_and, List.forall_mem_map]
      refine forall₂_congr fun s hMem => ?_
      split
      · next hAttached =>
          rw [Stream.kept_close_iff (hValid.streams s hMem)]
          simp [hAttached]
      · next hDetached => simp [hDetached]

theorem allKept_step_iff (hValid : h.Valid) (op : Op) :
    (h.step op).AllKept ↔ h.AllKept ∧ h.Spares op := by
  cases op with
  | broadcast event exchangeId =>
      exact (allKept_broadcast_iff hValid event exchangeId).trans (and_iff_left trivial).symm
  | read queue =>
      exact (allKept_update_iff queue fun _ => Stream.kept_get_iff).trans
        (and_iff_left trivial).symm
  | subscribe => exact allKept_subscribe_iff.trans (and_iff_left trivial).symm
  | unsubscribe queue =>
      exact (allKept_update_iff queue fun _ => Stream.kept_detach_iff).trans
        (and_iff_left trivial).symm
  | standDown => exact allKept_standDown_iff hValid

theorem allKept_run_iff (hValid : h.Valid) (ops : List Op) :
    (h.run ops).AllKept ↔ h.AllKept ∧ h.SparedAlong ops := by
  induction ops generalizing h with
  | nil => simp [run, SparedAlong]
  | cons op rest ih =>
      have hRest : (h.run (op :: rest)).AllKept ↔
          (h.step op).AllKept ∧ (h.step op).SparedAlong rest := ih (hValid.step op)
      rw [hRest, allKept_step_iff hValid op, and_assoc]
      rfl

theorem Valid.faithful_iff (hValid : h.Valid) : h.Faithful ↔ h.AllKept := by
  constructor
  · exact fun hFaithful => hFaithful.kept
  · intro hKept
    refine ⟨hKept, fun s hMem => (hValid.streams s hMem).ordered, ?_,
      fun s hMem => (hValid.streams s hMem).last⟩
    intro hDown s hMem hAttached
    have hDetached := hValid.closed hDown s hMem
    rw [Stream.isAttached, hAttached] at hDetached
    exact absurd hDetached (by decide)

/-- However a runner's queues are used, the promise to the transports holds
exactly as long as `stand_down` finds no full queue with a critical event at
its head. -/
theorem faithful_iff_spared (dialogId : String) (ops : List Op) :
    (Hub.run ops { dialogId }).Faithful ↔ Hub.SparedAlong { dialogId } ops := by
  rw [((valid_fresh dialogId).run ops).faithful_iff, allKept_run_iff (valid_fresh dialogId)]
  refine and_iff_right ?_
  intro s hMem
  cases hMem

/-- A transport that lags by a hundred events: the final of a task, which the
outbox counted as delivered, and stream chatter behind it.  Then the runner
stands down. -/
def laggingReader : List Op :=
  [.subscribe, .broadcast (.finished { role := .assistant, content := "answer" } (some 1) none) none]
    ++ List.replicate 99 (.broadcast (.textDelta "chatter") none) ++ [.standDown]

/-- Nothing has been read, the final is gone. -/
theorem final_taken_back :
    (Hub.run laggingReader { dialogId := "d" }).streams.map
        (fun s => (s.accepted.length, s.read, criticals s.items)) = [(1, [], [])] ∧
      ¬ (Hub.run laggingReader { dialogId := "d" }).Faithful := by
  have hRun : (Hub.run laggingReader { dialogId := "d" }).streams.map
      (fun s => (s.accepted.length, s.read, criticals s.items)) = [(1, [], [])] := by
    decide +kernel
  refine ⟨hRun, fun hFaithful => ?_⟩
  obtain ⟨s, hMem, hEq⟩ := List.mem_map.mp (hRun ▸ List.mem_singleton_self _)
  simp only [Prod.mk.injEq] at hEq
  obtain ⟨hAccepted, hRead, hItems⟩ := hEq
  have hKept : s.visible = s.accepted := hFaithful.kept s hMem
  rw [Stream.visible, hRead, hItems] at hKept
  rw [← hKept] at hAccepted
  exact absurd hAccepted (by decide)

end Hub

end Outbox
end OctoForge
