import Mathlib.Data.List.Nodup
import OctoForge.Outbox.Flush
import OctoForge.Sequence.History

/-!
# The books of the outbox

However flushes, notices, terminations and the use of the queues interleave, the
outbox keeps exact books (`Runner.Exact`): a delivery leaves the deque, and its
task is stamped, only after the flush that does it has seen the last event of
that very delivery accepted by a queue; no delivery leaves twice; and what has
not left is still queued.

A flush carries one piece of knowledge over the await of the stamp: that it has
sent the delivery it is about to remove (`SentBy`).  The trail only grows, so
nobody can take that from it.  That it removes this delivery and no other one is
a matter of identity: the identities of all deliveries that were ever queued are
distinct.
-/

namespace OctoForge
namespace Outbox

open Coop
open Sequence (Along)
open Dialog (ExchangeId MessageId ChatMessage)
open Conversation (TaskId TaskStatus)

namespace Note

def queued? : Note → Option Delivery
  | .queued delivery => some delivery
  | _ => none

def taken? : Note → Option Delivery
  | .left _ _ taken => some taken
  | _ => none

end Note

/-- The last event of the delivery is accepted by a queue when its events are
broadcast in this state of the queues. -/
def LastAccepted (delivery : Delivery) (before : Hub) : Prop :=
  ∃ init last, delivery.events = init ++ [last] ∧
    0 < ((before.broadcastAll init delivery.exchangeId).2.broadcast last delivery.exchangeId).1

/-- This flush has broadcast the delivery and its last event was accepted. -/
def SentBy (flush : Nat) (delivery : Delivery) (trail : List Note) : Prop :=
  ∃ before, .offered flush delivery before ∈ trail ∧ LastAccepted delivery before

/-- What is required of a note, given what was noted before it. -/
def Justified (before : List Note) : Note → Prop
  | .stamped flush delivery task =>
      delivery.taskId = some task ∧ SentBy flush delivery before
  | .left flush delivery taken => taken = delivery ∧ SentBy flush delivery before
  | _ => True

namespace Runner

/-- Every delivery that was ever put into the deque. -/
def queued (s : Runner) : List Delivery := s.trail.filterMap Note.queued?

/-- What was taken out of it. -/
def left (s : Runner) : List Delivery := s.trail.filterMap Note.taken?

/-- The bookkeeping is exact. -/
structure Exact (s : Runner) : Prop where
  /-- A flush stamps the task of a delivery, and takes a delivery out, only
  after the last event of that delivery was accepted in the same flush. -/
  justified : Along Justified s.trail
  /-- No delivery is queued twice. -/
  distinct : (s.queued.map (·.id)).Nodup
  /-- No delivery leaves twice. -/
  leavesOnce : (s.left.map (·.id)).Nodup
  /-- Every delivery has left or is still queued, and not both. -/
  balance : (s.pendingDeliveries ++ s.left).Perm s.queued

/-- The invariant behind it. -/
structure Books (s : Runner) : Prop where
  justified : Along Justified s.trail
  distinct : (s.queued.map (·.id)).Nodup
  balance : (s.pendingDeliveries ++ s.left).Perm s.queued
  fresh : ∀ delivery ∈ s.queued, delivery.id < s.nextDelivery
  /-- Only what was queued is ever broadcast. -/
  offered : ∀ flush delivery before, .offered flush delivery before ∈ s.trail → delivery ∈ s.queued

/-- The notes only grow. -/
def Grows (s s' : Runner) : Prop := s.trail <+: s'.trail

theorem Grows.refl (s : Runner) : Grows s s := List.prefix_refl _

theorem Grows.trans {s s' s'' : Runner} (hFirst : Grows s s') (hSecond : Grows s' s'') :
    Grows s s'' :=
  List.IsPrefix.trans hFirst hSecond

variable {s s' : Runner} {me : Nat} {delivery : Delivery}

theorem Books.exact (hBooks : s.Books) : s.Exact := by
  refine ⟨hBooks.justified, hBooks.distinct, ?_, hBooks.balance⟩
  have hIds := hBooks.balance.map (·.id)
  have hAll := hIds.nodup_iff.mpr hBooks.distinct
  rw [List.map_append] at hAll
  exact (List.nodup_append.mp hAll).2.1

theorem Books.mem_queued (hBooks : s.Books) (hMem : delivery ∈ s.pendingDeliveries) :
    delivery ∈ s.queued :=
  hBooks.balance.subset (List.mem_append_left _ hMem)

/-- Two deliveries with one identity are one. -/
theorem Books.eq_of_id {other : Delivery} (hBooks : s.Books) (hMem : delivery ∈ s.queued)
    (hOther : other ∈ s.queued) (hId : other.id = delivery.id) : other = delivery :=
  List.inj_on_of_nodup_map hBooks.distinct hOther hMem hId

/-- The books do not depend on anything else. -/
theorem Books.congr (hBooks : s.Books) (hPending : s'.pendingDeliveries = s.pendingDeliveries)
    (hTrail : s'.trail = s.trail) (hNext : s'.nextDelivery = s.nextDelivery) : s'.Books := by
  have hQueued : s'.queued = s.queued := by rw [queued, hTrail, queued]
  have hLeft : s'.left = s.left := by rw [left, hTrail, left]
  refine ⟨?_, ?_, ?_, ?_, ?_⟩
  · rw [hTrail]
    exact hBooks.justified
  · rw [hQueued]
    exact hBooks.distinct
  · rw [hPending, hLeft, hQueued]
    exact hBooks.balance
  · rw [hQueued, hNext]
    exact hBooks.fresh
  · rw [hTrail, hQueued]
    exact hBooks.offered

/-- A note that puts nothing into the deque and takes nothing out of it. -/
theorem Books.note (hBooks : s.Books) (note : Note) (hQueued : note.queued? = none)
    (hTaken : note.taken? = none) (hJustified : Justified s.trail note)
    (hOffered : ∀ flush delivery before, note = .offered flush delivery before →
      delivery ∈ s.queued)
    (hPending : s'.pendingDeliveries = s.pendingDeliveries)
    (hTrail : s'.trail = s.trail ++ [note]) (hNext : s'.nextDelivery = s.nextDelivery) :
    s'.Books := by
  have hQueued' : s'.queued = s.queued := by simp [queued, hTrail, hQueued]
  have hLeft : s'.left = s.left := by simp [left, hTrail, hTaken]
  refine ⟨?_, ?_, ?_, ?_, ?_⟩
  · rw [hTrail]
    exact hBooks.justified.snoc hJustified
  · rw [hQueued']
    exact hBooks.distinct
  · rw [hPending, hLeft, hQueued']
    exact hBooks.balance
  · rw [hQueued', hNext]
    exact hBooks.fresh
  · intro flush other before hNote
    rw [hTrail] at hNote
    rw [hQueued']
    rcases List.mem_append.mp hNote with hOld | hNew
    · exact hBooks.offered flush other before hOld
    · exact hOffered flush other before (List.mem_singleton.mp hNew).symm

/-! ### Queueing -/

theorem Books.enqueue (hBooks : s.Books) (events : List LoopEvent) (taskId : Option TaskId)
    (exchangeId : Option ExchangeId) (front : Bool) :
    (s.enqueue events taskId exchangeId front).Books := by
  let new : Delivery := { id := s.nextDelivery, events, taskId, exchangeId }
  have hQueued : (s.enqueue events taskId exchangeId front).queued = s.queued ++ [new] := by
    simp [Runner.enqueue, queued, Note.queued?, new]
  have hLeft : (s.enqueue events taskId exchangeId front).left = s.left := by
    simp [Runner.enqueue, left, Note.taken?]
  -- At the front or at the back, the delivery is among those that are pending.
  have hPending :
      (s.enqueue events taskId exchangeId front).pendingDeliveries.Perm
        (s.pendingDeliveries ++ [new]) := by
    cases front with
    | true => exact (List.perm_append_singleton new s.pendingDeliveries).symm
    | false => exact List.Perm.refl _
  refine ⟨hBooks.justified.snoc trivial, ?_, ?_, ?_, ?_⟩
  · rw [hQueued, List.map_append, List.nodup_append]
    refine ⟨hBooks.distinct, List.nodup_singleton _, ?_⟩
    intro id hId other hOther hEq
    obtain ⟨old, hOld, rfl⟩ := List.mem_map.mp hId
    -- The number of the new delivery has not been given before.
    have hNew : other = s.nextDelivery := by simpa [new] using hOther
    have hLt := hBooks.fresh old hOld
    omega
  · rw [hQueued, hLeft]
    have hMiddle : (s.pendingDeliveries ++ [new] ++ s.left).Perm
        (s.pendingDeliveries ++ s.left ++ [new]) := by
      rw [List.append_assoc, List.append_assoc]
      exact List.Perm.append_left _ List.perm_append_comm
    exact ((hPending.append_right s.left).trans hMiddle).trans (hBooks.balance.append_right [new])
  · rw [hQueued]
    show ∀ other ∈ s.queued ++ [new], other.id < s.nextDelivery + 1
    intro other hMem
    rcases List.mem_append.mp hMem with hOld | hNew
    · exact Nat.lt_succ_of_lt (hBooks.fresh other hOld)
    · obtain rfl := List.mem_singleton.mp hNew
      exact Nat.lt_succ_self _
  · intro flush other before hMem
    rw [hQueued]
    have hOld : .offered flush other before ∈ s.trail := by
      rcases List.mem_append.mp hMem with hOld | hNew
      · exact hOld
      · exact absurd (List.mem_singleton.mp hNew) (by simp)
    exact List.mem_append_left _ (hBooks.offered flush other before hOld)

/-! ### Leaving -/

/-- A delivery is taken out where it is found by its identity, or nothing
happens. -/
theorem remove_cases (me : Nat) (delivery : Delivery) (s : Runner) :
    s.remove me delivery = s ∨
    ∃ front taken back, s.pendingDeliveries = front ++ taken :: back ∧
      taken.id = delivery.id ∧
      s.remove me delivery = { s with
        pendingDeliveries := front ++ back
        trail := s.trail ++ [.left me delivery taken] } := by
  have hDiscard : s.discard me delivery = s ∨
      ∃ front taken back, s.pendingDeliveries = front ++ taken :: back ∧
        taken.id = delivery.id ∧
        s.discard me delivery = { s with
          pendingDeliveries := front ++ back
          trail := s.trail ++ [.left me delivery taken] } := by
    unfold discard
    cases hFind : s.pendingDeliveries.find? (·.id = delivery.id) with
    | none => exact Or.inl rfl
    | some taken =>
        right
        obtain ⟨hId, front, back, hSplit, hFront⟩ := List.find?_eq_some_iff_append.mp hFind
        have hErase : s.pendingDeliveries.eraseP (·.id = delivery.id) = front ++ back := by
          rw [hSplit, List.eraseP_append_right _ fun other hMem => by simpa using hFront other hMem]
          simp [hId]
        exact ⟨front, taken, back, hSplit, by simpa using hId, by rw [hErase]⟩
  unfold remove
  split
  · next head rest hPending =>
      split
      · next hId => exact Or.inr ⟨[], head, rest, hPending, hId, rfl⟩
      · exact hDiscard
  · exact hDiscard

theorem grows_remove (me : Nat) (delivery : Delivery) (s : Runner) :
    Grows s (s.remove me delivery) := by
  rcases remove_cases me delivery s with hEq | ⟨front, taken, back, -, -, hEq⟩
  · rw [hEq]
    exact Grows.refl s
  · rw [hEq]
    exact List.prefix_append _ _

/-- A delivery this flush has sent may leave. -/
theorem Books.remove (hBooks : s.Books) (hSent : SentBy me delivery s.trail) :
    (s.remove me delivery).Books := by
  rcases remove_cases me delivery s with hEq | ⟨front, taken, back, hSplit, hId, hEq⟩
  · rw [hEq]
    exact hBooks
  obtain ⟨before, hOffered, hAccepted⟩ := hSent
  have hMem : taken ∈ s.pendingDeliveries := by simp [hSplit]
  -- The delivery is found by its number, which no other one has.
  obtain rfl : taken = delivery :=
    hBooks.eq_of_id (hBooks.offered me delivery before hOffered) (hBooks.mem_queued hMem) hId
  have hQueued : (s.remove me taken).queued = s.queued := by
    rw [hEq]
    simp [queued, Note.queued?]
  have hLeft : (s.remove me taken).left = s.left ++ [taken] := by
    rw [hEq]
    simp [left, Note.taken?]
  have hTrail : (s.remove me taken).trail = s.trail ++ [.left me taken taken] := by rw [hEq]
  have hNext : (s.remove me taken).nextDelivery = s.nextDelivery := by rw [hEq]
  have hPending : (s.remove me taken).pendingDeliveries = front ++ back := by rw [hEq]
  refine ⟨?_, ?_, ?_, ?_, ?_⟩
  · rw [hTrail]
    exact hBooks.justified.snoc ⟨rfl, before, hOffered, hAccepted⟩
  · rw [hQueued]
    exact hBooks.distinct
  -- It moves from the pending deliveries to those that have left.
  · have hMoved : (front ++ back ++ (s.left ++ [taken])).Perm
        (front ++ taken :: back ++ s.left) := by
      have hMiddle : (front ++ taken :: (back ++ s.left)).Perm
          (taken :: (front ++ (back ++ s.left))) := List.perm_middle
      rw [← List.append_assoc, List.append_assoc front (taken :: back), List.cons_append]
      refine (List.perm_append_singleton taken _).trans ?_
      rw [List.append_assoc]
      exact hMiddle.symm
    rw [hPending, hLeft, hQueued]
    exact hMoved.trans (hSplit ▸ hBooks.balance)
  · rw [hQueued, hNext]
    exact hBooks.fresh
  · intro flush other hub hNote
    rw [hTrail] at hNote
    rw [hQueued]
    rcases List.mem_append.mp hNote with hOld | hNew
    · exact hBooks.offered flush other hub hOld
    · exact absurd (List.mem_singleton.mp hNew) (by simp)

/-! ### Sending -/

theorem broadcastAll_concat (init : List LoopEvent) (last : LoopEvent)
    (exchangeId : Option ExchangeId) (h : Hub) :
    h.broadcastAll (init ++ [last]) exchangeId =
      (h.broadcastAll init exchangeId).2.broadcast last exchangeId := by
  simp [Hub.broadcastAll]

/-- The counter is overwritten with every event, so what is left of it is the
acceptance of the last one. -/
theorem lastAccepted_of_ne_zero {before : Hub}
    (hAccepted : (before.broadcastAll delivery.events delivery.exchangeId).1 ≠ 0) :
    LastAccepted delivery before := by
  rcases List.eq_nil_or_concat delivery.events with hNil | ⟨init, last, hEvents⟩
  · rw [hNil] at hAccepted
    exact absurd rfl hAccepted
  · rw [List.concat_eq_append] at hEvents
    refine ⟨init, last, hEvents, ?_⟩
    rw [hEvents, broadcastAll_concat] at hAccepted
    exact Nat.pos_of_ne_zero hAccepted

/-- What one round does: the books stay right, and a round that asks for a stamp
has sent the delivery. -/
theorem sendHead_spec (me : Nat) (hBooks : s.Books) :
    (s.sendHead me).2.Books ∧ Grows s (s.sendHead me).2 ∧
      ∀ delivery task, (s.sendHead me).1 = .stamp delivery task →
        delivery.taskId = some task ∧ SentBy me delivery (s.sendHead me).2.trail := by
  unfold sendHead
  split
  · exact ⟨hBooks, Grows.refl s, by simp⟩
  next head rest hPending =>
  split
  · exact ⟨hBooks, Grows.refl s, by simp⟩
  have hMem : head ∈ s.pendingDeliveries := by simp [hPending]
  let accepted := s.hub.broadcastAll head.events head.exchangeId
  let s' : Runner := { s with hub := accepted.2, trail := s.trail ++ [.offered me head s.hub] }
  have hBooks' : s'.Books := by
    refine hBooks.note (.offered me head s.hub) rfl rfl trivial ?_ rfl rfl rfl
    rintro flush delivery before hEq
    cases hEq
    exact hBooks.mem_queued hMem
  have hGrows : Grows s s' := List.prefix_append _ _
  dsimp only
  split
  · exact ⟨hBooks', hGrows, by simp⟩
  next hAccepted =>
  have hSent : SentBy me head s'.trail :=
    ⟨s.hub, by simp [s'], lastAccepted_of_ne_zero hAccepted⟩
  split
  · next task hTask =>
      refine ⟨hBooks', hGrows, ?_⟩
      intro delivery task' hStamp
      obtain ⟨rfl, rfl⟩ : head = delivery ∧ task = task' := by simpa using hStamp
      exact ⟨hTask, hSent⟩
  · exact ⟨hBooks'.remove hSent, hGrows.trans (grows_remove me head s'), by simp⟩

theorem drainFor_spec (me rounds : Nat) (hBooks : s.Books) :
    (s.drainFor me rounds).2.Books ∧ Grows s (s.drainFor me rounds).2 ∧
      ∀ delivery task, (s.drainFor me rounds).1 = some (delivery, task) →
        delivery.taskId = some task ∧ SentBy me delivery (s.drainFor me rounds).2.trail := by
  induction rounds generalizing s with
  | zero => exact ⟨hBooks, Grows.refl s, by simp [drainFor]⟩
  | succ rounds ih =>
      obtain ⟨hBooks', hGrows, hStamp⟩ := sendHead_spec me hBooks
      unfold drainFor
      split
      · next s' hRound =>
          rw [hRound] at hBooks' hGrows
          exact ⟨hBooks', hGrows, by simp⟩
      · next s' hRound =>
          rw [hRound] at hBooks' hGrows
          exact ⟨hBooks', hGrows, by simp⟩
      · next s' hRound =>
          rw [hRound] at hBooks' hGrows
          obtain ⟨hDone, hMore, hNext⟩ := ih hBooks'
          exact ⟨hDone, hGrows.trans hMore, hNext⟩
      · next delivery task s' hRound =>
          rw [hRound] at hBooks' hGrows hStamp
          refine ⟨hBooks', hGrows, ?_⟩
          intro delivery' task' hEq
          obtain ⟨rfl, rfl⟩ : delivery = delivery' ∧ task = task' := by simpa using hEq
          exact hStamp delivery task rfl

theorem resumeFlush_spec (me : Nat) (stamped : Option Delivery) (hBooks : s.Books)
    (hSent : ∀ delivery ∈ stamped, SentBy me delivery s.trail) :
    (s.resumeFlush me stamped).2.Books ∧ Grows s (s.resumeFlush me stamped).2 ∧
      ∀ delivery task, (s.resumeFlush me stamped).1 = some (delivery, task) →
        delivery.taskId = some task ∧ SentBy me delivery (s.resumeFlush me stamped).2.trail := by
  cases stamped with
  | none => exact drainFor_spec me _ hBooks
  | some delivery =>
      obtain ⟨hDone, hMore, hNext⟩ :=
        drainFor_spec me _ (hBooks.remove (hSent delivery rfl))
      exact ⟨hDone, (grows_remove me delivery s).trans hMore, hNext⟩

end Runner

/-! ## Every interleaving -/

/-- The outbox keeps the books, and everybody only adds to the notes. -/
def protocol : Protocol Runner := Protocol.ofStep Runner.Books Runner.Grows

section Protocol

variable {me : Nat} {delivery : Delivery}

theorem SentBy.mono {trail trail' : List Note} (hSent : SentBy me delivery trail)
    (hPrefix : trail <+: trail') : SentBy me delivery trail' := by
  obtain ⟨before, hOffered, hAccepted⟩ := hSent
  exact ⟨before, hPrefix.subset hOffered, hAccepted⟩

/-- What a flush knows to have sent it knows after every await. -/
theorem kept_sentBy (me : Nat) (stamped : Option Delivery) :
    protocol.Kept fun s => ∀ delivery ∈ stamped, SentBy me delivery s.trail :=
  Protocol.kept_ofStep fun _ _ _ hSent hGrows delivery hMem =>
    (hSent delivery hMem).mono hGrows

/-- A step of the table, the lock or the queues leaves the books alone. -/
theorem atomOk_aside {A : Runner → Prop} {ready : Runner → Bool} {f : Runner → Runner}
    (hPending : ∀ s, (f s).pendingDeliveries = s.pendingDeliveries)
    (hTrail : ∀ s, (f s).trail = s.trail) (hNext : ∀ s, (f s).nextDelivery = s.nextDelivery) :
    Co.AtomOk protocol me A ready f := by
  intro s hBooks _ _
  have hSame : s.trail <+: (f s).trail := hTrail s ▸ List.prefix_refl s.trail
  exact ⟨hBooks.congr (hPending s) (hTrail s) (hNext s), hSame⟩

/-- The stamp of a delivery that this flush has sent. -/
theorem atoms_stamp {task : TaskId} (hTask : delivery.taskId = some task) :
    Co.Atoms protocol me (fun s => ∀ sent ∈ some delivery, SentBy me sent s.trail)
      (suppressNotFound (markDelivered task [.stamped me delivery task])) := by
  refine Co.Atoms.tryCatch (Co.atoms_attempt ?_) ?_
  · intro s hBooks hSent _
    dsimp only
    split
    · exact ⟨hBooks, Runner.Grows.refl s⟩
    split
    · exact ⟨hBooks, Runner.Grows.refl s⟩
    · refine ⟨?_, List.prefix_append _ _⟩
      exact Runner.Books.note hBooks (.stamped me delivery task) rfl rfl
        ⟨hTask, hSent delivery rfl⟩ (fun _ _ _ hEq => by cases hEq) rfl rfl rfl
  · intro error
    cases error with
    | unavailable => trivial
    | taskNotFound => trivial

/-- A flush, from any point of its loop on. -/
theorem spec_flushLoop (fuel : Nat) (stamped : Option Delivery) :
    Co.Spec protocol me (fun s => ∀ delivery ∈ stamped, SentBy me delivery s.trail)
      (flushLoop me fuel stamped) fun _ _ => True := by
  induction fuel generalizing stamped with
  | zero =>
      exact Co.triple_blockUntil ((kept_sentBy me stamped).stable me)
        fun _ _ _ hReady => absurd hReady (by simp)
  | succ fuel ih =>
      unfold flushLoop
      refine Co.Triple.bind
        (B := fun next s => ∀ delivery task, next = some (delivery, task) →
          delivery.taskId = some task ∧ SentBy me delivery s.trail)
        (Co.triple_atomic ((kept_sentBy me stamped).stable me) ?_) ?_
      · intro s hBooks hSent
        exact Runner.resumeFlush_spec me stamped hBooks hSent
      · intro next
        cases next with
        | none => exact Co.triple_done fun _ _ _ => trivial
        | some next =>
            obtain ⟨delivery, task⟩ := next
            intro s hBooks hNext
            obtain ⟨hTask, hSent⟩ := hNext delivery task rfl
            refine (((atoms_stamp hTask).spec (kept_sentBy me (some delivery))).bind
              fun _ => ih (some delivery)) s hBooks ?_
            rintro sent hMem
            cases hMem
            exact hSent

theorem atomOk_release :
    Co.AtomOk protocol me (fun _ => True) (fun _ => true) (releaseFlushLock me) := by
  refine atomOk_aside ?_ ?_ ?_
  all_goals
    intro s
    unfold releaseFlushLock
    split <;> rfl

theorem spec_flushDeliveries (fuel : Nat) :
    Co.Spec protocol me (fun _ => True) (flushDeliveries me fuel) fun _ _ => True := by
  have hLock : Co.Atoms protocol me (fun _ => True) (acquireFlushLock me) :=
    Co.atoms_blockUntil (atomOk_aside (fun _ => rfl) (fun _ => rfl) fun _ => rfl)
  refine (hLock.spec (Protocol.Kept.true _)).bind fun _ => ?_
  refine Co.Triple.ensure (fun _ => (Protocol.Kept.true _).stable me) ?_
    ((spec_flushLoop fuel none).pre fun _ _ _ delivery hMem => by cases hMem)
  intro s hBooks
  obtain ⟨hBooks', hGrows⟩ := atomOk_release s hBooks trivial rfl
  exact ⟨hBooks', hGrows, fun _ _ => trivial⟩

theorem atomOk_enqueue (events : List LoopEvent) (taskId : Option TaskId)
    (exchangeId : Option ExchangeId) (front : Bool) :
    Co.AtomOk protocol me (fun _ => True) (fun _ => true)
      (Runner.enqueue events taskId exchangeId front) :=
  fun _ hBooks _ _ => ⟨hBooks.enqueue events taskId exchangeId front, List.prefix_append _ _⟩

/-! ### The entry points -/

/-- A coroutine that relies on nothing and ends anywhere. -/
abbrev Orderly (me : Nat) (c : Work Unit) : Prop :=
  Co.Spec protocol me (fun _ => True) c fun _ _ => True

theorem orderly_of_atoms {c : Work Unit} (hAtoms : Co.Atoms protocol me (fun _ => True) c) :
    Orderly me c :=
  hAtoms.spec (Protocol.Kept.true _)

theorem orderly_enqueue (events : List LoopEvent) (taskId : Option TaskId)
    (exchangeId : Option ExchangeId) (front : Bool) :
    Orderly me (Co.modify (Runner.enqueue events taskId exchangeId front)) :=
  orderly_of_atoms (Co.atoms_modify (atomOk_enqueue events taskId exchangeId front))

theorem orderly_deliverNotice (fuel : Nat) (content : String) (exchangeId : Option ExchangeId) :
    Orderly me (deliverNotice me fuel content exchangeId) := by
  have hPersist : Co.Spec protocol me (fun _ => True) persistNotice fun _ _ => True := by
    refine (Co.atoms_attempt (atomOk_aside ?_ ?_ ?_)).spec (Protocol.Kept.true _)
    all_goals
      intro s
      split <;> rfl
  exact hPersist.bind fun _ =>
    (orderly_enqueue _ _ _ _).bind fun _ => spec_flushDeliveries fuel

theorem orderly_refuseRestart (fuel : Nat) (task : TaskId) (error : String) :
    Orderly me (refuseRestart me fuel task error) := by
  have hFailed : Orderly me (markFailed task error) := by
    refine orderly_of_atoms (Co.atoms_attempt (atomOk_aside ?_ ?_ ?_))
    all_goals
      intro s
      split
      · rfl
      · split <;> rfl
  exact hFailed.bind fun _ => (orderly_enqueue _ _ _ _).bind fun _ => spec_flushDeliveries fuel

/-- A stamp of a task that was watched while it streamed is not the outbox's. -/
theorem orderly_markStreamedDelivered (task : TaskId) (row : TaskRow) :
    Orderly me (markStreamedDelivered task row) := by
  unfold markStreamedDelivered
  split
  · exact Co.triple_done fun _ _ _ => trivial
  split
  · refine orderly_of_atoms (Co.Atoms.tryCatch (Co.atoms_attempt (atomOk_aside ?_ ?_ ?_)) ?_)
    · intro s
      split
      · rfl
      · split <;> rfl
    · intro s
      split
      · rfl
      · split
        · rfl
        · exact List.append_nil _
    · intro s
      split
      · rfl
      · split <;> rfl
    · intro error
      cases error with
      | unavailable => trivial
      | taskNotFound => trivial
  · exact Co.triple_done fun _ _ _ => trivial

theorem orderly_enqueueRedelivery (task : TaskId) (row : TaskRow) :
    Orderly me (Co.modify (enqueueRedelivery task row)) := by
  refine orderly_of_atoms (Co.atoms_modify ?_)
  intro s hBooks _ _
  unfold enqueueRedelivery
  split
  · exact ⟨hBooks, Runner.Grows.refl s⟩
  split
  · exact atomOk_enqueue _ _ _ _ s hBooks trivial rfl
  · exact atomOk_enqueue _ _ _ _ s hBooks trivial rfl
  · exact ⟨hBooks, Runner.Grows.refl s⟩

theorem orderly_enqueueTerminal (task : TaskId) (row : TaskRow) (terminal : Terminal) :
    Orderly me (Co.modify (enqueueTerminal task row terminal)) := by
  cases terminal with
  | finished message source => exact orderly_enqueue _ _ _ _
  | failed error => exact orderly_enqueue _ _ _ _

theorem orderly_recordOutcome (command : Terminated) (row : TaskRow) :
    Orderly me (recordOutcome command row) := by
  unfold recordOutcome
  split
  · exact orderly_markStreamedDelivered _ _
  split
  · exact orderly_enqueueRedelivery _ _
  split
  · exact orderly_markStreamedDelivered _ _
  · exact orderly_enqueueTerminal _ _ _

theorem orderly_deliverTerminated (fuel : Nat) (command : Terminated) :
    Orderly me (deliverTerminated me fuel command) := by
  have hRow : Co.Spec protocol me (fun _ => True) (terminatedRow command) fun _ _ => True := by
    unfold terminatedRow
    split
    · exact Co.triple_done fun _ _ _ => trivial
    · refine (Co.atoms_attempt (atomOk_aside ?_ ?_ ?_)).spec (Protocol.Kept.true _)
      all_goals
        intro s
        split <;> rfl
  refine hRow.bind fun row => ?_
  cases row with
  | none => exact Co.triple_done fun _ _ _ => trivial
  | some row =>
      exact (orderly_recordOutcome command row).bind fun _ => spec_flushDeliveries fuel

theorem outbox_follows : outbox.Follows protocol where
  body_safe call me s hBooks := by
    have hOrderly : Orderly me (outboxBody call me) := by
      cases call with
      | flush fuel => exact spec_flushDeliveries fuel
      | deliverNotice fuel content exchangeId => exact orderly_deliverNotice fuel content exchangeId
      | refuseRestart fuel task error => exact orderly_refuseRestart fuel task error
      | terminated fuel command => exact orderly_deliverTerminated fuel command
    exact (hOrderly s hBooks trivial).mono fun _ _ _ => trivial
  event_env event s s' hBooks hEvent := by
    cases event with
    | queue op =>
        obtain rfl := Option.some.inj hEvent
        exact ⟨hBooks.congr rfl rfl rfl, List.prefix_refl _⟩
    | writeTask task row =>
        obtain rfl := Option.some.inj hEvent
        exact ⟨hBooks.congr rfl rfl rfl, List.prefix_refl _⟩
    | store down =>
        obtain rfl := Option.some.inj hEvent
        exact ⟨hBooks.congr rfl rfl rfl, List.prefix_refl _⟩
  crash_inv s s' _ hCrash := by cases hCrash

end Protocol

/-- An outbox nothing has been put into yet. -/
def Runner.fresh (hub : Hub) (tasks : TaskId → Option TaskRow) : Runner where
  hub := hub
  tasks := tasks

theorem Runner.books_fresh (hub : Hub) (tasks : TaskId → Option TaskRow) :
    (Runner.fresh hub tasks).Books :=
  ⟨Along.nil, List.nodup_nil, List.Perm.refl _, by simp [Runner.queued, Runner.fresh],
    by simp [Runner.fresh]⟩

/-- Whatever is queued, flushed, attached, detached, read and written in whatever
order, the books of the outbox are exact. -/
theorem outbox_exact (hub : Hub) (tasks : TaskId → Option TaskRow) {q : Pool Runner StoreError}
    (hRun : System.Run outbox { st := Runner.fresh hub tasks } q) : q.st.Exact :=
  (hRun.sound outbox_follows
    (System.PoolSafe.initial (Runner.books_fresh hub tasks))).1.exact

/-- A table with one finished task. -/
def reported : TaskId → Option TaskRow :=
  fun task => if task = 7 then some { title := "report", status := .done } else none

/-- One transport is attached.  A background task ends, and while its stamp is
being written a question jumps the queue. -/
def questionJumpsTheQueue : List outbox.Move :=
  List.flatten [[.event (.queue .subscribe), .start (.terminated 9
      { taskId := 7, task := some { title := "report", status := .done, result := some "done" },
        terminal := some (.finished { role := .assistant, content := "done" } none),
        exchangeId := none, deliveredLive := false })],
    List.replicate 3 (.resume 0),
    [.start (.deliverNotice 9 "which?" (some 3))], List.replicate 2 (.resume 1),
    List.replicate 3 (.resume 0)]

/-- The first flush takes out its own delivery and then the question, in that
order, although the question stood before it. -/
theorem outbox_exact_question :
    ∃ q : Pool Runner StoreError,
      System.Run outbox { st := Runner.fresh { dialogId := "d" } reported } q ∧
      (q.st.left.map (·.id), q.st.pendingDeliveries, (q.st.tasks 7).map (·.delivered)) =
        ([0, 1], [], some true) ∧
      q.st.Exact := by
  have hMoves : (System.moves questionJumpsTheQueue
      { st := Runner.fresh { dialogId := "d" } reported }).map (fun q =>
        (q.st.left.map (·.id), q.st.pendingDeliveries, (q.st.tasks 7).map (·.delivered))) =
      some ([0, 1], [], some true) := by
    decide +kernel
  obtain ⟨q, hRun, hSeen⟩ := System.Run.exists_of_moves _ hMoves
  exact ⟨q, hRun, hSeen, outbox_exact _ _ hRun⟩

end Outbox
end OctoForge
