import OctoForge.Ingestion.Poller
import OctoForge.Sequence.Places

/-!
# The order of ingestion

A user the poller knows has one inbox, and the inbox one worker that may be alive: what
has been handled, what the worker has in hand and what is queued make up what has been
enqueued, in this order.  A user the poller has forgotten has had everything handled.
-/

namespace OctoForge
namespace Ingestion

/-! ## What a worker does between two awaits -/

/-- What a worker has taken out of the inbox and not passed to `_handle`. -/
def Stage.inHand : Stage → List TelegramMessage
  | .collecting _ _ batch => batch
  | _ => []

/-- What is collected is of one group. -/
def Stage.Fits : Stage → Prop
  | .collecting _ first batch =>
      ∃ group, first.mediaGroupId = some group ∧
        ∀ message ∈ batch, message.mediaGroupId = some group
  | _ => True

/-- Where a worker that held `held` has come to, nothing is lost and nothing is out of
order. -/
structure Segment.Carries (held : List TelegramMessage) (worker : Option Nat)
    (segment : Segment) : Prop where
  accounts : segment.batches.flatten ++ (segment.stage.inHand ++ segment.box.pending) = held
  albums : ∀ batch ∈ segment.batches, 1 < batch.length → IsAlbum batch
  fits : segment.stage.Fits
  worker : segment.box.worker = worker
  goesOn : segment.stage ≠ .ended

theorem carries_collectAlbum {deadline : Nat} {first : TelegramMessage} (box : Inbox)
    {group : String} (hFirst : first.mediaGroupId = some group) (pending : List TelegramMessage)
    (batch : List TelegramMessage) (hBatch : ∀ message ∈ batch, message.mediaGroupId = some group) :
    (collectAlbum deadline first box batch pending).Carries (batch ++ pending) box.worker := by
  induction pending generalizing batch with
  | nil =>
      rw [collectAlbum]
      exact ⟨rfl, fun _ hMem => by simp at hMem, ⟨group, hFirst, hBatch⟩, rfl, by simp⟩
  | cons message rest ih =>
      rw [collectAlbum]
      split
      · refine ⟨by simp [Stage.inHand], fun album hMem _ => ?_, trivial, rfl, by simp⟩
        obtain rfl := List.mem_singleton.mp hMem
        exact ⟨group, hBatch⟩
      · rename_i hSame
        rw [ne_eq, not_not] at hSame
        have hRest := ih (batch ++ [message]) fun other hMem => by
          rcases List.mem_append.mp hMem with hOld | hNew
          · exact hBatch other hOld
          · obtain rfl := List.mem_singleton.mp hNew
            exact hSame.trans hFirst
        rwa [List.append_assoc, List.singleton_append] at hRest

section Segments

variable (s : Poller)

theorem carries_takeUp (message : TelegramMessage) (box : Inbox) :
    (s.takeUp message box).Carries (message :: box.pending) box.worker := by
  unfold Poller.takeUp
  dsimp only
  split
  · refine ⟨rfl, fun batch hMem hLong => ?_, trivial, rfl, by simp⟩
    obtain rfl := List.mem_singleton.mp hMem
    simp at hLong
  · rename_i hGroup
    obtain ⟨group, hGroup⟩ := Option.ne_none_iff_exists'.mp hGroup
    refine carries_collectAlbum { box with busy := true } hGroup box.pending [message]
      fun other hMem => ?_
    rw [List.mem_singleton.mp hMem]
    exact hGroup

theorem carries_work (box : Inbox) : (s.work box).Carries box.pending box.worker := by
  unfold Poller.work
  split
  · rename_i hNone
    exact ⟨by simp [Stage.inHand], fun _ hMem => by simp at hMem, trivial, rfl, by simp⟩
  · rename_i message rest hSome
    rw [hSome]
    exact carries_takeUp s message { box with pending := rest }

theorem carries_goOnCollecting {first : TelegramMessage} {batch : List TelegramMessage} (box : Inbox)
    {deadline : Nat} (hFits : (Stage.collecting deadline first batch).Fits) :
    (s.goOnCollecting first batch box).Carries (batch ++ box.pending) box.worker := by
  obtain ⟨group, hFirst, hBatch⟩ := hFits
  unfold Poller.goOnCollecting
  split
  · rename_i hNone
    refine ⟨by simp [Stage.inHand], fun album hMem _ => ?_, trivial, rfl, by simp⟩
    obtain rfl := List.mem_singleton.mp hMem
    exact ⟨group, hBatch⟩
  · rename_i message rest hSome
    rw [hSome]
    exact carries_collectAlbum box hFirst (message :: rest) batch hBatch

end Segments

/-! ## The invariant -/

/-- The user's inbox, the worker it names, and what they make up. -/
structure Owned (s : Poller) (userId : UserId) (b : Nat) (box : Inbox) (k : Nat) (w : Worker) :
    Prop where
  hasBox : s.boxes[b]? = some box
  named : box.worker = some k
  hasWorker : s.workers[k]? = some w
  user : w.userId = userId
  place : w.inbox = b
  accounts : (s.handled userId).flatten ++ (w.stage.inHand ++ box.pending) = s.arrivals userId

structure Inv (s : Poller) : Prop where
  known : ∀ (userId : UserId) (b : Nat), s.inboxes userId = some b → ∃ box k w, Owned s userId b box k w
  forgotten : ∀ userId : UserId, s.inboxes userId = none → (s.handled userId).flatten = s.arrivals userId
  live : ∀ (k : Nat) (w : Worker), s.workers[k]? = some w → w.stage ≠ .ended →
    s.inboxes w.userId = some w.inbox ∧
      ∃ box : Inbox, s.boxes[w.inbox]? = some box ∧ box.worker = some k
  fits : ∀ (k : Nat) (w : Worker), s.workers[k]? = some w → w.stage.Fits
  albums : ∀ userId : UserId, ∀ batch ∈ s.handled userId, 1 < batch.length → IsAlbum batch

section Inv

variable {s : Poller} {userId : UserId} {b k : Nat} {box : Inbox} {w : Worker}

/-- Everything about a worker that is alive. -/
theorem Inv.owned (hInv : Inv s) (hWorker : s.workers[k]? = some w) (hLive : w.stage ≠ .ended) :
    s.inboxes w.userId = some w.inbox ∧ Owned s w.userId w.inbox (s.boxOf w) k w := by
  obtain ⟨hInbox, box, hBox, hNamed⟩ := hInv.live k w hWorker hLive
  obtain ⟨box', k', w', hOwned⟩ := hInv.known w.userId w.inbox hInbox
  obtain rfl := Option.some.inj (hBox.symm.trans hOwned.hasBox)
  obtain rfl := Option.some.inj (hNamed.symm.trans hOwned.named)
  obtain rfl := Option.some.inj (hWorker.symm.trans hOwned.hasWorker)
  have hBoxOf : s.boxOf w = box := by simp [Poller.boxOf, List.getD_eq_getElem?_getD, hBox]
  exact ⟨hInbox, hBoxOf ▸ hOwned⟩

theorem Inv.oneWorker (hInv : Inv s) {k' : Nat} (hLive : s.Live userId k)
    (hLive' : s.Live userId k') : k = k' := by
  obtain ⟨w, hWorker, hUser, hStage⟩ := hLive
  obtain ⟨w', hWorker', hUser', hStage'⟩ := hLive'
  obtain ⟨hInbox, hOwned⟩ := hInv.owned hWorker hStage
  obtain ⟨hInbox', hOwned'⟩ := hInv.owned hWorker' hStage'
  rw [hUser] at hInbox
  rw [hUser', hInbox] at hInbox'
  have hBox := hOwned.hasBox
  rw [Option.some.inj hInbox', hOwned'.hasBox] at hBox
  have hNamed := hOwned'.named
  rw [Option.some.inj hBox, hOwned.named] at hNamed
  exact Option.some.inj hNamed

/-- Two users have different inboxes and different workers. -/
theorem Owned.separate {userId' : UserId} {b' k' : Nat} {box' : Inbox} {w' : Worker}
    (hOwned : Owned s userId b box k w) (hOwned' : Owned s userId' b' box' k' w')
    (hUsers : userId ≠ userId') : b ≠ b' ∧ k ≠ k' := by
  have hWorkers : k ≠ k' := by
    rintro rfl
    obtain rfl := Option.some.inj (hOwned.hasWorker.symm.trans hOwned'.hasWorker)
    exact hUsers (hOwned.user.symm.trans hOwned'.user)
  refine ⟨?_, hWorkers⟩
  rintro rfl
  obtain rfl := Option.some.inj (hOwned.hasBox.symm.trans hOwned'.hasBox)
  exact hWorkers (Option.some.inj (hOwned.named.symm.trans hOwned'.named))

end Inv

/-! ## A worker goes on -/

section Owner

variable {s s' : Poller} {userId : UserId} {b k : Nat} {box : Inbox} {w : Worker}

/-- The others do not notice what happens to other inboxes and to other workers. -/
theorem Owned.frame (hOwned : Owned s userId b box k w) (hBox : s'.boxes[b]? = s.boxes[b]?)
    (hWorker : s'.workers[k]? = s.workers[k]?) (hHandled : s'.handled userId = s.handled userId)
    (hArrivals : s'.arrivals userId = s.arrivals userId) : Owned s' userId b box k w := by
  refine ⟨hBox.trans hOwned.hasBox, hOwned.named, hWorker.trans hOwned.hasWorker, hOwned.user,
    hOwned.place, ?_⟩
  rw [hHandled, hArrivals]
  exact hOwned.accounts

/-- After a step for one user: the user's inbox and worker are in order, and the others
have not noticed. -/
theorem inv_of_owner (userId : UserId) (hInv : Inv s) (hOwned : Owned s' userId b box k w)
    (hInboxes : ∀ other, s'.inboxes other = if other = userId then some b else s.inboxes other)
    (hOthers : ∀ other, other ≠ userId → ∀ b' box' k' w', Owned s other b' box' k' w' →
      Owned s' other b' box' k' w')
    (hBooks : ∀ other, other ≠ userId →
      s'.handled other = s.handled other ∧ s'.arrivals other = s.arrivals other)
    (hWorkers : ∀ (k' : Nat) (w' : Worker), s'.workers[k']? = some w' → w'.stage ≠ .ended →
      (w'.userId = userId → k' = k) ∧ (w'.userId ≠ userId → s.workers[k']? = some w'))
    (hFits : ∀ (k' : Nat) (w' : Worker), s'.workers[k']? = some w' → w'.stage.Fits)
    (hAlbums : ∀ batch ∈ s'.handled userId, 1 < batch.length → IsAlbum batch) : Inv s' := by
  refine ⟨fun other b' hKnown => ?_, fun other hNone => ?_, fun k' w' hWorker' hLive' => ?_, hFits,
    fun other batch hMem hLong => ?_⟩
  · rw [hInboxes] at hKnown
    split at hKnown
    · rename_i hUser
      obtain rfl := Option.some.inj hKnown
      exact hUser ▸ ⟨box, k, w, hOwned⟩
    · rename_i hUser
      obtain ⟨box', k', w', hOwned'⟩ := hInv.known other b' hKnown
      exact ⟨box', k', w', hOthers other hUser b' box' k' w' hOwned'⟩
  · rw [hInboxes] at hNone
    split at hNone
    · cases hNone
    · rename_i hUser
      obtain ⟨hHandled, hArrivals⟩ := hBooks other hUser
      rw [hHandled, hArrivals]
      exact hInv.forgotten other hNone
  · obtain ⟨hMine, hOther⟩ := hWorkers k' w' hWorker' hLive'
    by_cases hUser : w'.userId = userId
    · -- The user has one live worker.
      obtain rfl := hMine hUser
      obtain rfl := Option.some.inj (hOwned.hasWorker.symm.trans hWorker')
      rw [hInboxes, if_pos hUser, hOwned.place]
      exact ⟨rfl, box, hOwned.hasBox, hOwned.named⟩
    · obtain ⟨hInbox', hOwned'⟩ := hInv.owned (hOther hUser) hLive'
      have hKept := hOthers w'.userId hUser _ _ _ _ hOwned'
      rw [hInboxes, if_neg hUser]
      exact ⟨hInbox', s.boxOf w', hKept.hasBox, hKept.named⟩
  · by_cases hUser : other = userId
    · subst hUser
      exact hAlbums batch hMem hLong
    · rw [(hBooks other hUser).1] at hMem
      exact hInv.albums other batch hMem hLong

end Owner

section Settle

variable {s : Poller} {k : Nat} {w : Worker} {segment : Segment}

theorem getElem?_set_worker (hWorker : s.workers[k]? = some w) (w' : Worker) (k' : Nat) :
    (s.workers.set k w')[k']? = if k = k' then some w' else s.workers[k']? := by
  obtain ⟨hBound, -⟩ := List.getElem?_eq_some_iff.mp hWorker
  simp [List.getElem?_set, hBound]

theorem getElem?_set_box {b : Nat} {box : Inbox} (hBox : s.boxes[b]? = some box) (box' : Inbox)
    (b' : Nat) : (s.boxes.set b box')[b']? = if b = b' then some box' else s.boxes[b']? := by
  obtain ⟨hBound, -⟩ := List.getElem?_eq_some_iff.mp hBox
  simp [List.getElem?_set, hBound]

/-- A step of the user's worker keeps the accounts of the user, and of the others. -/
theorem inv_settle (hInv : Inv s) (hWorker : s.workers[k]? = some w) (hLive : w.stage ≠ .ended)
    (hAccounts : segment.batches.flatten ++ (segment.stage.inHand ++ segment.box.pending) =
      w.stage.inHand ++ (s.boxOf w).pending)
    (hAlbums : ∀ batch ∈ segment.batches, 1 < batch.length → IsAlbum batch)
    (hFits : segment.stage.Fits) (hNamed : segment.box.worker = (s.boxOf w).worker) :
    Inv (s.settle k w segment) := by
  obtain ⟨hInbox, hOwned⟩ := hInv.owned hWorker hLive
  have hHandled : (s.settle k w segment).handled w.userId =
      s.handled w.userId ++ segment.batches := if_pos rfl
  have hBooks : ∀ other, other ≠ w.userId →
      (s.settle k w segment).handled other = s.handled other ∧
        (s.settle k w segment).arrivals other = s.arrivals other :=
    fun other hUser => ⟨if_neg hUser, rfl⟩
  refine inv_of_owner w.userId hInv (w := { w with stage := segment.stage })
    ⟨?_, hNamed.trans hOwned.named, ?_, rfl, rfl, ?_⟩ (fun other => ?_)
    (fun other hUser b' box' k' w' hOwned' => ?_) hBooks (fun k' w' hWorker' hLive' => ?_)
    (fun k' w' hWorker' => ?_) (fun batch hMem hLong => ?_)
  · exact (getElem?_set_box hOwned.hasBox segment.box w.inbox).trans (if_pos rfl)
  · exact (getElem?_set_worker hWorker _ k).trans (if_pos rfl)
  -- What leaves the hand and the inbox has been handled, in this order.
  · rw [hHandled, List.flatten_append, List.append_assoc, hAccounts]
    exact hOwned.accounts
  · split
    · rename_i hUser
      exact hUser ▸ hInbox
    · rfl
  · -- No two users share an inbox or a worker.
    obtain ⟨hBoxes, hWorkers⟩ := hOwned.separate hOwned' (Ne.symm hUser)
    exact hOwned'.frame ((getElem?_set_box hOwned.hasBox _ b').trans (if_neg hBoxes))
      ((getElem?_set_worker hWorker _ k').trans (if_neg hWorkers)) (hBooks other hUser).1 rfl
  · replace hWorker' := (getElem?_set_worker hWorker _ k').symm.trans hWorker'
    split at hWorker'
    · rename_i hSame
      obtain rfl := Option.some.inj hWorker'
      exact ⟨fun _ => hSame.symm, fun hUser => absurd rfl hUser⟩
    · exact ⟨fun hUser => hInv.oneWorker ⟨w', hWorker', hUser, hLive'⟩ ⟨w, hWorker, rfl, hLive⟩,
        fun _ => hWorker'⟩
  · replace hWorker' := (getElem?_set_worker hWorker _ k').symm.trans hWorker'
    split at hWorker'
    · obtain rfl := Option.some.inj hWorker'
      exact hFits
    · exact hInv.fits k' w' hWorker'
  · rw [hHandled] at hMem
    rcases List.mem_append.mp hMem with hOld | hNew
    · exact hInv.albums w.userId batch hOld hLong
    · exact hAlbums batch hNew hLong

theorem Segment.Carries.inv (hInv : Inv s) (hWorker : s.workers[k]? = some w)
    (hLive : w.stage ≠ .ended)
    (hCarries : segment.Carries (w.stage.inHand ++ (s.boxOf w).pending) (s.boxOf w).worker) :
    Inv (s.settle k w segment) :=
  inv_settle hInv hWorker hLive hCarries.accounts hCarries.albums hCarries.fits hCarries.worker

theorem inv_exit {deadline : Nat} (hInv : Inv s) (hWorker : s.workers[k]? = some w)
    (hIdle : w.stage = .idle deadline) (hNone : (s.boxOf w).pending = []) : Inv (s.exit k w) := by
  obtain ⟨hInbox, hOwned⟩ := hInv.owned hWorker (by simp [hIdle])
  -- An inbox that is still known is another user's.
  have hUnknown : ∀ userId b, (s.exit k w).inboxes userId = some b →
      w.userId ≠ userId ∧ s.inboxes userId = some b := by
    intro userId b hKnown
    simp only [Poller.exit] at hKnown
    split at hKnown
    · cases hKnown
    · rename_i hUser
      exact ⟨Ne.symm hUser, hKnown⟩
  refine ⟨fun userId b hKnown => ?_, fun userId hForgotten => ?_, fun k' w' hWorker' hLive' => ?_,
    fun k' w' hWorker' => ?_, hInv.albums⟩
  · obtain ⟨hUser, hKnown'⟩ := hUnknown userId b hKnown
    obtain ⟨box', k', w', hOwned'⟩ := hInv.known userId b hKnown'
    obtain ⟨hBoxes, hWorkers⟩ := hOwned.separate hOwned' hUser
    exact ⟨box', k', w', (getElem?_set_box hOwned.hasBox _ b).trans
        ((if_neg hBoxes).trans hOwned'.hasBox), hOwned'.named,
      (getElem?_set_worker hWorker _ k').trans ((if_neg hWorkers).trans hOwned'.hasWorker),
      hOwned'.user, hOwned'.place, hOwned'.accounts⟩
  · simp only [Poller.exit] at hForgotten
    split at hForgotten
    · rename_i hUser
      -- The worker leaves with nothing in its hand and nothing in its inbox.
      have hAccounts := hOwned.accounts
      rw [hIdle, hNone] at hAccounts
      show (s.handled userId).flatten = s.arrivals userId
      rw [hUser]
      simpa [Stage.inHand] using hAccounts
    · exact hInv.forgotten userId hForgotten
  · replace hWorker' := (getElem?_set_worker hWorker _ k').symm.trans hWorker'
    split at hWorker'
    · obtain rfl := Option.some.inj hWorker'
      exact absurd rfl hLive'
    · rename_i hOther
      obtain ⟨hInbox', hOwned'⟩ := hInv.owned hWorker' hLive'
      have hUser : w.userId ≠ w'.userId := fun hSame =>
        hOther (hInv.oneWorker ⟨w, hWorker, hSame, by simp [hIdle]⟩ ⟨w', hWorker', rfl, hLive'⟩)
      obtain ⟨hBoxes, -⟩ := hOwned.separate hOwned' hUser
      refine ⟨(if_neg hUser.symm).trans hInbox', s.boxOf w', ?_, hOwned'.named⟩
      exact (getElem?_set_box hOwned.hasBox _ w'.inbox).trans ((if_neg hBoxes).trans hOwned'.hasBox)
  · replace hWorker' := (getElem?_set_worker hWorker _ k').symm.trans hWorker'
    split at hWorker'
    · obtain rfl := Option.some.inj hWorker'
      trivial
    · exact hInv.fits k' w' hWorker'

end Settle

/-! ## A message comes -/

section Enqueue

variable {s : Poller} {userId : UserId} {message : TelegramMessage}

theorem isDone_iff {k : Nat} {w : Worker} (hWorker : s.workers[k]? = some w) :
    s.isDone (some k) = true ↔ w.stage = .ended := by
  simp [Poller.isDone, hWorker]

/-- The message has been put into box `b`, and the worker `k` is to see to it. -/
theorem inv_enqueue_of {b k : Nat} {box : Inbox} {w : Worker} (hInv : Inv s)
    (hPlace : (s.inboxes userId).getD s.boxes.length = b)
    (hBox : (s.enqueue userId message).boxes[b]? = some box) (hNamed : box.worker = some k)
    (hWorker : (s.enqueue userId message).workers[k]? = some w) (hUser : w.userId = userId)
    (hInbox : w.inbox = b)
    (hAccounts : (s.handled userId).flatten ++ (w.stage.inHand ++ box.pending) =
      s.arrivals userId ++ [message])
    (hOthers : ∀ other, other ≠ userId → ∀ b' box' k' w', Owned s other b' box' k' w' →
      (s.enqueue userId message).boxes[b']? = s.boxes[b']? ∧
        (s.enqueue userId message).workers[k']? = s.workers[k']?)
    (hWorkers : ∀ (k' : Nat) (w' : Worker), (s.enqueue userId message).workers[k']? = some w' →
      w' = { userId, inbox := b } ∧ k' = k ∨
        s.workers[k']? = some w' ∧ (w'.userId = userId → w'.stage ≠ .ended → k' = k)) :
    Inv (s.enqueue userId message) := by
  have hArrivals : (s.enqueue userId message).arrivals userId = s.arrivals userId ++ [message] :=
    if_pos rfl
  refine inv_of_owner userId hInv ⟨hBox, hNamed, hWorker, hUser, hInbox, hAccounts.trans hArrivals.symm⟩
    (fun other => ?_) (fun other hOther b' box' k' w' hOwned' => ?_)
    (fun other hOther => ⟨rfl, if_neg hOther⟩) (fun k' w' hWorker' hLive' => ?_)
    (fun k' w' hWorker' => ?_) (hInv.albums userId)
  · rw [← hPlace]
    rfl
  · obtain ⟨hBox', hWorker'⟩ := hOthers other hOther b' box' k' w' hOwned'
    exact hOwned'.frame hBox' hWorker' rfl (if_neg hOther)
  · rcases hWorkers k' w' hWorker' with ⟨rfl, hSame⟩ | ⟨hOld, hMine⟩
    · exact ⟨fun _ => hSame, fun hOther => absurd rfl hOther⟩
    · exact ⟨fun hSame => hMine hSame hLive', fun _ => hOld⟩
  · rcases hWorkers k' w' hWorker' with ⟨rfl, -⟩ | ⟨hOld, -⟩
    · trivial
    · exact hInv.fits k' w' hOld

theorem inv_enqueue_unknown (message : TelegramMessage) (hInv : Inv s) (hNone : s.inboxes userId = none) :
    Inv (s.enqueue userId message) ∧ (s.enqueue userId message).Live userId s.workers.length := by
  have hBoxes : (s.enqueue userId message).boxes = s.boxes ++
      [{ pending := [message], arrived := true, worker := some s.workers.length }] := by
    simp [Poller.enqueue, hNone, Poller.isDone]
  have hWorkers : (s.enqueue userId message).workers =
      s.workers ++ [{ userId, inbox := s.boxes.length }] := by
    simp [Poller.enqueue, hNone, Poller.isDone]
  have hNew : (s.enqueue userId message).workers[s.workers.length]? =
      some { userId, inbox := s.boxes.length } := by simp [hWorkers]
  refine ⟨inv_enqueue_of hInv (by simp [hNone]) (by simp [hBoxes]; rfl) rfl hNew rfl rfl ?_
    (fun other _ b' box' k' w' hOwned' => ?_) fun k' w' hWorker' => ?_, _, hNew, rfl, by simp⟩
  · rw [hInv.forgotten userId hNone]
    rfl
  · have hBound := (List.getElem?_eq_some_iff.mp hOwned'.hasBox).1
    have hBound' := (List.getElem?_eq_some_iff.mp hOwned'.hasWorker).1
    rw [hBoxes, hWorkers, List.getElem?_append_left hBound, List.getElem?_append_left hBound']
    exact ⟨rfl, rfl⟩
  · rw [hWorkers] at hWorker'
    rcases Sequence.getElem?_concat_cases hWorker' with hOld | ⟨hLast, hEq⟩
    · refine Or.inr ⟨hOld, fun hUser hLive => ?_⟩
      have hInbox := (hInv.owned hOld hLive).1
      rw [hUser, hNone] at hInbox
      cases hInbox
    · exact Or.inl ⟨hEq, hLast⟩

/-- A worker that has ended is replaced. -/
theorem inv_enqueue_dead (message : TelegramMessage) {b k : Nat} {box : Inbox} {w : Worker}
    (hInv : Inv s) (hKnown : s.inboxes userId = some b)
    (hOwned : Owned s userId b box k w) (hEnded : w.stage = .ended) :
    Inv (s.enqueue userId message) ∧ (s.enqueue userId message).Live userId s.workers.length := by
  have hDone : s.isDone box.worker = true := hOwned.named ▸ (isDone_iff hOwned.hasWorker).mpr hEnded
  have hGet : s.boxes.getD b {} = box := by simp [List.getD_eq_getElem?_getD, hOwned.hasBox]
  have hBoxes : (s.enqueue userId message).boxes = s.boxes.set b
      { box with pending := box.pending ++ [message], arrived := true
                 worker := some s.workers.length } := by
    simp only [Poller.enqueue, hKnown, Option.getD_some, reduceCtorEq, if_false, hGet, hDone, if_true]
  have hWorkers : (s.enqueue userId message).workers = s.workers ++ [{ userId, inbox := b }] := by
    simp only [Poller.enqueue, hKnown, Option.getD_some, reduceCtorEq, if_false, hGet, hDone, if_true]
  have hNew : (s.enqueue userId message).workers[s.workers.length]? =
      some { userId, inbox := b } := by simp [hWorkers]
  refine ⟨inv_enqueue_of hInv (by simp [hKnown])
    (hBoxes ▸ (getElem?_set_box hOwned.hasBox _ b).trans (if_pos rfl)) rfl hNew rfl rfl ?_
    (fun other hOther b' box' k' w' hOwned' => ?_) fun k' w' hWorker' => ?_, _, hNew, rfl, by simp⟩
  · have hAccounts := hOwned.accounts
    rw [hEnded] at hAccounts
    rw [← hAccounts]
    simp [Stage.inHand]
  · have hBound' := (List.getElem?_eq_some_iff.mp hOwned'.hasWorker).1
    have hApart := (hOwned.separate hOwned' (Ne.symm hOther)).1
    rw [hBoxes, hWorkers, getElem?_set_box hOwned.hasBox, if_neg hApart,
      List.getElem?_append_left hBound']
    exact ⟨rfl, rfl⟩
  · rw [hWorkers] at hWorker'
    rcases Sequence.getElem?_concat_cases hWorker' with hOld | ⟨hLast, hEq⟩
    · refine Or.inr ⟨hOld, fun hUser hLive => ?_⟩
      -- whoever is alive for the user is named by the inbox, and that one has ended
      obtain ⟨hInbox, hOwned'⟩ := hInv.owned hOld hLive
      rw [hUser, hKnown] at hInbox
      have hBox := hOwned'.hasBox
      rw [← Option.some.inj hInbox, hOwned.hasBox] at hBox
      have hNamed := hOwned'.named
      rw [← Option.some.inj hBox, hOwned.named] at hNamed
      rw [← Option.some.inj hNamed, hOwned.hasWorker] at hOld
      obtain rfl := Option.some.inj hOld
      exact absurd hEnded hLive
    · exact Or.inl ⟨hEq, hLast⟩

theorem inv_enqueue_alive (message : TelegramMessage) {b k : Nat} {box : Inbox} {w : Worker}
    (hInv : Inv s) (hKnown : s.inboxes userId = some b)
    (hOwned : Owned s userId b box k w) (hLive : w.stage ≠ .ended) :
    Inv (s.enqueue userId message) ∧ (s.enqueue userId message).Live userId k := by
  have hDone : ¬ s.isDone box.worker = true :=
    fun hDone => hLive ((isDone_iff hOwned.hasWorker).mp (hOwned.named ▸ hDone))
  have hGet : s.boxes.getD b {} = box := by simp [List.getD_eq_getElem?_getD, hOwned.hasBox]
  have hBoxes : (s.enqueue userId message).boxes = s.boxes.set b
      { box with pending := box.pending ++ [message], arrived := true } := by
    simp only [Poller.enqueue, hKnown, Option.getD_some, reduceCtorEq, if_false, hGet, if_neg hDone]
  have hWorkers : (s.enqueue userId message).workers = s.workers := by
    simp only [Poller.enqueue, hKnown, Option.getD_some, reduceCtorEq, if_false, hGet, if_neg hDone]
  have hWorker : (s.enqueue userId message).workers[k]? = some w := hWorkers ▸ hOwned.hasWorker
  have hBox : (s.enqueue userId message).boxes[b]? =
      some { box with pending := box.pending ++ [message], arrived := true } :=
    hBoxes ▸ (getElem?_set_box hOwned.hasBox _ b).trans (if_pos rfl)
  refine ⟨inv_enqueue_of hInv (by simp [hKnown]) hBox hOwned.named hWorker hOwned.user
    hOwned.place ?_ (fun other hOther b' box' k' w' hOwned' => ?_) fun k' w' hWorker' => ?_,
    w, hWorker, hOwned.user, hLive⟩
  · rw [← hOwned.accounts]
    simp [List.append_assoc]
  · have hApart := (hOwned.separate hOwned' (Ne.symm hOther)).1
    rw [hBoxes, hWorkers, getElem?_set_box hOwned.hasBox, if_neg hApart]
    exact ⟨rfl, rfl⟩
  · rw [hWorkers] at hWorker'
    exact Or.inr ⟨hWorker', fun hUser hLive' =>
      hInv.oneWorker ⟨w', hWorker', hUser, hLive'⟩ ⟨w, hOwned.hasWorker, hOwned.user, hLive⟩⟩

/-- Nobody stops working because a message comes. -/
theorem Poller.Live.enqueue {other : UserId} {k : Nat} (hLive : s.Live other k) :
    (s.enqueue userId message).Live other k := by
  obtain ⟨w, hWorker, hUser, hStage⟩ := hLive
  have hKept : ∀ (starts : Bool) (w₀ : Worker),
      (if starts then s.workers ++ [w₀] else s.workers)[k]? = some w := by
    intro starts w₀
    cases starts with
    | false => exact hWorker
    | true => exact (List.getElem?_append_left (List.getElem?_eq_some_iff.mp hWorker).1).trans hWorker
  exact ⟨w, hKept _ _, hUser, hStage⟩

/-- A user to whom a message has come has a worker. -/
theorem inv_enqueue (hInv : Inv s) (userId : UserId) (message : TelegramMessage) :
    Inv (s.enqueue userId message) ∧ ∃ k, (s.enqueue userId message).Live userId k := by
  cases hKnown : s.inboxes userId with
  | none =>
      obtain ⟨hInv', hLive⟩ := inv_enqueue_unknown message hInv hKnown
      exact ⟨hInv', _, hLive⟩
  | some b =>
      obtain ⟨box, k, w, hOwned⟩ := hInv.known userId b hKnown
      by_cases hEnded : w.stage = .ended
      · obtain ⟨hInv', hLive⟩ := inv_enqueue_dead message hInv hKnown hOwned hEnded
        exact ⟨hInv', _, hLive⟩
      · obtain ⟨hInv', hLive⟩ := inv_enqueue_alive message hInv hKnown hOwned hEnded
        exact ⟨hInv', _, hLive⟩

end Enqueue

/-! ## Steps -/

/-- A user without a worker has nothing left to be handled. -/
def Tended (s : Poller) (userId : UserId) : Prop :=
  (∀ k, ¬ s.Live userId k) → (s.handled userId).flatten = s.arrivals userId

/-- A step that keeps the invariant, and that leaves no user behind if it is gentle. -/
structure Keeps (gentle : Bool) (s s' : Poller) : Prop where
  inv : Inv s'
  tended : gentle = true → (∀ userId, Tended s userId) → ∀ userId, Tended s' userId

section Steps

variable {s s' : Poller} {k : Nat} {w : Worker}

theorem tended_of_owned {userId : UserId} {b : Nat} {box : Inbox} (hOwned : Owned s userId b box k w)
    (hHand : w.stage.inHand = []) (hNone : box.pending = []) :
    (s.handled userId).flatten = s.arrivals userId := by
  have hAccounts := hOwned.accounts
  rw [hHand, hNone] at hAccounts
  simpa using hAccounts

/-- A step of a worker is no business of the users who are not its own. -/
theorem tended_of_worker {w' : Worker} (hWorker : s.workers[k]? = some w)
    (hWorkers : s'.workers = s.workers.set k w') {userId : UserId} (hOther : userId ≠ w.userId)
    (hHandled : s'.handled userId = s.handled userId)
    (hArrivals : s'.arrivals userId = s.arrivals userId) (hTended : Tended s userId) :
    Tended s' userId := by
  intro hNobody
  rw [hHandled, hArrivals]
  refine hTended fun k' hLive => hNobody k' ?_
  obtain ⟨w₀, hAt, hUser, hStage⟩ := hLive
  refine ⟨w₀, ?_, hUser, hStage⟩
  rw [hWorkers, getElem?_set_worker hWorker, if_neg]
  · exact hAt
  · rintro rfl
    obtain rfl := Option.some.inj (hWorker.symm.trans hAt)
    exact hOther hUser.symm

theorem Segment.Carries.keeps {segment : Segment} (hInv : Inv s) (hWorker : s.workers[k]? = some w)
    (hLive : w.stage ≠ .ended)
    (hCarries : segment.Carries (w.stage.inHand ++ (s.boxOf w).pending) (s.boxOf w).worker)
    (gentle : Bool) : Keeps gentle s (s.settle k w segment) := by
  refine ⟨hCarries.inv hInv hWorker hLive, fun _ hTended userId => ?_⟩
  by_cases hUser : userId = w.userId
  · intro hNobody
    refine absurd ?_ (hNobody k)
    refine ⟨{ w with stage := segment.stage }, ?_, hUser.symm, hCarries.goesOn⟩
    exact (getElem?_set_worker hWorker _ k).trans (if_pos rfl)
  · exact tended_of_worker hWorker rfl hUser (if_neg hUser) rfl (hTended userId)

theorem keeps_exit {deadline : Nat} (hInv : Inv s) (hWorker : s.workers[k]? = some w)
    (hIdle : w.stage = .idle deadline) (hNone : (s.boxOf w).pending = []) (gentle : Bool) :
    Keeps gentle s (s.exit k w) := by
  refine ⟨inv_exit hInv hWorker hIdle hNone, fun _ hTended userId => ?_⟩
  by_cases hUser : userId = w.userId
  · obtain ⟨-, hOwned⟩ := hInv.owned hWorker (by simp [hIdle])
    have hAll := tended_of_owned hOwned (by rw [hIdle]; rfl) hNone
    subst hUser
    exact fun _ => hAll
  · exact tended_of_worker hWorker rfl hUser rfl rfl (hTended userId)

theorem keeps_resume (hInv : Inv s) (hWorker : s.workers[k]? = some w)
    (hStep : s.resume k w = some s') (gentle : Bool) : Keeps gentle s s' := by
  unfold Poller.resume at hStep
  split at hStep
  · rename_i hStage
    obtain rfl := Option.some.inj hStep
    have hCarries := carries_work s (s.boxOf w)
    refine Segment.Carries.keeps hInv hWorker (by simp [hStage]) ?_ gentle
    rw [hStage]
    exact hCarries
  · rename_i deadline hStage
    split at hStep
    · split at hStep
      · rename_i hNone
        obtain rfl := Option.some.inj hStep
        exact keeps_exit hInv hWorker hStage hNone gentle
      · rename_i message rest hSome
        obtain rfl := Option.some.inj hStep
        have hCarries := carries_takeUp s message { s.boxOf w with pending := rest }
        refine Segment.Carries.keeps hInv hWorker (by simp [hStage]) ?_ gentle
        rw [hStage, hSome]
        exact hCarries
    · cases hStep
  · rename_i deadline first batch hStage
    split at hStep
    · obtain rfl := Option.some.inj hStep
      have hFits := hInv.fits k w hWorker
      rw [hStage] at hFits
      have hCarries := carries_goOnCollecting s (s.boxOf w) hFits
      refine Segment.Carries.keeps hInv hWorker (by simp [hStage]) ?_ gentle
      rw [hStage]
      exact hCarries
    · cases hStep
  · cases hStep

theorem keeps_goOn (hInv : Inv s) (hWorker : s.workers[k]? = some w) (hLive : w.stage ≠ .ended)
    (hHand : w.stage.inHand = []) (gentle : Bool) : Keeps gentle s (s.goOn k w) := by
  have hCarries := carries_work s { s.boxOf w with busy := false }
  refine Segment.Carries.keeps hInv hWorker hLive ?_ gentle
  rw [hHand]
  exact hCarries

theorem inv_die (hInv : Inv s) (hWorker : s.workers[k]? = some w) (hRefusing : w.stage = .refusing) :
    Inv (s.die k w) :=
  inv_settle hInv hWorker (by simp [hRefusing]) (by simp [hRefusing, Stage.inHand])
    (fun _ hMem => by simp at hMem) trivial rfl

theorem keeps_die (hInv : Inv s) (hWorker : s.workers[k]? = some w)
    (hRefusing : w.stage = .refusing) : Keeps (s.gentle (.unsaid k)) s (s.die k w) := by
  refine ⟨inv_die hInv hWorker hRefusing, fun hGentle hTended userId => ?_⟩
  by_cases hUser : userId = w.userId
  · obtain ⟨-, hOwned⟩ := hInv.owned hWorker (by simp [hRefusing])
    have hNone : (s.boxOf w).pending = [] := by simpa [Poller.gentle, hWorker] using hGentle
    have hAll := tended_of_owned hOwned (by rw [hRefusing]; rfl) hNone
    intro _
    subst hUser
    simpa [Poller.die, Poller.settle] using hAll
  · exact tended_of_worker hWorker rfl hUser (if_neg hUser) rfl (hTended userId)

theorem stepAt_cases {stage : Stage} {f : Worker → Poller} (hStep : s.stepAt k stage f = some s') :
    ∃ w, s.workers[k]? = some w ∧ w.stage = stage ∧ s' = f w := by
  unfold Poller.stepAt at hStep
  split at hStep
  · rename_i w hWorker
    split at hStep
    · rename_i hStage
      exact ⟨w, hWorker, hStage, (Option.some.inj hStep).symm⟩
    · cases hStep
  · cases hStep

theorem keeps_step (hInv : Inv s) {m : Move} (hStep : s.step m = some s') :
    Keeps (s.gentle m) s s' := by
  cases m with
  | enqueue userId message =>
      obtain rfl := Option.some.inj hStep
      obtain ⟨hInv', k, hLive⟩ := inv_enqueue hInv userId message
      refine ⟨hInv', fun _ hTended other => ?_⟩
      by_cases hUser : other = userId
      · subst hUser
        -- After an arrival the user has a worker.
        exact fun hNobody => absurd hLive (hNobody k)
      · intro hNobody
        show (s.handled other).flatten = if other = userId then _ else s.arrivals other
        rw [if_neg hUser]
        exact hTended other fun k' hLive' => hNobody k' hLive'.enqueue
  | tick elapsed =>
      obtain rfl := Option.some.inj hStep
      refine ⟨⟨fun userId b hKnown => ?_, hInv.forgotten, hInv.live, hInv.fits, hInv.albums⟩,
        fun _ hTended => hTended⟩
      obtain ⟨box, k, w, hOwned⟩ := hInv.known userId b hKnown
      exact ⟨box, k, w, hOwned.frame rfl rfl rfl rfl⟩
  | resume k =>
      simp only [Poller.step] at hStep
      split at hStep
      · rename_i w hWorker
        exact keeps_resume hInv hWorker hStep _
      · cases hStep
  | handled k =>
      obtain ⟨w, hWorker, hStage, rfl⟩ := stepAt_cases hStep
      exact keeps_goOn hInv hWorker (by simp [hStage]) (by rw [hStage]; rfl) _
  | refused k =>
      obtain ⟨w, hWorker, hStage, rfl⟩ := stepAt_cases hStep
      refine Segment.Carries.keeps hInv hWorker (by simp [hStage]) ?_ _
      exact ⟨by simp [hStage, Stage.inHand], fun _ hMem => by simp at hMem, trivial, rfl, by simp⟩
  | said k =>
      obtain ⟨w, hWorker, hStage, rfl⟩ := stepAt_cases hStep
      exact keeps_goOn hInv hWorker (by simp [hStage]) (by rw [hStage]; rfl) _
  | unsaid k =>
      obtain ⟨w, hWorker, hStage, rfl⟩ := stepAt_cases hStep
      exact keeps_die hInv hWorker hStage

end Steps

/-! ## Runs -/

section Runs

variable {s s' : Poller}

theorem orderedFor_iff (hInv : Inv s) (userId : UserId) :
    s.OrderedFor userId ↔ Tended s userId := by
  refine ⟨fun hOrdered => hOrdered.nothingLeft, fun hTended => ?_⟩
  refine ⟨?_, hTended, hInv.albums userId, fun k k' => hInv.oneWorker⟩
  cases hKnown : s.inboxes userId with
  | none => exact hInv.forgotten userId hKnown ▸ List.prefix_rfl
  | some b =>
      obtain ⟨box, k, w, hOwned⟩ := hInv.known userId b hKnown
      exact hOwned.accounts ▸ List.prefix_append _ _

/-- A step after which everybody is tended was gentle. -/
theorem gentle_of_tended (hInv : Inv s) {m : Move} (hStep : s.step m = some s')
    (hTended : ∀ userId, Tended s' userId) : s.gentle m = true := by
  cases m with
  | unsaid k =>
      obtain ⟨w, hWorker, hStage, rfl⟩ := stepAt_cases hStep
      obtain ⟨-, hOwned⟩ := hInv.owned hWorker (by simp [hStage])
      have hNobody : ∀ k', ¬ (s.die k w).Live w.userId k' := by
        rintro k' ⟨w', hWorker', hUser', hLive'⟩
        replace hWorker' := (getElem?_set_worker hWorker _ k').symm.trans hWorker'
        split at hWorker'
        · obtain rfl := Option.some.inj hWorker'
          exact hLive' rfl
        · rename_i hOther
          exact hOther (hInv.oneWorker ⟨w, hWorker, rfl, by simp [hStage]⟩
            ⟨w', hWorker', hUser', hLive'⟩)
      have hAll : (s.handled w.userId).flatten = s.arrivals w.userId := by
        simpa [Poller.die, Poller.settle] using hTended w.userId hNobody
      have hAccounts := hOwned.accounts
      rw [hAll, hStage] at hAccounts
      have hNone : (s.boxOf w).pending = [] := by simpa [Stage.inHand] using hAccounts
      simp [Poller.gentle, hWorker, hNone]
  | _ => rfl

theorem prefix_cons_iff {α : Type} {before rest : List α} {m : α} :
    before <+: m :: rest ↔ before = [] ∨ ∃ before', before = m :: before' ∧ before' <+: rest := by
  cases before with
  | nil => simp
  | cons m' before' =>
      rw [List.cons_prefix_cons]
      constructor
      · rintro ⟨rfl, hPrefix⟩
        exact Or.inr ⟨before', rfl, hPrefix⟩
      · rintro (hNil | ⟨before'', hEq, hPrefix⟩)
        · cases hNil
        · obtain ⟨rfl, rfl⟩ := List.cons.inj hEq
          exact ⟨rfl, hPrefix⟩

theorem tended_iff_gentleRun (moves : List Move) (hInv : Inv s) (hTended : ∀ userId, Tended s userId) :
    (∀ before, before <+: moves → ∀ s', Poller.run before s = some s' →
      ∀ userId, s'.OrderedFor userId) ↔ Poller.gentleRun moves s = true := by
  have hNow : ∀ userId, s.OrderedFor userId :=
    fun userId => (orderedFor_iff hInv userId).mpr (hTended userId)
  induction moves generalizing s with
  | nil =>
      refine ⟨fun _ => rfl, fun _ before hPrefix s' hRun => ?_⟩
      obtain rfl := List.prefix_nil.mp hPrefix
      obtain rfl := Option.some.inj hRun
      exact hNow
  | cons m rest ih =>
      rw [Poller.gentleRun]
      split
      · rename_i s₁ hStep
        have hKeeps := keeps_step hInv hStep
        rw [Bool.and_eq_true]
        -- Behind a gentle move the rest of the run is judged as a run of its own.
        have hAfter : s.gentle m = true →
            ((∀ before, before <+: rest → ∀ s', Poller.run before s₁ = some s' →
              ∀ userId, s'.OrderedFor userId) ↔ Poller.gentleRun rest s₁ = true) := by
          intro hGentle
          have hTended₁ := hKeeps.tended hGentle hTended
          exact ih hKeeps.inv hTended₁ fun userId =>
            (orderedFor_iff hKeeps.inv userId).mpr (hTended₁ userId)
        constructor
        · intro hAlways
          -- The prefix of the one move shows that the move is gentle.
          have hOrdered : ∀ userId, s₁.OrderedFor userId := by
            refine hAlways [m] (List.prefix_append [m] rest) s₁ ?_
            simp [Poller.run, hStep]
          have hGentle := gentle_of_tended hInv hStep fun userId =>
            (orderedFor_iff hKeeps.inv userId).mp (hOrdered userId)
          refine ⟨hGentle, (hAfter hGentle).mp fun before hPrefix s' hRun => ?_⟩
          refine hAlways (m :: before) (List.cons_prefix_cons.mpr ⟨rfl, hPrefix⟩) s' ?_
          simpa [Poller.run, hStep] using hRun
        · rintro ⟨hGentle, hRest⟩ before hPrefix s' hRun
          rcases prefix_cons_iff.mp hPrefix with rfl | ⟨before', rfl, hPrefix'⟩
          · obtain rfl := Option.some.inj hRun
            exact hNow
          · refine (hAfter hGentle).mpr hRest before' hPrefix' s' ?_
            simpa [Poller.run, hStep] using hRun
      · rename_i hStuck
        refine ⟨fun _ => rfl, fun _ before hPrefix s' hRun => ?_⟩
        rcases prefix_cons_iff.mp hPrefix with rfl | ⟨before', rfl, -⟩
        · obtain rfl := Option.some.inj hRun
          exact hNow
        · simp [Poller.run, hStuck] at hRun

theorem inv_initial (albumQuiet : Nat) : Inv { albumQuiet } :=
  ⟨fun _ _ hKnown => by simp at hKnown, fun _ _ => rfl, fun _ _ hWorker => by simp at hWorker,
    fun _ _ hWorker => by simp at hWorker, fun _ _ hMem => by simp at hMem⟩

/-- The users are served in order at every moment of exactly those runs in which a worker
is not ended by a refusal it cannot say while messages are queued. -/
theorem ingested_in_order (albumQuiet : Nat) (moves : List Move) :
    (∀ before, before <+: moves → ∀ s, Poller.run before { albumQuiet } = some s →
      ∀ userId, s.OrderedFor userId) ↔ Poller.gentleRun moves { albumQuiet } = true :=
  tended_iff_gentleRun moves (inv_initial albumQuiet) fun _ _ => rfl

/-- The service refuses the user, and the notice of it cannot be sent. -/
def refusal : List Move :=
  [.enqueue "tg:1" { messageId := 1 }, .enqueue "tg:1" { messageId := 2 }, .resume 0, .refused 0,
    .unsaid 0]

/-- The second message is left without a worker. -/
theorem left_unhandled :
    ∃ s, Poller.run refusal {} = some s ∧ ¬ s.OrderedFor "tg:1" := by
  have hRuns : (Poller.run refusal {}).map (fun s => (s.workers, s.handled "tg:1", s.arrivals "tg:1")) =
      some ([{ userId := "tg:1", inbox := 0, stage := .ended }], [[{ messageId := 1 }]],
        [{ messageId := 1 }, { messageId := 2 }]) := by
    decide +kernel
  obtain ⟨s, hRun, hEnd⟩ := Option.map_eq_some_iff.mp hRuns
  simp only [Prod.mk.injEq] at hEnd
  obtain ⟨hWorkers, hHandled, hArrivals⟩ := hEnd
  refine ⟨s, hRun, fun hOrdered => ?_⟩
  have hNobody : ∀ k, ¬ s.Live "tg:1" k := by
    rintro k ⟨w, hWorker, -, hLive⟩
    rw [hWorkers] at hWorker
    have hMem := List.mem_singleton.mp (List.mem_of_getElem? hWorker)
    exact hLive (hMem ▸ rfl)
  have hAll := hOrdered.nothingLeft hNobody
  rw [hHandled, hArrivals] at hAll
  exact absurd hAll (by decide)

end Runs

end Ingestion
end OctoForge
