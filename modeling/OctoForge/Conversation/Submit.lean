import OctoForge.Conversation.Coroutines

/-!
# What becomes of a message

`_handle_submit` beside everything that may happen while the actor is busy with
it: the user presses stop, stops go on closing parked exchanges, runs ask,
write their end and leave, background runs start, the budget and the clock
move, another process claims the dialog.

When the handling ends, somebody should owe the message an answer, or the user
should have been told that nobody does.  `_ensure_owner` asks whether the
exchange has a live run and takes any run it finds, also one that has been told
to stop and is only unwinding.  And a refused run whose notice already went out
today leaves nothing behind but the exchange, which is picked up again only
while it is OPEN.  `message_accounted_for` says that these are the only two ways
in which a message is lost.
-/

namespace OctoForge
namespace Conversation

open Coop
open Co (Atoms Spec Steps Triple Ends)
open Dialog (ExchangeId MessageId ChatMessage MessageRole MessageKind)

namespace World

theorem hasLiveTask_iff (s : World) (x : ExchangeId) :
    s.hasLiveTask x = true ↔ ∃ id task, id < s.nextTask ∧ s.task id = some task ∧
      task.exchangeId = some x ∧ task.status.isActive = true := by
  simp only [hasLiveTask, allTasks, List.any_eq_true, List.mem_filterMap, List.mem_range,
    Bool.and_eq_true, decide_eq_true_eq]
  constructor
  · rintro ⟨task, ⟨id, hBound, hTask⟩, hOwn, hActive⟩
    exact ⟨id, task, hBound, hTask, hOwn, hActive⟩
  · rintro ⟨id, task, hBound, hTask, hOwn, hActive⟩
    exact ⟨task, ⟨id, hBound, hTask⟩, hOwn, hActive⟩

end World

/-! ## The surroundings of a handling -/

/-- What may happen while the actor handles a submit.  A stop pressed meanwhile
is `cancel` and then some `close`s. -/
inductive Meanwhile where
  | cancel
  | close (x : ExchangeId)
  | beginAsk (task : TaskId)
  | ask (task : TaskId) (question : String)
  | finish (task : TaskId) (terminal : Terminal)
  | terminate (task : TaskId) (terminal : Terminal) (unseen : Unseen) (deliveredLive : Bool)
  | spawn (title : String)
  | notice (message : ChatMessage)
  | lock (holder : Option Nat)
  | event (event : ConversationEvent)

/-- One move of the surroundings.  `parked` are the exchanges that stops pressed
before the message may still close; a stop pressed after it may close any. -/
def play (cancelEpoch : Nat) (parked : List ExchangeId) : Meanwhile → World → World
  | .cancel, s => s.handleCancel
  | .close x, s =>
      if x ∈ parked ∨ cancelEpoch < s.cancelEpoch then s.writeStatus x .cancelled none none else s
  | .beginAsk task, s => (beginAsk task s).2
  | .ask task question, s =>
      -- the run is inside its tool call, so it is still there
      match (s.process? task).bind (·.exchangeId) with
      | some x => s.writeStatus x .awaitingUser (some (s.look x)) (some question)
      | none => s
  | .finish task terminal, s =>
      if (s.process? task).isSome then s.finishTask task terminal.taskStatus else s
  | .terminate task terminal unseen deliveredLive, s =>
      s.terminateProcess task terminal.taskStatus unseen terminal.text? deliveredLive
  | .spawn title, s =>
      let added := s.addTask .run none title
      added.2.createProcess added.1 false
  | .notice message, s => (s.persist message none).2.queueNotice message
  | .lock holder, s => { s with spawnLock := holder }
  | .event event, s => (conversationEvent event s).getD s

/-- What a step of the surroundings does to the exchanges, and a quiet step of
the handling too. -/
structure Beside (cancelEpoch : Nat) (parked : List ExchangeId) (s s' : World) : Prop where
  wellFormed : s.WellFormed → s'.WellFormed
  next : s.nextExchange ≤ s'.nextExchange
  nextTask : s.nextTask ≤ s'.nextTask
  epoch : s.cancelEpoch ≤ s'.cancelEpoch
  preempted : s.preempted = true → s'.preempted = true
  stored : ∀ x, (s.status x).isSome → (s'.status x).isSome
  /-- Only a stop closes an exchange that has no run. -/
  status : ∀ x, x ∉ parked → s.NoRun x →
    s'.status x = s.status x ∨ cancelEpoch < s.cancelEpoch
  tasks : ∀ x, s'.hasLiveTask x = true → s.hasLiveTask x = true
  inbox : ∃ more, s'.inbox = s.inbox ++ more
  noRun : ∀ x, s.NoRun x → s'.NoRun x
  /-- A run goes on until a stop or its own end. -/
  running : ∀ x, s.Running x → s'.Running x ∨ s.cancelEpoch < s'.cancelEpoch ∨
    ∃ e ∈ s'.inbox.drop s.inbox.length, e.exchangeId = some x ∧ e.byCancel = false

section Moves

variable {cancelEpoch : Nat} {parked : List ExchangeId}

theorem Beside.quiet {s s' : World} (hQuiet : Quiet s s') : Beside cancelEpoch parked s s' where
  wellFormed := hQuiet.wellFormed
  next := Nat.le_of_eq hQuiet.nextExchange.symm
  nextTask := Nat.le_of_eq hQuiet.nextTask.symm
  epoch := Nat.le_of_eq hQuiet.cancelEpoch.symm
  preempted hPreempted := hQuiet.preempted.trans hPreempted
  stored x hStored := by rwa [hQuiet.status]
  status x _ _ := Or.inl (by rw [hQuiet.status])
  tasks x hLive := by
    rw [World.hasLiveTask_iff, hQuiet.task, hQuiet.nextTask] at hLive
    exact (s.hasLiveTask_iff x).mpr hLive
  inbox := ⟨[], by rw [hQuiet.inbox, List.append_nil]⟩
  noRun x hNone := by
    rw [World.NoRun, hQuiet.processes]
    exact hNone
  running x hRunning := by
    rw [World.Running, hQuiet.processes]
    exact Or.inl hRunning

variable (cancelEpoch parked) in
theorem Beside.refl (s : World) : Beside cancelEpoch parked s s := .quiet (.refl s)

/-- A write to the status of an exchange that is parked, or has a run, or was
closed by a stop pressed after the message. -/
theorem Beside.write {s : World} {x : ExchangeId} {status : ExchangeStatus} {look : Option Look}
    {f : ExchangeRow → ExchangeRow}
    (hMay : x ∈ parked ∨ ¬s.NoRun x ∨ cancelEpoch < s.cancelEpoch) :
    Beside cancelEpoch parked s (s.writeRow x status look f) := by
  refine { Beside.refl cancelEpoch parked s with
    wellFormed := fun hWell => hWell.writeRow status look f
    stored := fun y hStored => ?_
    status := fun y hNotParked hNone => ?_ }
  · rw [World.status_writeRow]
    split
    · rename_i hSame
      subst hSame
      simpa using hStored
    · exact hStored
  · rw [World.status_writeRow]
    split
    · rename_i hSame
      subst hSame
      rcases hMay with hParked | hRun | hLate
      · exact absurd hParked hNotParked
      · exact absurd hNone hRun
      · exact Or.inr hLate
    · exact Or.inl rfl

theorem Beside.handleCancel (s : World) : Beside cancelEpoch parked s s.handleCancel := by
  refine { Beside.refl cancelEpoch parked s with
    wellFormed := fun hWell => hWell.handleCancel
    epoch := Nat.le_succ _
    noRun := fun x hNone p hMem => ?_
    running := fun _ _ => Or.inr (Or.inl (Nat.lt_succ_self _)) }
  · obtain ⟨q, hOld, rfl⟩ := List.mem_map.mp hMem
    have hSame : (if q.exchangeId.isSome then { q with cancelled := true } else q).exchangeId =
        q.exchangeId := by split <;> rfl
    rw [hSame]
    exact hNone q hOld

/-- Asking marks the run and nothing else. -/
theorem Beside.beginAsk (task : TaskId) (s : World) :
    Beside cancelEpoch parked s (beginAsk task s).2 := by
  unfold Conversation.beginAsk
  split
  · exact .refl _ _ s
  · refine { Beside.refl cancelEpoch parked s with
      wellFormed := fun hWell => hWell.map_processes fun p => by split <;> exact ⟨rfl, rfl⟩
      noRun := ?_
      running := ?_ }
    · intro x hNone p hMem
      obtain ⟨q, hOld, rfl⟩ := List.mem_map.mp hMem
      have hSame : (if q.task = task then { q with asked := true } else q).exchangeId =
          q.exchangeId := by split <;> rfl
      rw [hSame]
      exact hNone q hOld
    · rintro x ⟨p, hMem, hOwn, hGoing⟩
      refine Or.inl ⟨_, List.mem_map_of_mem hMem, ?_, ?_⟩
      · split <;> exact hOwn
      · split <;> exact hGoing

theorem Beside.finishTask (task : TaskId) (terminal : Terminal) (s : World) :
    Beside cancelEpoch parked s (s.finishTask task terminal.taskStatus) := by
  refine { Beside.refl cancelEpoch parked s with
    wellFormed := fun hWell => hWell.finishTask task terminal.taskStatus
    tasks := fun x hLive => ?_ }
  · obtain ⟨id, row, hBound, hTask, hOwn, hActive⟩ := (World.hasLiveTask_iff _ x).mp hLive
    simp only [World.finishTask, Function.update_apply] at hTask
    split at hTask
    · obtain ⟨row', -, rfl⟩ := Option.map_eq_some_iff.mp hTask
      cases terminal <;> simp [Terminal.taskStatus, TaskStatus.isActive] at hActive
    · exact (s.hasLiveTask_iff x).mpr ⟨id, row, hBound, hTask, hOwn, hActive⟩

theorem Beside.terminateProcess (task : TaskId) (terminal : Terminal) (unseen : Unseen)
    (deliveredLive : Bool) (s : World) :
    Beside cancelEpoch parked s
      (s.terminateProcess task terminal.taskStatus unseen terminal.text? deliveredLive) := by
  unfold World.terminateProcess
  split
  · exact .refl _ _ s
  · rename_i p hFound
    refine { Beside.refl cancelEpoch parked s with
      wellFormed := fun hWell => hWell.of_processes fun q hMem =>
        ⟨q, List.mem_of_mem_eraseP hMem, rfl, rfl⟩
      inbox := ⟨_, rfl⟩
      noRun := ?_
      running := ?_ }
    · exact fun x hNone q hMem => hNone q (List.mem_of_mem_eraseP hMem)
    · rintro x ⟨q, hMem, hOwn, hGoing⟩
      -- the run that leaves is the one that was found, and its end is queued
      obtain ⟨before, after, hSplit, hBefore⟩ := (List.find?_eq_some_iff_append.mp hFound).2
      have hLeft : s.processes.eraseP (fun r => decide (r.task = task)) = before ++ after := by
        rw [hSplit, List.eraseP_append_right _ (by simpa using hBefore),
          List.eraseP_cons_of_pos (List.find?_some hFound)]
      rw [hSplit] at hMem
      rcases List.mem_append.mp hMem with hMem | hMem
      · exact Or.inl ⟨q, by rw [hLeft]; exact List.mem_append_left _ hMem, hOwn, hGoing⟩
      · rcases List.mem_cons.mp hMem with rfl | hMem
        · refine Or.inr (Or.inr ?_)
          simp only [List.drop_left]
          exact ⟨_, List.mem_singleton_self _, hOwn, hGoing⟩
        · exact Or.inl ⟨q, by rw [hLeft]; exact List.mem_append_right _ hMem, hOwn, hGoing⟩

theorem Beside.spawn (title : String) (s : World) :
    Beside cancelEpoch parked s (play cancelEpoch parked (.spawn title) s) := by
  refine { Beside.refl cancelEpoch parked s with
    wellFormed := fun hWell => ?_
    nextTask := Nat.le_succ _
    tasks := fun x hLive => ?_
    noRun := fun x hNone p hMem => ?_
    running := fun x ⟨p, hMem, hRun⟩ => Or.inl ⟨p, List.mem_append_left _ hMem, hRun⟩ }
  · have hOwn : ∀ x, (none : Option ExchangeId) = some x → x < s.nextExchange :=
      fun _ hEq => by simp at hEq
    exact (hWell.addTask hOwn fun _ => rfl).createProcess false
      (World.hasTask_addTask hOwn fun _ => rfl)
  · obtain ⟨id, row, hBound, hTask, hOwn, hActive⟩ := (World.hasLiveTask_iff _ x).mp hLive
    simp only [play, World.addTask, World.createProcess, Function.update_apply] at hTask hBound
    split at hTask
    · obtain rfl := Option.some.inj hTask
      simp at hOwn
    · rename_i hOld
      have hEarlier : id < s.nextTask := Nat.lt_of_le_of_ne (Nat.le_of_lt_succ hBound) hOld
      exact (s.hasLiveTask_iff x).mpr ⟨id, row, hEarlier, hTask, hOwn, hActive⟩
  · simp only [play, World.addTask, World.createProcess, List.mem_append,
      List.mem_singleton] at hMem
    rcases hMem with hOld | rfl
    · exact hNone p hOld
    · simp

theorem beside_play (m : Meanwhile) (s : World) :
    Beside cancelEpoch parked s (play cancelEpoch parked m s) := by
  cases m with
  | cancel => exact .handleCancel s
  | close x =>
      simp only [play]
      split
      · rename_i hMay
        refine .write ?_
        rcases hMay with hParked | hLate
        · exact Or.inl hParked
        · exact Or.inr (Or.inr hLate)
      · exact .refl _ _ s
  | beginAsk task => exact .beginAsk task s
  | ask task question =>
      simp only [play]
      split
      · rename_i x hAsking
        -- Only a process of the exchange asks on its behalf.
        obtain ⟨p, hFound, hOwn⟩ := Option.bind_eq_some_iff.mp hAsking
        refine .write (Or.inr (Or.inl fun hNone => ?_))
        exact hNone p (List.mem_of_find?_eq_some hFound) hOwn
      · exact .refl _ _ s
  | finish task terminal =>
      simp only [play]
      split
      · exact .finishTask task terminal s
      · exact .refl _ _ s
  | terminate task terminal unseen deliveredLive => exact .terminateProcess _ _ _ _ s
  | spawn title => exact .spawn title s
  | notice message => exact .quiet { Quiet.refl s with }
  | lock holder => exact .quiet { Quiet.refl s with }
  | event event =>
      simp only [play]
      cases hEvent : conversationEvent event s with
      | none => exact .refl _ _ s
      | some s' => exact .quiet (calm_event event hEvent).toQuiet

end Moves

/-! ## What the handling may rely on -/

/-- One handling beside its surroundings. -/
def around (cancelEpoch : Nat) (parked : List ExchangeId) : Protocol World :=
  Protocol.beside fun s s' => ∃ m, s' = play cancelEpoch parked m s

/-- An assertion that neither the surroundings nor a quiet step break. -/
def Unbroken (cancelEpoch : Nat) (parked : List ExchangeId) (A : World → Prop) : Prop :=
  ∀ s s', A s → Beside cancelEpoch parked s s' → A s'

/-- Foreign keys hold, the message is not newer than the stop counter, and ids
below `bound` are taken. -/
structure Base (cancelEpoch bound : Nat) (s : World) : Prop where
  wellFormed : s.WellFormed
  epoch : cancelEpoch ≤ s.cancelEpoch
  next : bound ≤ s.nextExchange

/-- Stop was pressed after the message. -/
def Late (cancelEpoch : Nat) (s : World) : Prop := cancelEpoch < s.cancelEpoch

/-- The exchange is work for the sweep, and no stop under way will close it. -/
structure Unowned (parked : List ExchangeId) (x : ExchangeId) (s : World) : Prop where
  status : s.status x = some .opened
  tasks : s.hasLiveTask x = false
  noRun : s.NoRun x
  notParked : x ∉ parked

/-- A run of the exchange is going, or one has ended by itself since `w`. -/
def Held (x : ExchangeId) (w s : World) : Prop :=
  s.Running x ∨
    ∃ e ∈ s.inbox.drop w.inbox.length, e.exchangeId = some x ∧ e.byCancel = false

/-- Where `_ensure_owner` found a live run of the exchange, one was not told to
stop, or the message is older than the last stop. -/
def OwnerSound (cancelEpoch : Nat) (x : ExchangeId) (w : World) : Prop :=
  (w.liveProcessFor x).isSome → Late cancelEpoch w ∨ w.Running x

/-- Where a run was refused without a notice, the sweep will find the exchange. -/
def RefusalSound (cancelEpoch : Nat) (parked : List ExchangeId) (x : ExchangeId) (w : World) :
    Prop :=
  Late cancelEpoch w ∨ (w.status x = some .opened ∧ w.hasLiveTask x = false ∧ x ∉ parked)

/-- What was left behind for a message that went to the exchange.  For an
exchange that already existed this rests on what was found when it was looked
at. -/
inductive Placed (cancelEpoch : Nat) (parked : List ExchangeId) (decision : RouteDecision)
    (x : ExchangeId) (assignment : Assignment) (s : World) : Prop
  | notified (hNotified : assignment.notified = true)
  | preempted (hPreempted : s.preempted = true)
  | late (hLate : Late cancelEpoch s)
  | held (w : World) (hLooked : assignment.looked = some w)
      (hLength : w.inbox.length ≤ s.inbox.length)
      (hHeld : (decision.exchangeId = some x → OwnerSound cancelEpoch x w) → Held x w s)
  | unowned (w : World) (hRefused : assignment.refused = some w)
      (hUnowned : (decision.exchangeId = some x → RefusalSound cancelEpoch parked x w) →
        Unowned parked x s)

section Assertions

variable {cancelEpoch bound : Nat} {parked : List ExchangeId} {x : ExchangeId} {s s' : World}

theorem Unbroken.stable {A : World → Prop} (hUnbroken : Unbroken cancelEpoch parked A) :
    (around cancelEpoch parked).Stable 0 fun s => (around cancelEpoch parked).inv s ∧ A s := by
  apply Protocol.stable_beside
  rintro s _ ⟨-, hA⟩ ⟨m, rfl⟩
  exact ⟨trivial, hUnbroken s _ hA (beside_play m s)⟩

theorem Base.beside (hBase : Base cancelEpoch bound s) (hStep : Beside cancelEpoch parked s s') :
    Base cancelEpoch bound s' :=
  ⟨hStep.wellFormed hBase.wellFormed, Nat.le_trans hBase.epoch hStep.epoch,
    Nat.le_trans hBase.next hStep.next⟩

theorem Late.beside (hLate : Late cancelEpoch s) (hStep : Beside cancelEpoch parked s s') :
    Late cancelEpoch s' :=
  Nat.lt_of_lt_of_le hLate hStep.epoch

theorem Unowned.beside (hUnowned : Unowned parked x s) (hStep : Beside cancelEpoch parked s s') :
    Unowned parked x s' ∨ Late cancelEpoch s' := by
  rcases hStep.status x hUnowned.notParked hUnowned.noRun with hSame | hLate
  · refine Or.inl ⟨hSame.trans hUnowned.status, ?_, hStep.noRun x hUnowned.noRun,
      hUnowned.notParked⟩
    rw [Bool.eq_false_iff]
    intro hLive
    have hNone := hUnowned.tasks
    rw [hStep.tasks x hLive] at hNone
    simp at hNone
  · exact Or.inr (Late.beside hLate hStep)

theorem Held.beside {w : World} (hEpoch : cancelEpoch ≤ s.cancelEpoch)
    (hLength : w.inbox.length ≤ s.inbox.length) (hHeld : Held x w s)
    (hStep : Beside cancelEpoch parked s s') : Held x w s' ∨ Late cancelEpoch s' := by
  obtain ⟨more, hMore⟩ := hStep.inbox
  rcases hHeld with hRunning | ⟨e, hMem, hEnd⟩
  · rcases hStep.running x hRunning with hRunning' | hStop | ⟨e, hMem, hEnd⟩
    · exact Or.inl (Or.inl hRunning')
    · exact Or.inr (Nat.lt_of_le_of_lt hEpoch hStop)
    · refine Or.inl (Or.inr ⟨e, ?_, hEnd⟩)
      rw [hMore, List.drop_left] at hMem
      rw [hMore, List.drop_append_of_le_length hLength]
      exact List.mem_append_right _ hMem
  · refine Or.inl (Or.inr ⟨e, ?_, hEnd⟩)
    rw [hMore, List.drop_append_of_le_length hLength]
    exact List.mem_append_left _ hMem

theorem Beside.inbox_length (hStep : Beside cancelEpoch parked s s') :
    s.inbox.length ≤ s'.inbox.length := by
  obtain ⟨more, hMore⟩ := hStep.inbox
  rw [hMore, List.length_append]
  exact Nat.le_add_right _ _

theorem Placed.beside {decision : RouteDecision} {assignment : Assignment}
    (hBase : Base cancelEpoch bound s) (hStep : Beside cancelEpoch parked s s')
    (hPlaced : Placed cancelEpoch parked decision x assignment s) :
    Placed cancelEpoch parked decision x assignment s' := by
  cases hPlaced with
  | notified hNotified => exact .notified hNotified
  | preempted hPreempted => exact .preempted (hStep.preempted hPreempted)
  | late hLate => exact .late (hLate.beside hStep)
  | held w hLooked hLength hHeld =>
      by_cases hSound : decision.exchangeId = some x → OwnerSound cancelEpoch x w
      · rcases (hHeld hSound).beside hBase.epoch hLength hStep with hHeld' | hLate
        · exact .held w hLooked (Nat.le_trans hLength hStep.inbox_length) fun _ => hHeld'
        · exact .late hLate
      · exact .held w hLooked (Nat.le_trans hLength hStep.inbox_length)
          fun hSound' => absurd hSound' hSound
  | unowned w hRefused hUnowned =>
      by_cases hSound : decision.exchangeId = some x → RefusalSound cancelEpoch parked x w
      · rcases (hUnowned hSound).beside hStep with hUnowned' | hLate
        · exact .unowned w hRefused fun _ => hUnowned'
        · exact .late hLate
      · exact .unowned w hRefused fun hSound' => absurd hSound' hSound

end Assertions

/-! ## The handling, step by step -/

/-- The error of a store that does not answer. -/
def Unavailable (error : StoreError) : Prop := error = .unavailable

/-- The coroutine raises nothing else. -/
def OnlyUnavailable {α : Type} : Work α → Prop :=
  Ends fun r => ∀ error, r = .error error → Unavailable error

section Handling

variable {α : Type} {cancelEpoch bound : Nat} {parked : List ExchangeId} {A : World → Prop}
  {decision : RouteDecision} {x : ExchangeId}

theorem onlyUnavailable_done (value : α) : OnlyUnavailable (.done value : Work α) :=
  fun _ hEq => by simp at hEq

theorem OnlyUnavailable.bind {β : Type} {c : Work α} {f : α → Work β} (hFirst : OnlyUnavailable c)
    (hRest : ∀ value, OnlyUnavailable (f value)) : OnlyUnavailable (c.bind f) :=
  Ends.bind hFirst (fun value _ => hRest value) fun error hError error' hEq =>
    hError error' (by simpa using hEq)

theorem onlyUnavailable_transaction (f : World → α × World) : OnlyUnavailable (transaction f) := by
  refine Co.ends_attempt fun s => ?_
  split
  · intro error hEq
    exact (Except.error.inj hEq).symm
  · intro error hEq
    simp at hEq

theorem onlyUnavailable_deliverNotice (content : String) (own : Option ExchangeId) :
    OnlyUnavailable (deliverNotice content own) := by
  refine (onlyUnavailable_transaction _).bind fun id => ?_
  refine OnlyUnavailable.bind (fun _ => onlyUnavailable_done ()) fun _ => ?_
  refine Co.ends_attempt fun s => ?_
  dsimp only
  split
  · intro error hEq
    exact (Except.error.inj hEq).symm
  · intro error hEq
    simp at hEq

theorem onlyUnavailable_rejectForLimit (cfg : RunnerConfig) (message : ChatMessage) :
    OnlyUnavailable (rejectForLimit cfg message) :=
  OnlyUnavailable.bind (fun _ => onlyUnavailable_done _) fun _ =>
    onlyUnavailable_deliverNotice _ none

theorem onlyUnavailable_stillOwnsDialog : OnlyUnavailable stillOwnsDialog :=
  Ends.tryCatch (onlyUnavailable_transaction _) (fun value _ => onlyUnavailable_done value)
    fun _ _ => onlyUnavailable_done true

theorem spec_calmly {c : Work α} (hUnbroken : Unbroken cancelEpoch parked A)
    (hCalm : Steps Calm c) : Spec (around cancelEpoch parked) 0 A c fun _ => A :=
  hCalm.spec hUnbroken.stable fun s s' _ hA hStep =>
    ⟨trivial, rfl, hUnbroken s s' hA (.quiet hStep.toQuiet)⟩

theorem triple_calmly {c : Work α} (hUnbroken : Unbroken cancelEpoch parked A)
    (hCalm : Steps Calm c) (hEnds : OnlyUnavailable c) :
    Triple (around cancelEpoch parked) 0 A c (fun _ => A) Unavailable :=
  ((spec_calmly hUnbroken hCalm).and_ends hEnds).mono (fun _ _ hA => hA)
    (fun _ _ _ hBoth => hBoth.1) fun error hError => hError error rfl

theorem triple_transaction {f : World → α × World} {B : α → World → Prop} {E : StoreError → Prop}
    (hUnbroken : Unbroken cancelEpoch parked A) (hPost : ∀ s, A s → B (f s).1 (f s).2)
    (hError : E .unavailable := by trivial) :
    Triple (around cancelEpoch parked) 0 A (transaction f) B E := by
  refine Co.triple_attempt hUnbroken.stable fun s _ hA => ?_
  split
  · refine ⟨trivial, rfl, fun _ hEq => by simp at hEq, fun _ hEq => ?_⟩
    obtain rfl := Except.error.inj hEq
    exact hError
  · refine ⟨trivial, rfl, fun value hEq => ?_, fun _ hEq => by simp at hEq⟩
    obtain rfl := Except.ok.inj hEq
    exact hPost s hA

theorem triple_select {f : World → α} {B : α → World → Prop} {E : StoreError → Prop}
    (hUnbroken : Unbroken cancelEpoch parked A) (hPost : ∀ s, A s → B (f s) s)
    (hError : E .unavailable := by trivial) :
    Triple (around cancelEpoch parked) 0 A (select f) B E :=
  triple_transaction (f := fun s => (f s, s)) hUnbroken hPost hError

theorem triple_atomically {f : World → α × World} {B : α → World → Prop} {E : StoreError → Prop}
    (hUnbroken : Unbroken cancelEpoch parked A) (hPost : ∀ s, A s → B (f s).1 (f s).2) :
    Triple (around cancelEpoch parked) 0 A (Co.atomic f : Work α) B E :=
  Co.triple_atomic hUnbroken.stable fun s _ hA => ⟨trivial, rfl, hPost s hA⟩

theorem triple_read {f : World → α} {B : α → World → Prop} {E : StoreError → Prop}
    (hUnbroken : Unbroken cancelEpoch parked A) (hPost : ∀ s, A s → B (f s) s) :
    Triple (around cancelEpoch parked) 0 A (Co.read f : Work α) B E :=
  triple_atomically (f := fun s => (f s, s)) hUnbroken hPost

theorem triple_modify {f : World → World} {B : World → Prop} {E : StoreError → Prop}
    (hUnbroken : Unbroken cancelEpoch parked A) (hPost : ∀ s, A s → B (f s)) :
    Triple (around cancelEpoch parked) 0 A (Co.modify f : Work Unit) (fun _ => B) E :=
  triple_atomically (f := fun s => ((), f s)) hUnbroken hPost

/-- Before `_ensure_owner`: the exchange is stored, and it is the one the router
named or one that was created for the message. -/
structure Ready (cancelEpoch bound : Nat) (parked : List ExchangeId) (decision : RouteDecision)
    (x : ExchangeId) (known : Option Seen) (s : World) : Prop where
  base : Base cancelEpoch bound s
  stored : (s.status x).isSome
  known : ∀ seen, known = some seen → seen.exchange.id = x
  origin : decision.exchangeId = some x ∨ Late cancelEpoch s ∨ Unowned parked x s

theorem unbroken_ready (known : Option Seen) :
    Unbroken cancelEpoch parked (Ready cancelEpoch bound parked decision x known) := by
  intro s s' hReady hStep
  refine ⟨hReady.base.beside hStep, hStep.stored x hReady.stored, hReady.known, ?_⟩
  rcases hReady.origin with hNamed | hLate | hUnowned
  · exact Or.inl hNamed
  · exact Or.inr (Or.inl (hLate.beside hStep))
  · exact Or.inr (hUnowned.beside hStep).symm

/-- After a look that found no run of the exchange. -/
structure Starting (cancelEpoch bound : Nat) (parked : List ExchangeId) (decision : RouteDecision)
    (x : ExchangeId) (known : Option Seen) (looked s : World) : Prop extends
    Ready cancelEpoch bound parked decision x known s where
  noRun : s.NoRun x
  length : looked.inbox.length ≤ s.inbox.length

theorem unbroken_starting (known : Option Seen) (looked : World) :
    Unbroken cancelEpoch parked (Starting cancelEpoch bound parked decision x known looked) :=
  fun s s' hStarting hStep =>
    ⟨unbroken_ready known s s' hStarting.toReady hStep, hStep.noRun x hStarting.noRun,
      Nat.le_trans hStarting.length hStep.inbox_length⟩

/-- `_ensure_owner` has found a live run. -/
theorem Ready.placed_of_live {known : Option Seen} {s : World}
    (hReady : Ready cancelEpoch bound parked decision x known s)
    (hLive : (s.liveProcessFor x).isSome) :
    Placed cancelEpoch parked decision x { looked := some s } s := by
  by_cases hLate : Late cancelEpoch s
  · exact .late hLate
  · refine .held s rfl (Nat.le_refl _) fun hSound => Or.inl ?_
    rcases hReady.origin with hNamed | hLate' | hUnowned
    · exact (hSound hNamed hLive).resolve_left hLate
    · exact absurd hLate' hLate
    · obtain ⟨p, hMem, hOwn⟩ := (s.liveProcessFor_isSome x).mp hLive
      exact absurd hOwn (hUnowned.noRun p hMem)

/-- A run is refused and today's notice has been sent. -/
theorem Starting.placed_of_silent {known : Option Seen} {looked s : World}
    (hStarting : Starting cancelEpoch bound parked decision x known looked s) :
    Placed cancelEpoch parked decision x { refused := some s, looked := some looked } s := by
  by_cases hLate : Late cancelEpoch s
  · exact .late hLate
  · refine .unowned s rfl fun hSound => ?_
    rcases hStarting.origin with hNamed | hLate' | hUnowned
    · obtain ⟨hStatus, hTasks, hNotParked⟩ := (hSound hNamed).resolve_left hLate
      exact ⟨hStatus, hTasks, hStarting.noRun, hNotParked⟩
    · exact absurd hLate' hLate
    · exact hUnowned

/-- A message is placed, and the assertions behind that survive. -/
def Settled (cancelEpoch bound : Nat) (parked : List ExchangeId) (decision : RouteDecision)
    (x : ExchangeId) (assignment : Assignment) (s : World) : Prop :=
  Base cancelEpoch bound s ∧ Placed cancelEpoch parked decision x assignment s

theorem unbroken_settled (assignment : Assignment) :
    Unbroken cancelEpoch parked (Settled cancelEpoch bound parked decision x assignment) :=
  fun _ _ hSettled hStep => ⟨hSettled.1.beside hStep, hSettled.2.beside hSettled.1 hStep⟩

theorem triple_knownOrGet (known : Option Seen) (looked : World) :
    Triple (around cancelEpoch parked) 0
      (Starting cancelEpoch bound parked decision x known looked) (knownOrGet x known)
      (fun seen s => Starting cancelEpoch bound parked decision x (some seen) looked s)
      Unavailable := by
  cases known with
  | some seen => exact Co.triple_done fun s _ hStarting => hStarting
  | none =>
      refine Triple.bind (triple_select (B := fun found s => ∃ seen, found = some seen ∧
        Starting cancelEpoch bound parked decision x (some seen) looked s)
        (unbroken_starting none looked) fun s hStarting => ?_) fun found => ?_
      · obtain ⟨row, hRow⟩ := Option.isSome_iff_exists.mp
          (by simpa [World.status] using hStarting.stored : (s.row x).isSome)
        refine ⟨{ exchange := { row with id := x }, look := s.look x }, ?_, ?_⟩
        · simp [World.exchange, hRow]
        · refine { hStarting with known := fun seen hEq => ?_ }
          obtain rfl := Option.some.inj hEq
          rfl
      · cases found with
        | none => exact fun s _ hFound => by obtain ⟨_, hEq, _⟩ := hFound; simp at hEq
        | some seen =>
            refine Co.triple_done fun s _ hFound => ?_
            obtain ⟨seen', hEq, hStarting⟩ := hFound
            obtain rfl := Option.some.inj hEq
            exact hStarting

/-- Between the unit of work of `_start_answer` and the process. -/
structure TaskBegun (cancelEpoch bound : Nat) (x : ExchangeId) (looked : World) (task : Task)
    (s : World) : Prop where
  base : Base cancelEpoch bound s
  own : task.exchangeId = some x
  stored : s.HasTask task
  length : looked.inbox.length ≤ s.inbox.length

theorem unbroken_begun (looked : World) (task : Task) :
    Unbroken cancelEpoch parked (TaskBegun cancelEpoch bound x looked task) :=
  fun _ _ hBegun hStep =>
    ⟨hBegun.base.beside hStep, hBegun.own, hBegun.stored.mono hStep.nextTask hStep.next,
      Nat.le_trans hBegun.length hStep.inbox_length⟩

theorem triple_beginAnswer (seen : Seen) (looked : World) :
    Triple (around cancelEpoch parked) 0
      (Starting cancelEpoch bound parked decision x (some seen) looked) (beginAnswer seen)
      (TaskBegun cancelEpoch bound x looked) Unavailable := by
  refine Co.triple_attempt (unbroken_starting _ looked).stable fun s _ hStarting => ?_
  have hSame : seen.exchange.id = x := hStarting.known seen rfl
  have hStored : x < s.nextExchange := hStarting.base.wellFormed.lt_of_stored hStarting.stored
  dsimp only
  split
  · exact ⟨trivial, rfl, fun _ hEq => by simp at hEq, fun _ hEq => (Except.error.inj hEq).symm⟩
  · rw [hSame]
    split
    · rename_i hMissing
      have hFound := hStarting.stored
      rw [Option.isNone_iff_eq_none.mp hMissing] at hFound
      simp at hFound
    · refine ⟨trivial, rfl, fun task hEq => ?_, fun _ hEq => by simp at hEq⟩
      obtain rfl := Except.ok.inj hEq
      have hOwn : ∀ y, some x = some y → y < s.nextExchange := by
        intro y hEq'
        obtain rfl := Option.some.inj hEq'
        exact hStored
      have hKind : TaskKind.answer = .run → some x = none := fun hEq' => by simp at hEq'
      exact ⟨⟨(hStarting.base.wellFormed.addTask hOwn hKind).writeRow _ _ _,
        hStarting.base.epoch, hStarting.base.next⟩, rfl,
        ⟨Nat.lt_succ_self _, hOwn, hKind⟩, hStarting.length⟩

/-- The new run is going, unless it was born cancelled because of a stop. -/
theorem TaskBegun.startProcess (seen : Seen) {looked : World} {task : Task} {s : World}
    (hBegun : TaskBegun cancelEpoch bound x looked task s) :
    Settled cancelEpoch bound parked decision x { looked := some looked }
      (startProcess seen task (some cancelEpoch) s) := by
  have hWell := hBegun.base.wellFormed.createProcess (decide (cancelEpoch < s.cancelEpoch))
    hBegun.stored
  refine ⟨⟨hWell.of_same rfl rfl rfl rfl fun p hMem => ⟨p, hMem, rfl, rfl⟩, hBegun.base.epoch,
    hBegun.base.next⟩, ?_⟩
  by_cases hLate : cancelEpoch < s.cancelEpoch
  · exact .late hLate
  · refine .held looked rfl hBegun.length fun _ => Or.inl ?_
    exact ⟨_, List.mem_append_right _ (List.mem_singleton_self _), hBegun.own, by simp [hLate]⟩

theorem triple_tariffNoticeOnce (seen : Seen) (looked : World) (key notice : String) :
    Triple (around cancelEpoch parked) 0
      (Starting cancelEpoch bound parked decision x (some seen) looked)
      (tariffNoticeOnce key notice)
      (fun assignment => Settled cancelEpoch bound parked decision x
        { assignment with looked := some looked }) Unavailable := by
  have hUnbroken : Unbroken cancelEpoch parked
      (Starting cancelEpoch bound parked decision x (some seen) looked) := unbroken_starting _ looked
  refine Triple.bind (triple_atomically (B := fun silent s => silent.elim
    (Starting cancelEpoch bound parked decision x (some seen) looked s)
    fun w => Settled cancelEpoch bound parked decision x
      { refused := some w, looked := some looked } s)
    hUnbroken fun s hStarting => ?_) fun silent => ?_
  · by_cases hSent : s.tariffNotes key = some s.today
    · simp only [if_pos hSent]
      exact ⟨hStarting.base, hStarting.placed_of_silent⟩
    · simp only [if_neg hSent]
      exact hUnbroken s _ hStarting (.quiet { Quiet.refl s with })
  · cases silent with
    | some w => exact Co.triple_done fun s _ hSettled => hSettled
    | none =>
        refine (triple_calmly hUnbroken (calm_deliverNotice notice none)
          (onlyUnavailable_deliverNotice notice none)).bind fun _ => ?_
        exact Co.triple_done fun s _ hStarting => ⟨hStarting.base, .notified rfl⟩

theorem triple_startAnswer (seen : Seen) (looked : World) :
    Triple (around cancelEpoch parked) 0
      (Starting cancelEpoch bound parked decision x (some seen) looked)
      (startAnswer seen (some cancelEpoch) true)
      (fun assignment => Settled cancelEpoch bound parked decision x
        { assignment with looked := some looked }) Unavailable := by
  have hUnbroken : Unbroken cancelEpoch parked
      (Starting cancelEpoch bound parked decision x (some seen) looked) := unbroken_starting _ looked
  refine (triple_calmly hUnbroken calm_stillOwnsDialog onlyUnavailable_stillOwnsDialog).bind
    fun owns => ?_
  split
  · refine Triple.bind (triple_modify (B := Settled cancelEpoch bound parked decision x
      { looked := some looked }) hUnbroken fun s hStarting => ?_) fun _ => ?_
    · have hWell := hStarting.base.wellFormed
      exact ⟨⟨hWell.of_same rfl rfl rfl rfl fun p hMem => ⟨p, hMem, rfl, rfl⟩,
        hStarting.base.epoch,
        hStarting.base.next⟩, .preempted rfl⟩
    · exact Co.triple_done fun _ _ hSettled => hSettled
  · refine (triple_calmly hUnbroken (calm_select _) (onlyUnavailable_transaction _)).bind
      fun verdict => ?_
    cases verdict with
    | some verdict => exact triple_tariffNoticeOnce seen looked _ _
    | none =>
        refine (triple_beginAnswer seen looked).bind fun task => ?_
        have hBegun : Unbroken cancelEpoch parked (TaskBegun cancelEpoch bound x looked task) :=
          unbroken_begun looked task
        refine (triple_calmly hBegun (calm_select _) (onlyUnavailable_transaction _)).bind
          fun _ => ?_
        refine Triple.bind (triple_modify (B := Settled cancelEpoch bound parked decision x
          { looked := some looked }) hBegun fun s hBegun => hBegun.startProcess seen) fun _ => ?_
        exact Co.triple_done fun _ _ hSettled => hSettled

theorem spec_ensureOwner_placed (cfg : RunnerConfig) (me : Nat) (message : ChatMessage)
    (cancelled : List ExchangeId) (known : Option Seen) :
    Spec (around cancelEpoch parked) 0 (Ready cancelEpoch bound parked decision x known)
      (ensureOwner cfg me x message cancelled cancelEpoch known)
      (Settled cancelEpoch bound parked decision x) := by
  have hReady : Unbroken cancelEpoch parked (Ready cancelEpoch bound parked decision x known) :=
    unbroken_ready known
  refine Triple.tryCatch (E := Unavailable) ?_ fun error hError => ?_
  · refine Triple.bind (B := fun _ => Ready cancelEpoch bound parked decision x known)
      (Co.triple_blockUntil hReady.stable fun s _ hBefore _ =>
        ⟨trivial, rfl, hReady s _ hBefore (.quiet { Quiet.refl s with })⟩) fun _ => ?_
    refine Triple.ensure (fun assignment => (unbroken_settled assignment).stable)
      (fun s _ => ⟨trivial, rfl, fun assignment hSettled =>
        unbroken_settled assignment s _ hSettled (.quiet (quiet_releaseSpawnLock me s))⟩) ?_
    refine Triple.bind (triple_read (B := fun looked s =>
      ((looked.liveProcessFor x).isSome = true →
        Settled cancelEpoch bound parked decision x { looked := some looked } s) ∧
      ((looked.liveProcessFor x).isSome = false →
        Starting cancelEpoch bound parked decision x known looked s)) hReady fun s hBefore => ?_)
      fun looked => ?_
    · -- A live run of the exchange has its place; without one a run is about to start.
      refine ⟨fun hLive => ⟨hBefore.base, hBefore.placed_of_live hLive⟩, fun hNone => ?_⟩
      exact ⟨hBefore, World.noRun_of_liveProcessFor (by simpa using hNone), Nat.le_refl _⟩
    · split
      · rename_i hLive
        exact Co.triple_done fun s _ hLooked => hLooked.1 hLive
      · rename_i hNone
        refine Triple.pre (A := Starting cancelEpoch bound parked decision x known looked) ?_
          fun s _ hLooked => hLooked.2 (by simpa using hNone)
        refine (triple_knownOrGet known looked).bind fun seen => ?_
        have hStarting : Unbroken cancelEpoch parked
            (Starting cancelEpoch bound parked decision x (some seen) looked) :=
          unbroken_starting _ looked
        refine Triple.bind (B := fun _ =>
          Starting cancelEpoch bound parked decision x (some seen) looked)
          (triple_atomically hStarting fun s hBefore =>
            hStarting s _ hBefore (.quiet (calm_letIn cfg cancelled s).toQuiet)) fun admitted => ?_
        split
        · refine (triple_startAnswer seen looked).bind fun assignment => ?_
          exact Co.triple_done fun s _ hSettled => hSettled
        · refine (triple_calmly hStarting (calm_rejectForLimit cfg message)
            (onlyUnavailable_rejectForLimit cfg message)).bind fun _ => ?_
          exact Co.triple_done fun s _ hBefore => ⟨hBefore.base, .notified rfl⟩
  · obtain rfl := hError
    exact Co.triple_fail trivial

/-- What the router's exchanges are, and every cancellation leaves them: stored. -/
structure Routed (cancelEpoch bound : Nat) (decision : RouteDecision) (s : World) : Prop where
  base : Base cancelEpoch bound s
  stored : ∀ x, decision.exchangeId = some x → (s.status x).isSome

theorem unbroken_routed : Unbroken cancelEpoch parked (Routed cancelEpoch bound decision) :=
  fun _ _ hRouted hStep => ⟨hRouted.base.beside hStep, fun x hNamed =>
    hStep.stored x (hRouted.stored x hNamed)⟩

/-- Steps that keep the tables in order and take no exchange away. -/
structure Tame (s s' : World) : Prop where
  wellFormed : s.WellFormed → s'.WellFormed
  epoch : s'.cancelEpoch = s.cancelEpoch
  next : s'.nextExchange = s.nextExchange
  stored : ∀ x, (s.status x).isSome → (s'.status x).isSome

theorem Routed.tame {s s' : World} (hRouted : Routed cancelEpoch bound decision s)
    (hTame : Tame s s') : Routed cancelEpoch bound decision s' := by
  refine ⟨⟨hTame.wellFormed hRouted.base.wellFormed, ?_, ?_⟩, fun x hNamed =>
    hTame.stored x (hRouted.stored x hNamed)⟩
  · rw [hTame.epoch]
    exact hRouted.base.epoch
  · rw [hTame.next]
    exact hRouted.base.next

theorem Tame.write (s : World) (x : ExchangeId) (status : ExchangeStatus) (look : Option Look)
    (f : ExchangeRow → ExchangeRow) : Tame s (s.writeRow x status look f) where
  wellFormed hWell := hWell.writeRow status look f
  epoch := rfl
  next := rfl
  stored y hStored := by
    rw [World.status_writeRow]
    split
    · rename_i hSame
      subst hSame
      simpa using hStored
    · exact hStored

theorem tame_cancelExchanges (ids : List ExchangeId) : Steps Tame (cancelExchanges ids) := by
  have hRefl : ∀ s, Tame s s := fun _ => ⟨id, rfl, rfl, fun _ hStored => hStored⟩
  induction ids with
  | nil => exact Co.atoms_done []
  | cons x rest ih =>
      refine Atoms.bind (Co.atoms_modify fun s _ _ _ => ⟨trivial, ?_⟩) fun _ => ?_
      · split
        · exact { hRefl s with wellFormed := fun hWell => hWell.cancelProcess _ }
        · exact hRefl s
      · have hWrite : Steps Tame (setStatus x .cancelled none none) :=
          atoms_transactionOn hRefl fun s _ _ _ => ⟨trivial, .write s x _ _ _⟩
        refine Atoms.bind (Atoms.tryCatch (hWrite.bind fun _ => Co.atoms_done _)
          fun error => ?_) fun done => ?_
        · cases error with
          | exchangeNotFound => exact Co.atoms_done _
          | unavailable => exact Co.atoms_fail _
        · exact ih.bind fun _ => Co.atoms_done _

theorem spec_cancelExchanges (ids : List ExchangeId) :
    Spec (around cancelEpoch parked) 0 (Routed cancelEpoch bound decision) (cancelExchanges ids)
      fun _ => Routed cancelEpoch bound decision :=
  (tame_cancelExchanges ids).spec unbroken_routed.stable
    fun _ _ _ hRouted hStep => ⟨trivial, rfl, hRouted.tame hStep⟩

/-- An exchange created now is work for the sweep. -/
theorem unowned_create {s : World} (hWell : s.WellFormed) (hParked : ∀ x ∈ parked, x < s.nextExchange)
    (title : String) :
    Unowned parked s.nextExchange (s.create title .opened).2 where
  status := by simp [World.status_create]
  tasks := by
    rw [Bool.eq_false_iff]
    intro hLive
    obtain ⟨id, task, -, hTask, hOwn, -⟩ := (World.hasLiveTask_iff _ _).mp hLive
    exact absurd ((hWell.tasks id task hTask).exchange _ hOwn) (Nat.lt_irrefl _)
  noRun p hMem hOwn := absurd ((hWell.processes p hMem).2 _ hOwn) (Nat.lt_irrefl _)
  notParked hMem := absurd (hParked _ hMem) (Nat.lt_irrefl _)

/-- Where the message goes. -/
def Destined (cancelEpoch bound : Nat) (parked : List ExchangeId) (decision : RouteDecision)
    (chosen : Option (Option (ExchangeId × Option Seen))) (s : World) : Prop :=
  match chosen with
  | none => Base cancelEpoch bound s
  | some none => Base cancelEpoch bound s ∧ decision.action = .command
  | some (some (x, known)) => Ready cancelEpoch bound parked decision x known s

theorem unbroken_destined (chosen : Option (Option (ExchangeId × Option Seen))) :
    Unbroken cancelEpoch parked (Destined cancelEpoch bound parked decision chosen) := by
  intro s s' hDestined hStep
  match chosen, hDestined with
  | none, hBase => exact Base.beside hBase hStep
  | some none, hCommand => exact ⟨hCommand.1.beside hStep, hCommand.2⟩
  | some (some (_, known)), hReady => exact unbroken_ready known s s' hReady hStep

theorem spec_chooseExchange_ready (cfg : RunnerConfig) (message : ChatMessage)
    (cancelled : List ExchangeId) (hParked : ∀ x ∈ parked, x < bound) :
    Spec (around cancelEpoch parked) 0 (Routed cancelEpoch bound decision)
      (chooseExchange cfg message decision cancelled cancelEpoch)
      (Destined cancelEpoch bound parked decision) := by
  unfold chooseExchange
  split
  · rename_i x hAction hNamed
    refine (spec_calmly unbroken_routed (calm_retitle _ _)).bind fun _ => ?_
    refine Co.triple_done fun s _ hRouted => ?_
    exact ⟨hRouted.base, hRouted.stored x hNamed, fun _ hEq => by simp at hEq, Or.inl hNamed⟩
  · rename_i hAction
    exact Co.triple_done fun s _ hRouted => ⟨hRouted.base, hAction⟩
  · refine (spec_calmly unbroken_routed (calm_read _)).bind fun exceeds => ?_
    split
    · exact Co.triple_done fun s _ hRouted => hRouted.base
    · refine Triple.bind (triple_transaction (B := fun seen s =>
        Ready cancelEpoch bound parked decision seen.exchange.id (some seen) s) unbroken_routed
        fun s hRouted => ?_) fun seen => ?_
      · have hWell := hRouted.base.wellFormed
        have hBelow : ∀ x ∈ parked, x < s.nextExchange :=
          fun x hMem => Nat.lt_of_lt_of_le (hParked x hMem) hRouted.base.next
        let noted := (s.note (.attached s.nextExchange cancelEpoch)).note
          (.created s.nextExchange cancelEpoch s.cancelEpoch)
        have hNoted : noted.WellFormed :=
          hWell.of_same rfl rfl rfl rfl fun p hMem => ⟨p, hMem, rfl, rfl⟩
        have hUnowned : Unowned parked s.nextExchange (openFor message cancelEpoch s).2 :=
          unowned_create hNoted hBelow message.content
        refine ⟨⟨hNoted.create _ _, hRouted.base.epoch, ?_⟩, ?_, fun seen hEq => ?_, ?_⟩
        · exact Nat.le_succ_of_le hRouted.base.next
        · exact hUnowned.status ▸ rfl
        · obtain rfl := Option.some.inj hEq
          rfl
        · exact Or.inr (Or.inr hUnowned)
      · exact Co.triple_done fun s _ hReady => hReady

/-- What the handling of a message leaves behind. -/
def Came (cancelEpoch bound : Nat) (parked : List ExchangeId) (handled : Handled) (s : World) :
    Prop :=
  ∀ decision own assignment, handled = .routed decision own assignment →
    decision.action = .command ∨ assignment.notified = true ∨
      ∃ x, own = some x ∧ Settled cancelEpoch bound parked decision x assignment s

theorem spec_applyRoute (cfg : RunnerConfig) (me : Nat) (message : ChatMessage)
    (live : List Exchange) (hParked : ∀ x ∈ parked, x < bound) :
    Spec (around cancelEpoch parked) 0 (Routed cancelEpoch bound decision)
      (applyRoute cfg me message decision cancelEpoch live) (Came cancelEpoch bound parked) := by
  refine (spec_cancelExchanges decision.cancelIds).bind fun cancelled => ?_
  refine (spec_chooseExchange_ready cfg message cancelled hParked).bind fun chosen => ?_
  have hUnbroken : Unbroken cancelEpoch parked (Destined cancelEpoch bound parked decision chosen) :=
    unbroken_destined chosen
  refine (spec_calmly hUnbroken (calm_appendNarrative _ _)).bind fun _ => ?_
  refine (spec_calmly hUnbroken (calm_attachMessage _)).bind fun _ => ?_
  -- There was no room for a new exchange, or the message needs none, or one is to answer it.
  match chosen, hUnbroken with
  | none, hUnbroken =>
      refine (spec_calmly hUnbroken (calm_rejectForLimit cfg _)).bind fun _ => ?_
      refine Co.triple_done fun s _ _ _ _ _ hEq => ?_
      simp only [Handled.routed.injEq] at hEq
      obtain ⟨rfl, rfl, rfl⟩ := hEq
      exact Or.inr (Or.inl rfl)
  | some none, hUnbroken =>
      refine (spec_calmly hUnbroken (calm_nudgeStaleExchanges cfg _ live cancelled)).bind
        fun _ => ?_
      refine Co.triple_done fun s _ hDestined _ _ _ hEq => ?_
      simp only [Handled.routed.injEq] at hEq
      obtain ⟨rfl, rfl, rfl⟩ := hEq
      exact Or.inl hDestined.2
  | some (some (x, known)), _ =>
      refine (spec_ensureOwner_placed cfg me _ cancelled known).bind fun assignment => ?_
      have hSettled : Unbroken cancelEpoch parked
          (Settled cancelEpoch bound parked decision x assignment) := unbroken_settled assignment
      refine (spec_calmly hSettled (calm_nudgeStaleExchanges cfg _ live cancelled)).bind
        fun _ => ?_
      refine Co.triple_done fun s _ hSettled _ _ _ hEq => ?_
      simp only [Handled.routed.injEq] at hEq
      obtain ⟨rfl, rfl, rfl⟩ := hEq
      exact Or.inr (Or.inr ⟨x, rfl, hSettled⟩)

/-- A decision names an exchange the router was shown. -/
theorem ends_route (cfg : RunnerConfig) (command : Submit) (live : List Exchange)
    (reply : Option RouteArguments) :
    Ends (fun r => ∀ decision, r = .ok decision → ∀ x, decision.exchangeId = some x →
      x ∈ live.map (·.id)) (route cfg command live reply) := by
  intro s
  dsimp only [Co.bind_eq, Co.bind]
  split
  · rename_i y _ hReply
    intro decision hEq x hNamed
    obtain rfl := Except.ok.inj hEq
    obtain rfl := Option.some.inj hNamed
    simpa using (Option.filter_eq_some_iff.mp hReply).2
  · intro decision hEq x hNamed
    obtain rfl := Except.ok.inj hEq
    simp at hNamed
  · rename_i collection _ hSole
    intro decision hEq x hNamed
    obtain rfl := Except.ok.inj hEq
    obtain rfl := Option.some.inj hNamed
    unfold soleFreshCollection at hSole
    split at hSole
    · split at hSole
      · obtain rfl := Option.some.inj hSole
        simp
      · simp at hSole
    · simp at hSole
  · intro _ decision hEq x hNamed
    obtain rfl := Except.ok.inj hEq
    exact llmRoute_known hNamed

/-- After the read of the live exchanges. -/
def Shown (cancelEpoch bound : Nat) (live : List Exchange) (s : World) : Prop :=
  Base cancelEpoch bound s ∧ ∀ x ∈ live.map (·.id), (s.status x).isSome

theorem unbroken_shown (live : List Exchange) :
    Unbroken cancelEpoch parked (Shown cancelEpoch bound live) :=
  fun _ _ hShown hStep => ⟨hShown.1.beside hStep, fun x hMem => hStep.stored x (hShown.2 x hMem)⟩

theorem spec_handleSubmit_came (cfg : RunnerConfig) (me : Nat) (reply : Option RouteArguments)
    (command : Submit) (hParked : ∀ x ∈ parked, x < bound) :
    Spec (around command.cancelEpoch parked) 0 (Base command.cancelEpoch bound)
      (handleSubmit cfg me reply command) (Came command.cancelEpoch bound parked) := by
  have hBase : Unbroken command.cancelEpoch parked (Base command.cancelEpoch bound) :=
    fun _ _ hBase hStep => hBase.beside hStep
  have hOther : ∀ handled : Handled, (∀ decision own assignment,
      handled ≠ .routed decision own assignment) → ∀ s, Came command.cancelEpoch bound parked handled s :=
    fun handled hNot s decision own assignment hEq => absurd hEq (hNot decision own assignment)
  -- Where the intake has settled the command, its answer is no routed one.
  refine Triple.bind (B := fun taken s => (∀ handled, taken = .error handled →
    Came command.cancelEpoch bound parked handled s) ∧
      ∀ id, taken = .ok id → Base command.cancelEpoch bound s) ?_ fun taken => ?_
  · refine Triple.tryCatch ((spec_calmly hBase (calm_intake command)).bind fun id => ?_)
      fun _ _ => ?_
    · cases id with
      | some id =>
          exact Co.triple_done fun s _ hBefore => ⟨fun _ hEq => by simp at hEq, fun _ _ => hBefore⟩
      | none =>
          refine Co.triple_done fun s _ _ => ⟨fun handled hEq => ?_, fun _ hEq => by simp at hEq⟩
          obtain rfl := Except.error.inj hEq
          exact hOther _ (by simp) s
    · refine Co.triple_done fun s _ _ => ⟨fun handled hEq => ?_, fun _ hEq => by simp at hEq⟩
      obtain rfl := Except.error.inj hEq
      exact hOther _ (by simp) s
  · cases taken with
    | error handled => exact Co.triple_done fun s _ hTaken => hTaken.1 handled rfl
    | ok id =>
        refine Triple.pre (A := Base command.cancelEpoch bound) ?_ fun s _ hTaken => hTaken.2 id rfl
        refine (spec_calmly hBase (calm_select _)).bind fun _ => ?_
        cases hKind : command.kind with
        | material =>
            simp only [Submit.message, hKind]
            refine (Co.spec_beside _).bind fun x => ?_
            exact Co.triple_done fun s _ _ => hOther _ (by simp) s
        | own =>
            simp only [Submit.message, hKind]
            -- What is listed before the router is asked stays stored until it answers.
            refine Triple.bind (triple_select (B := Shown command.cancelEpoch bound) hBase
              fun s hBefore => ⟨hBefore, fun x hMem => ?_⟩) fun live => ?_
            · obtain ⟨e, hLive, rfl⟩ := List.mem_map.mp hMem
              rw [s.mem_listLive hLive]
              rfl
            · have hShown : Unbroken command.cancelEpoch parked
                  (Shown command.cancelEpoch bound live) := unbroken_shown live
              have hRoute := (spec_calmly hShown (calm_route cfg command live reply)).and_ends
                (ends_route cfg command live reply)
              refine Triple.bind (B := fun decision => Routed command.cancelEpoch bound decision)
                (hRoute.mono (fun _ _ hA => hA) (fun decision s _ hBoth => ?_) fun _ _ => trivial)
                fun decision => ?_
              · exact ⟨hBoth.1.1, fun x hNamed => hBoth.1.2 x (hBoth.2 decision rfl x hNamed)⟩
              · refine (spec_calmly unbroken_routed (calm_select _)).bind fun _ => ?_
                exact spec_applyRoute cfg me _ live hParked

end Handling

/-! ## No message is lost -/

/-- Somebody owes the message an answer, or the user has been told that nobody
does. -/
def AccountedFor (command : Submit) (decision : RouteDecision) (own : Option ExchangeId)
    (assignment : Assignment) (t : World) : Prop :=
  decision.action = .command ∨
    (∃ x ∈ own, t.Running x) ∨
    (∃ x ∈ own, t.status x = some .opened ∧ t.hasLiveTask x = false) ∨
    assignment.notified = true ∨
    command.cancelEpoch < t.cancelEpoch ∨
    t.preempted = true

/-- Where the router named the exchange: a live run that `_ensure_owner` found was
not a stopped one, a refusal without a notice left the exchange to the sweep,
and the runs of the exchange that ended meanwhile had been told to stop. -/
structure Accountable (command : Submit) (parked : List ExchangeId) (decision : RouteDecision)
    (own : Option ExchangeId) (assignment : Assignment) (t : World) : Prop where
  owner : ∀ x ∈ decision.exchangeId, ∀ w ∈ assignment.looked, OwnerSound command.cancelEpoch x w
  refusal : ∀ x ∈ decision.exchangeId, ∀ w ∈ assignment.refused,
    RefusalSound command.cancelEpoch parked x w
  unwinding : ∀ x ∈ own, ∀ w ∈ assignment.looked, ∀ e ∈ t.inbox.drop w.inbox.length,
    e.exchangeId = some x → e.byCancel = true

theorem message_accounted_for {cfg : RunnerConfig} {me : Nat} {reply : Option RouteArguments}
    {command : Submit} {parked : List ExchangeId} {s t : World} {decision : RouteDecision}
    {own : Option ExchangeId} {assignment : Assignment} (hWell : s.WellFormed)
    (hEpoch : command.cancelEpoch ≤ s.cancelEpoch) (hParked : ∀ x ∈ parked, x < s.nextExchange)
    (hRun : Co.Run (fun s s' => ∃ m, s' = play command.cancelEpoch parked m s)
      (handleSubmit cfg me reply command) s (.ok (.routed decision own assignment)) t)
    (hAccountable : Accountable command parked decision own assignment t) :
    AccountedFor command decision own assignment t := by
  have hSafe := spec_handleSubmit_came cfg me reply command hParked s trivial
    ⟨hWell, hEpoch, Nat.le_refl _⟩
  have hCame := (hSafe.run_beside hRun).2.1 _ rfl decision own assignment rfl
  rcases hCame with hCommand | hNotified | ⟨x, rfl, hBase, hPlaced⟩
  · exact Or.inl hCommand
  · exact Or.inr (Or.inr (Or.inr (Or.inl hNotified)))
  · cases hPlaced with
    | notified hNotified => exact Or.inr (Or.inr (Or.inr (Or.inl hNotified)))
    | preempted hPreempted => exact Or.inr (Or.inr (Or.inr (Or.inr (Or.inr hPreempted))))
    | late hLate => exact Or.inr (Or.inr (Or.inr (Or.inr (Or.inl hLate))))
    | held w hLooked _ hHeld =>
        have hOwner : decision.exchangeId = some x → OwnerSound command.cancelEpoch x w :=
          fun hNamed => hAccountable.owner x hNamed w hLooked
        rcases hHeld hOwner with hRunning | ⟨e, hMem, hOwn, hByItself⟩
        · exact Or.inr (Or.inl ⟨x, rfl, hRunning⟩)
        · have hStopped := hAccountable.unwinding x rfl w hLooked e hMem hOwn
          rw [hStopped] at hByItself
          simp at hByItself
    | unowned w hRefused hUnowned =>
        have hSwept := hUnowned fun hNamed => hAccountable.refusal x hNamed w hRefused
        exact Or.inr (Or.inr (Or.inl ⟨x, rfl, hSwept.status, hSwept.tasks⟩))

instance (command : Submit) (decision : RouteDecision) (own : Option ExchangeId)
    (assignment : Assignment) (t : World) :
    Decidable (AccountedFor command decision own assignment t) :=
  inferInstanceAs (Decidable (_ ∨ _))

instance (cancelEpoch : Nat) (s : World) : Decidable (Late cancelEpoch s) :=
  inferInstanceAs (Decidable (cancelEpoch < s.cancelEpoch))

instance (cancelEpoch : Nat) (x : ExchangeId) (w : World) :
    Decidable (OwnerSound cancelEpoch x w) :=
  inferInstanceAs (Decidable (_ → _))

instance (cancelEpoch : Nat) (parked : List ExchangeId) (x : ExchangeId) (w : World) :
    Decidable (RefusalSound cancelEpoch parked x w) :=
  inferInstanceAs (Decidable (_ ∨ _))

instance (command : Submit) (parked : List ExchangeId) (decision : RouteDecision)
    (own : Option ExchangeId) (assignment : Assignment) (t : World) :
    Decidable (Accountable command parked decision own assignment t) :=
  decidable_of_iff (_ ∧ _ ∧ _)
    ⟨fun h => ⟨h.1, h.2.1, h.2.2⟩, fun h => ⟨h.owner, h.refusal, h.unwinding⟩⟩

/-- A run is answering an exchange that was just opened. -/
def World.answerNew (title : String) (s : World) : World :=
  let opened := s.create title .opened
  let begun := opened.2.addTask .answer (some opened.1.id) title
  (begun.2.writeStatus opened.1.id .inProgress (some (opened.2.look opened.1.id)) none).createProcess
    begun.1 false

theorem World.WellFormed.answerNew {s : World} (hWell : s.WellFormed) (title : String) :
    (s.answerNew title).WellFormed := by
  have hOwn : ∀ x, some s.nextExchange = some x → x < s.nextExchange + 1 := by
    intro x hEq
    obtain rfl := Option.some.inj hEq
    exact Nat.lt_succ_self _
  have hKind : TaskKind.answer = .run → some s.nextExchange = none := fun hEq => by simp at hEq
  exact (((hWell.create title .opened).addTask hOwn hKind).writeRow .inProgress _ _).createProcess
    false ⟨Nat.lt_succ_self _, hOwn, hKind⟩

/-- Two exchanges are being answered. -/
def answering : World := (World.answerNew "plan a trip" {}).answerNew "book a table"

theorem answering_wellFormed : answering.WellFormed :=
  (World.WellFormed.empty.answerNew _).answerNew _

/-- The message continues the first exchange and stops the second. -/
def continueFirst : RouteArguments :=
  { action := "continue", exchangeId := .id 0, cancelExchangeIds := .list [.id 1] }

theorem message_accounted_for_while_run_unwinds :
    ∃ decision own assignment t,
      Co.Run (fun s s' => ∃ m, s' = play 0 [] m s)
        (handleSubmit {} 0 (some continueFirst) { content := "by train" }) answering
        (.ok (.routed decision own assignment)) t ∧
      own = some 0 ∧ t.inbox.map (·.exchangeId) = [some 1] ∧
      AccountedFor { content := "by train" } decision own assignment t := by
  -- the stopped run writes its end and leaves while the message is handled
  let schedule : List (List Meanwhile) := List.replicate 9 [] ++
    [[.finish 1 .cancelled, .terminate 1 .cancelled .nothing false]]
  have hRuns : ∃ r t, Co.Run (fun s s' => ∃ m, s' = play 0 [] m s)
      (handleSubmit {} 0 (some continueFirst) { content := "by train" }) answering r t ∧
      (match r with
        | .ok (.routed decision own assignment) =>
            decide (own = some 0 ∧ t.inbox.map (·.exchangeId) = [some 1] ∧
              Accountable { content := "by train" } [] decision own assignment t)
        | _ => false) = true :=
    Co.Run.exists_of_runWith schedule (by decide)
  obtain ⟨r, t, hRun, hEnd⟩ := hRuns
  split at hEnd
  · rename_i decision own assignment
    obtain ⟨hOwn, hEnded, hAccountable⟩ := of_decide_eq_true hEnd
    exact ⟨decision, own, assignment, t, hRun, hOwn, hEnded,
      message_accounted_for answering_wellFormed (Nat.le_refl _) (by simp) hRun hAccountable⟩
  · simp at hEnd

/-- The message continues an exchange and names it for cancellation too. -/
def continueCancelled : RouteArguments :=
  { action := "continue", exchangeId := .id 0, cancelExchangeIds := .list [.id 0] }

/-- The run of the exchange is told to stop, `_ensure_owner` finds it and is
content, and the exchange is closed. -/
theorem message_lost_to_stopped_run :
    ∃ decision own assignment t,
      Co.Run (fun s s' => ∃ m, s' = play 0 [] m s)
        (handleSubmit {} 0 (some continueCancelled) { content := "by train" }) answering
        (.ok (.routed decision own assignment)) t ∧
      ¬AccountedFor { content := "by train" } decision own assignment t := by
  have hRuns : ∃ r t, Co.Run (fun s s' => ∃ m, s' = play 0 [] m s)
      (handleSubmit {} 0 (some continueCancelled) { content := "by train" }) answering r t ∧
      (match r with
        | .ok (.routed decision own assignment) =>
            decide (AccountedFor { content := "by train" } decision own assignment t)
        | _ => true) = false :=
    Co.Run.exists_of_runWith [] (by decide)
  obtain ⟨r, t, hRun, hEnd⟩ := hRuns
  split at hEnd
  · rename_i decision own assignment
    exact ⟨decision, own, assignment, t, hRun, of_decide_eq_false hEnd⟩
  · simp at hEnd

end Conversation
end OctoForge
