import OctoForge.Coop.Trace
import OctoForge.Conversation.Runner

/-!
# What the steps of the runner change

The frame facts behind the developments about exchanges.  `World.WellFormed` is
kept by every function of the store and of the memory, and a `Quiet` step
changes no status, task, run, counter or log entry.  Notices, renames, the
narrative, the message table and the locks are quiet.  A `Calm` step leaves the
locks alone too, and so do the coroutines made of such steps.
-/

namespace OctoForge
namespace Conversation

open Coop
open Co (Atoms Steps)
open Dialog (ExchangeId MessageId ChatMessage MessageRole MessageKind)

namespace World

variable (s : World) (x y : ExchangeId)

/-! ## Statuses -/

theorem status_updateExchange (f : ExchangeRow → ExchangeRow) :
    (s.updateExchange x f).status y =
      if y = x then (s.row x).map fun row => (f row).status else s.status y := by
  by_cases hSame : y = x
  · subst hSame
    simp [updateExchange, status, Function.comp_def]
  · simp [updateExchange, status, hSame]

/-- Renaming and stamping leave the statuses alone. -/
theorem status_updateExchange_of_same {f : ExchangeRow → ExchangeRow}
    (hSame : ∀ row, (f row).status = row.status) : (s.updateExchange x f).status = s.status := by
  funext y
  rw [status_updateExchange]
  split
  · rename_i hEq
    subst hEq
    simp [status, hSame]
  · rfl

@[simp] theorem status_touch : (s.touch x).status = s.status :=
  s.status_updateExchange_of_same x fun _ => rfl

@[simp] theorem status_setTitle (title : String) : (s.setTitle x title).status = s.status :=
  s.status_updateExchange_of_same x fun _ => rfl

theorem status_writeRow (status : ExchangeStatus) (look : Option Look)
    (f : ExchangeRow → ExchangeRow) :
    (s.writeRow x status look f).status y =
      if y = x then (s.status x).map fun _ => status else s.status y := by
  have hUpdate := s.status_updateExchange x y fun e => { f e with status }
  simpa [writeRow, World.status, Option.map_map, Function.comp_def] using hUpdate

theorem status_create (title : String) (status : ExchangeStatus) :
    (s.create title status).2.status y =
      if y = s.nextExchange then some status else s.status y := by
  by_cases hSame : y = s.nextExchange
  · subst hSame
    simp [create, World.status]
  · simp [create, World.status, hSame]

theorem exchange_eq_some {exchange : Exchange} (hRead : s.exchange x = some exchange) :
    exchange.id = x ∧ s.status x = some exchange.status := by
  simp only [World.exchange, Option.map_eq_some_iff] at hRead
  obtain ⟨row, hRow, rfl⟩ := hRead
  simp [status, hRow]

/-- What is listed is stored, under its own id and status. -/
theorem mem_listLive {e : Exchange} (hMem : e ∈ s.listLive) : s.status e.id = some e.status := by
  simp only [listLive, allExchanges, List.mem_filter, List.mem_filterMap] at hMem
  obtain ⟨⟨id, -, hRead⟩, -⟩ := hMem
  obtain ⟨rfl, hStatus⟩ := s.exchange_eq_some id hRead
  exact hStatus

theorem liveProcessFor_isSome :
    (s.liveProcessFor x).isSome ↔ ∃ p ∈ s.processes, p.exchangeId = some x := by
  simp [liveProcessFor]

/-- A run of the exchange is going that was not told to stop. -/
def Running (s : World) (x : ExchangeId) : Prop :=
  ∃ p ∈ s.processes, p.exchangeId = some x ∧ p.cancelled = false

instance (s : World) (x : ExchangeId) : Decidable (s.Running x) :=
  inferInstanceAs (Decidable (∃ p ∈ s.processes, _))

def NoRun (s : World) (x : ExchangeId) : Prop := ∀ p ∈ s.processes, p.exchangeId ≠ some x

theorem noRun_of_liveProcessFor {s : World} {x : ExchangeId}
    (hNone : ¬(s.liveProcessFor x).isSome) : s.NoRun x :=
  fun p hMem hOwn => hNone ((s.liveProcessFor_isSome x).mpr ⟨p, hMem, hOwn⟩)

/-! ## Foreign keys -/

theorem HasTask.mono {s s' : World} {task : Task} (hTask : s.HasTask task)
    (hTasks : s.nextTask ≤ s'.nextTask) (hExchanges : s.nextExchange ≤ s'.nextExchange) :
    s'.HasTask task where
  id := Nat.lt_of_lt_of_le hTask.id hTasks
  exchange x hOwn := Nat.lt_of_lt_of_le (hTask.exchange x hOwn) hExchanges
  background := hTask.background

theorem hasTask_addTask {s : World} {kind : TaskKind} {own : Option ExchangeId} {title : String}
    (hOwn : ∀ x, own = some x → x < s.nextExchange) (hKind : kind = .run → own = none) :
    (s.addTask kind own title).2.HasTask (s.addTask kind own title).1 :=
  ⟨Nat.lt_succ_self _, hOwn, hKind⟩

namespace WellFormed

theorem empty : ({} : World).WellFormed where
  exchanges _ _ := rfl
  tasks _ _ hTask := by simp at hTask
  processes _ hMem := by simp at hMem

variable {s : World} {x : ExchangeId} (hWell : s.WellFormed)

include hWell

theorem lt_of_stored (hStored : (s.status x).isSome) : x < s.nextExchange := by
  by_contra hBeyond
  rw [hWell.exchanges x (Nat.le_of_not_lt hBeyond)] at hStored
  simp at hStored

/-- What the tables and the runs refer to is what counts. -/
theorem of_same {s' : World} (hStatus : s'.status = s.status)
    (hNext : s'.nextExchange = s.nextExchange) (hTask : s'.task = s.task)
    (hTasks : s'.nextTask = s.nextTask)
    (hRuns : ∀ p ∈ s'.processes, ∃ q ∈ s.processes, p.exchangeId = q.exchangeId ∧ p.task = q.task) :
    s'.WellFormed := by
  refine ⟨?_, fun id task hStored => ?_, fun p hMem => ?_⟩
  · rw [hStatus, hNext]
    exact hWell.exchanges
  · rw [hTask] at hStored
    exact (hWell.tasks id task hStored).mono (Nat.le_of_eq hTasks.symm) (Nat.le_of_eq hNext.symm)
  · obtain ⟨q, hOld, hOwn, hSame⟩ := hRuns p hMem
    rw [hOwn, hSame, hTasks, hNext]
    exact hWell.processes q hOld

theorem writeRow (status : ExchangeStatus) (look : Option Look)
    (f : ExchangeRow → ExchangeRow) : (s.writeRow x status look f).WellFormed := by
  refine ⟨fun y hBeyond => ?_, fun id task hTask => ?_, hWell.processes⟩
  · have hNone : s.status y = none := hWell.exchanges y hBeyond
    rw [status_writeRow]
    split
    · rename_i hEq
      subst hEq
      simp [hNone]
    · exact hNone
  · exact (hWell.tasks id task hTask).mono (Nat.le_refl _) (Nat.le_refl _)

theorem create (title : String) (status : ExchangeStatus) :
    (s.create title status).2.WellFormed := by
  refine ⟨fun y hBeyond => ?_, fun id task hTask => ?_, fun p hMem => ?_⟩
  · have hPast : s.nextExchange + 1 ≤ y := hBeyond
    have hNe : y ≠ s.nextExchange := Nat.ne_of_gt hPast
    rw [status_create, if_neg hNe]
    exact hWell.exchanges y (Nat.le_of_succ_le hPast)
  · exact (hWell.tasks id task hTask).mono (Nat.le_refl _) (Nat.le_succ _)
  · exact ⟨(hWell.processes p hMem).1,
      fun y hOwn => Nat.lt_succ_of_lt ((hWell.processes p hMem).2 y hOwn)⟩

theorem addTask {kind : TaskKind} {own : Option ExchangeId} {title : String}
    (hOwn : ∀ x, own = some x → x < s.nextExchange) (hKind : kind = .run → own = none) :
    (s.addTask kind own title).2.WellFormed := by
  refine ⟨hWell.exchanges, fun id task hTask => ?_, fun p hMem => ?_⟩
  · simp only [World.addTask, Function.update_apply] at hTask
    split at hTask
    · obtain rfl := Option.some.inj hTask
      exact hasTask_addTask hOwn hKind
    · exact (hWell.tasks id task hTask).mono (Nat.le_succ _) (Nat.le_refl _)
  · exact ⟨Nat.lt_succ_of_lt (hWell.processes p hMem).1, (hWell.processes p hMem).2⟩

theorem finishTask (task : TaskId) (status : TaskStatus) :
    (s.finishTask task status).WellFormed := by
  refine ⟨hWell.exchanges, fun id row hTask => ?_, hWell.processes⟩
  simp only [World.finishTask, Function.update_apply] at hTask
  split at hTask
  · obtain ⟨row', hRow', rfl⟩ := Option.map_eq_some_iff.mp hTask
    have hOld := hWell.tasks task row' hRow'
    exact ⟨hOld.id, hOld.exchange, hOld.background⟩
  · exact (hWell.tasks id row hTask).mono (Nat.le_refl _) (Nat.le_refl _)

theorem createProcess {task : Task} (cancelled : Bool) (hTask : s.HasTask task) :
    (s.createProcess task cancelled).WellFormed := by
  refine ⟨hWell.exchanges, fun id row hRow => ?_, fun p hMem => ?_⟩
  · exact (hWell.tasks id row hRow).mono (Nat.le_refl _) (Nat.le_refl _)
  · simp only [World.createProcess, List.mem_append, List.mem_singleton] at hMem
    rcases hMem with hOld | rfl
    · exact hWell.processes p hOld
    · exact ⟨hTask.id, hTask.exchange⟩

/-- Runs may be told to stop, may ask and may leave. -/
theorem of_processes {processes : List Process} {inbox : List Terminated} {cancelEpoch : Nat}
    {notes : List Note}
    (hRuns : ∀ p ∈ processes, ∃ q ∈ s.processes, p.exchangeId = q.exchangeId ∧ p.task = q.task) :
    ({ s with processes, inbox, cancelEpoch, notes } : World).WellFormed :=
  hWell.of_same rfl rfl rfl rfl hRuns

theorem map_processes {f : Process → Process} {cancelEpoch : Nat} {notes : List Note}
    (hSame : ∀ p, (f p).exchangeId = p.exchangeId ∧ (f p).task = p.task) :
    ({ s with processes := s.processes.map f, cancelEpoch, notes } : World).WellFormed := by
  refine hWell.of_processes fun p hMem => ?_
  obtain ⟨q, hOld, rfl⟩ := List.mem_map.mp hMem
  exact ⟨q, hOld, hSame q⟩

theorem cancelProcess (task : TaskId) : (s.cancelProcess task).WellFormed :=
  hWell.map_processes fun p => by split <;> exact ⟨rfl, rfl⟩

theorem handleCancel : s.handleCancel.WellFormed :=
  hWell.map_processes fun p => by split <;> exact ⟨rfl, rfl⟩

theorem terminateProcess (task : TaskId) (status : TaskStatus) (unseen : Unseen)
    (terminal : Option String) (deliveredLive : Bool) :
    (s.terminateProcess task status unseen terminal deliveredLive).WellFormed := by
  unfold World.terminateProcess
  split
  · exact hWell
  · exact hWell.of_processes fun p hMem => ⟨p, List.mem_of_mem_eraseP hMem, rfl, rfl⟩

theorem beginAsk (task : TaskId) : (beginAsk task s).2.WellFormed := by
  unfold Conversation.beginAsk
  split
  · exact hWell
  · exact hWell.map_processes fun p => by split <;> exact ⟨rfl, rfl⟩

end WellFormed

end World

/-! ## Quiet steps -/

/-- Nothing an exchange depends on changes. -/
structure Quiet (s s' : World) : Prop where
  status : s'.status = s.status
  nextExchange : s'.nextExchange = s.nextExchange
  task : s'.task = s.task
  nextTask : s'.nextTask = s.nextTask
  processes : s'.processes = s.processes
  cancelEpoch : s'.cancelEpoch = s.cancelEpoch
  inbox : s'.inbox = s.inbox
  preempted : s'.preempted = s.preempted
  log : s'.log = s.log

/-- Messages that reach their exchange and runs that the limit lets in change
nothing but the notes. -/
def Note.Mere : Note → Prop
  | .attached _ _ | .discounted _ => True
  | _ => False

/-- A quiet step that leaves the locks alone. -/
structure Calm (s s' : World) : Prop extends Quiet s s' where
  actor : s'.actor = s.actor
  spawnLock : s'.spawnLock = s.spawnLock
  gathered : s'.gathered = s.gathered
  notes : ∃ more, s'.notes = s.notes ++ more ∧ ∀ n ∈ more, n.Mere

theorem Quiet.refl (s : World) : Quiet s s :=
  ⟨rfl, rfl, rfl, rfl, rfl, rfl, rfl, rfl, rfl⟩

theorem Calm.refl (s : World) : Calm s s where
  toQuiet := .refl s
  actor := rfl
  spawnLock := rfl
  gathered := rfl
  notes := ⟨[], (List.append_nil _).symm, fun _ hMem => by simp at hMem⟩

/-- A calm step that leaves the rows of the exchanges alone. -/
structure Still (s s' : World) : Prop extends Calm s s' where
  row : s'.row = s.row

theorem Still.refl (s : World) : Still s s := { Calm.refl s with row := rfl }

theorem calm_event (event : ConversationEvent) {s s' : World}
    (hEvent : conversationEvent event s = some s') : Calm s s' := by
  cases event <;> obtain rfl := Option.some.inj hEvent <;> exact { Calm.refl _ with }

theorem quiet_gather (x : ExchangeId) (status : ExchangeStatus) (s : World) :
    Quiet s (s.gather x status) := by
  unfold World.gather
  split
  · exact { Quiet.refl s with }
  · exact { Quiet.refl s with }

theorem quiet_releaseSpawnLock (me : Nat) (s : World) : Quiet s (releaseSpawnLock me s) := by
  unfold releaseSpawnLock
  split
  · exact { Quiet.refl s with }
  · exact { Quiet.refl s with }

theorem Quiet.wellFormed {s s' : World} (hQuiet : Quiet s s') (hWell : s.WellFormed) :
    s'.WellFormed := by
  refine hWell.of_same hQuiet.status hQuiet.nextExchange hQuiet.task hQuiet.nextTask
    fun p hMem => ?_
  rw [hQuiet.processes] at hMem
  exact ⟨p, hMem, rfl, rfl⟩

section Coroutines

variable {α : Type} {P : Protocol World} {me : Nat} {A : World → Prop}

/-- A transaction takes no step when the database does not answer. -/
theorem atoms_transaction {f : World → α × World} (hIdle : ∀ s, P.guarantee me s s)
    (hStep : ∀ s, P.inv s → A s → P.inv (f s).2 ∧ P.guarantee me s (f s).2) :
    Atoms P me A (transaction f) := by
  refine Co.atoms_attempt fun s hInv hA _ => ?_
  dsimp only
  split
  · exact ⟨hInv, hIdle s⟩
  · exact hStep s hInv hA

theorem atoms_transactionOn {x : ExchangeId} {f : World → α × World}
    (hIdle : ∀ s, P.guarantee me s s)
    (hStep : ∀ s, P.inv s → A s → (s.status x).isSome →
      P.inv (f s).2 ∧ P.guarantee me s (f s).2) :
    Atoms P me A (transactionOn x f) := by
  refine Co.atoms_attempt fun s hInv hA _ => ?_
  dsimp only
  split
  · exact ⟨hInv, hIdle s⟩
  · split
    · exact ⟨hInv, hIdle s⟩
    · rename_i hStored
      exact hStep s hInv hA (by simpa [Option.isSome_iff_ne_none] using hStored)

theorem still_transaction {f : World → α × World} (hStill : ∀ s, Still s (f s).2) :
    Steps Still (transaction f) :=
  atoms_transaction Still.refl fun s _ _ => ⟨trivial, hStill s⟩

theorem still_select (f : World → α) : Steps Still (select f) :=
  still_transaction Still.refl

theorem still_read (f : World → α) : Steps Still (Co.read f : Work α) :=
  Co.atoms_read Still.refl

theorem still_modify {f : World → World} (hStill : ∀ s, Still s (f s)) :
    Steps Still (Co.modify f : Work Unit) :=
  Co.atoms_modify fun s _ _ _ => ⟨trivial, hStill s⟩

theorem still_enqueueTerminal (command : Terminated) (s : World) :
    Still s (enqueueTerminal command s) := by
  unfold enqueueTerminal
  split
  · exact .refl s
  · split
    · exact .refl s
    · exact { Still.refl s with }

theorem still_flushDeliveries : Steps Still flushDeliveries :=
  Co.atoms_attempt fun _ _ _ _ => ⟨trivial, { Still.refl _ with }⟩

theorem still_deliverNotice (content : String) (own : Option ExchangeId) :
    Steps Still (deliverNotice content own) :=
  (still_transaction fun s => { Still.refl s with }).bind fun _ =>
    (still_modify (f := World.queueNotice _) fun s => { Still.refl s with }).bind fun _ =>
      still_flushDeliveries

theorem still_rejectForLimit (cfg : RunnerConfig) (message : ChatMessage) :
    Steps Still (rejectForLimit cfg message) :=
  (still_read _).bind fun _ => still_deliverNotice _ none

theorem still_stillOwnsDialog : Steps Still stillOwnsDialog :=
  Atoms.tryCatch (still_select _) fun _ => Co.atoms_done true

theorem still_tariffNoticeOnce (key notice : String) :
    Steps Still (tariffNoticeOnce key notice) := by
  refine Atoms.bind (Co.atoms_atomic fun s _ _ _ => ⟨trivial, ?_⟩) fun silent => ?_
  · dsimp only
    split
    · exact { Still.refl _ with }
    · exact { Still.refl _ with }
  · cases silent with
    | none => exact (still_deliverNotice notice none).bind fun _ => Co.atoms_done _
    | some s => exact Co.atoms_done _

theorem calm_of_still {c : Work α} (hStill : Steps Still c) : Steps Calm c :=
  hStill.atoms fun _ _ _ _ hStep => ⟨trivial, hStep.toCalm⟩

theorem calm_transaction {f : World → α × World} (hCalm : ∀ s, Calm s (f s).2) :
    Steps Calm (transaction f) :=
  atoms_transaction Calm.refl fun s _ _ => ⟨trivial, hCalm s⟩

theorem calm_select (f : World → α) : Steps Calm (select f) :=
  calm_transaction Calm.refl

theorem calm_read (f : World → α) : Steps Calm (Co.read f : Work α) :=
  Co.atoms_read Calm.refl

theorem calm_modify {f : World → World} (hCalm : ∀ s, Calm s (f s)) :
    Steps Calm (Co.modify f : Work Unit) :=
  Co.atoms_modify fun s _ _ _ => ⟨trivial, hCalm s⟩

theorem calm_flushDeliveries : Steps Calm flushDeliveries := calm_of_still still_flushDeliveries

theorem calm_deliverNotice (content : String) (own : Option ExchangeId) :
    Steps Calm (deliverNotice content own) :=
  calm_of_still (still_deliverNotice content own)

theorem calm_rejectForLimit (cfg : RunnerConfig) (message : ChatMessage) :
    Steps Calm (rejectForLimit cfg message) :=
  calm_of_still (still_rejectForLimit cfg message)

theorem calm_setExchange (id : MessageId) (x : ExchangeId) :
    Steps Calm (execute (World.setExchange id x)) :=
  calm_transaction fun s => { Calm.refl s with }

theorem calm_appendNarrative (message : ChatMessage) (stops : Nat) :
    Steps Calm (Co.modify (World.appendNarrative message stops) : Work Unit) := by
  refine calm_modify fun s => { Calm.refl _ with notes := ⟨_, rfl, fun n hMem => ?_⟩ }
  obtain ⟨x, -, rfl⟩ := List.mem_map.mp hMem
  trivial

theorem calm_relabel (collection target : ExchangeId) :
    Steps Calm (Co.atomic (World.relabel collection target) : Work (List MessageId)) := by
  refine Co.atoms_atomic fun s _ _ _ =>
    ⟨trivial, { Calm.refl _ with notes := ⟨_, rfl, fun n hMem => ?_⟩ }⟩
  obtain ⟨m, -, hMoved⟩ := List.mem_filterMap.mp hMem
  cases m with
  | attached x stops =>
      simp only [Note.moved?] at hMoved
      split at hMoved
      · obtain rfl := Option.some.inj hMoved
        trivial
      · simp at hMoved
  | _ => simp [Note.moved?] at hMoved

theorem calm_letIn (cfg : RunnerConfig) (cancelled : List ExchangeId) (s : World) :
    Calm s (letIn cfg cancelled s).2 := by
  unfold letIn
  split
  · exact .refl s
  · refine { Calm.refl _ with notes := ⟨[_], rfl, fun n hMem => ?_⟩ }
    obtain rfl := List.mem_singleton.mp hMem
    trivial

theorem calm_attachMessage (message : ChatMessage) : Steps Calm (attachMessage message) := by
  unfold attachMessage
  split
  · exact calm_setExchange _ _
  · exact Co.atoms_done ()

theorem calm_touch (x : ExchangeId) : Steps Calm (execute (World.touch x)) :=
  calm_transaction fun s => { Calm.refl s with status := s.status_touch x }

theorem calm_retitle (x : ExchangeId) (title : Option String) : Steps Calm (retitle x title) := by
  cases title with
  | none => exact Co.atoms_done ()
  | some title =>
      refine Atoms.tryCatch (calm_transaction fun s => ?_) fun _ => Co.atoms_done ()
      exact { Calm.refl s with status := s.status_setTitle x title }

theorem calm_nudgeStaleExchanges (cfg : RunnerConfig) (current : Option ExchangeId)
    (live : List Exchange) (cancelled : List ExchangeId) :
    Steps Calm (nudgeStaleExchanges cfg current live cancelled) := by
  refine (calm_read _).bind fun now => Atoms.forEach fun exchange _ => ?_
  cases exchange.pendingQuestion with
  | none => exact Co.atoms_done ()
  | some question => exact calm_deliverNotice _ none

theorem calm_route (cfg : RunnerConfig) (command : Submit) (live : List Exchange)
    (reply : Option RouteArguments) : Steps Calm (route cfg command live reply) := by
  refine (calm_read _).bind fun now => ?_
  dsimp only
  split
  · exact Co.atoms_done _
  · exact Co.atoms_done _
  · exact Co.atoms_done _
  · exact (calm_read _).bind fun _ => Co.atoms_done _

theorem calm_intake (command : Submit) : Steps Calm (intake command) := by
  refine Atoms.bind ?_ fun known => ?_
  · cases command.clientMessageId with
    | none => exact Co.atoms_done false
    | some key => exact calm_select _
  · split
    · exact Co.atoms_done none
    · exact (calm_transaction fun s => { Calm.refl s with }).bind fun _ => Co.atoms_done _

theorem calm_stillOwnsDialog : Steps Calm stillOwnsDialog := calm_of_still still_stillOwnsDialog

theorem calm_tariffNoticeOnce (key notice : String) : Steps Calm (tariffNoticeOnce key notice) :=
  calm_of_still (still_tariffNoticeOnce key notice)

end Coroutines

/-! ## Traces -/

section Traces

open Co

variable {α β : Type} {env : World → World → Prop} {s t : World} {steps : List (World × World)}

/-- A transaction and what comes after it, unless the database does not answer. -/
theorem transaction_bind_cases {f : World → α × World} {g : α → Work β}
    {r : Except StoreError β}
    (hTrace : Trace env ((transaction f).bind g) s steps (ended r) t) :
    ∃ u, Relation.ReflTransGen env s u ∧
      ((u.storeDown = false ∧ ∃ rest, steps = (u, (f u).2) :: rest ∧
        Trace env (g (f u).1) (f u).2 rest (ended r) t) ∨
      (u.storeDown = true ∧ steps = [(u, u)] ∧ r = .error .unavailable ∧ t = u)) := by
  obtain ⟨u, hEnv, ⟨value, rest, hValue, hSteps, hRest⟩ | ⟨error, hError, hSteps, hResult, hEnd⟩⟩ :=
    hTrace.attempt_bind_cases
  · refine ⟨u, hEnv, Or.inl ?_⟩
    cases hDown : u.storeDown with
    | true => simp [hDown] at hValue
    | false =>
        simp only [hDown, Bool.false_eq_true, if_false, Except.ok.injEq] at hValue hSteps hRest
        subst hValue
        exact ⟨rfl, rest, hSteps, hRest⟩
  · refine ⟨u, hEnv, Or.inr ?_⟩
    cases hDown : u.storeDown with
    | false => simp [hDown] at hError
    | true =>
        simp only [hDown, if_true, Except.error.injEq] at hError hSteps hEnd
        subst hError
        exact ⟨rfl, hSteps, hResult, hEnd⟩

theorem select_bind_cases {f : World → α} {g : α → Work β} {r : Except StoreError β}
    (hTrace : Trace env ((select f).bind g) s steps (ended r) t) :
    ∃ u, Relation.ReflTransGen env s u ∧
      ((u.storeDown = false ∧ ∃ rest, steps = (u, u) :: rest ∧
        Trace env (g (f u)) u rest (ended r) t) ∨
      (u.storeDown = true ∧ steps = [(u, u)] ∧ r = .error .unavailable ∧ t = u)) :=
  transaction_bind_cases hTrace

theorem transactionOn_bind_cases {x : ExchangeId} {f : World → α × World} {g : α → Work β}
    {r : Except StoreError β}
    (hTrace : Trace env ((transactionOn x f).bind g) s steps (ended r) t) :
    ∃ u, Relation.ReflTransGen env s u ∧
      ((u.storeDown = false ∧ (u.status x).isSome ∧ ∃ rest, steps = (u, (f u).2) :: rest ∧
        Trace env (g (f u).1) (f u).2 rest (ended r) t) ∨
      ∃ error, steps = [(u, u)] ∧ r = .error error ∧ t = u) := by
  obtain ⟨u, hEnv, hCases⟩ := hTrace.attempt_bind_cases
  refine ⟨u, hEnv, ?_⟩
  cases hDown : u.storeDown with
  | true =>
      simp only [hDown, if_true] at hCases
      rcases hCases with ⟨_, _, hValue, -⟩ | ⟨error, -, hRaised⟩
      · simp at hValue
      · exact Or.inr ⟨error, hRaised⟩
  | false =>
      cases hStored : u.status x with
      | none =>
          simp only [hDown, hStored, Option.isNone_none, if_true, Bool.false_eq_true,
            if_false] at hCases
          rcases hCases with ⟨_, _, hValue, -⟩ | ⟨error, -, hRaised⟩
          · simp at hValue
          · exact Or.inr ⟨error, hRaised⟩
      | some status =>
          simp only [hDown, hStored, Option.isNone_some, Bool.false_eq_true, if_false] at hCases
          rcases hCases with ⟨value, rest, hValue, hSteps, hRest⟩ | ⟨error, hError, -⟩
          · obtain rfl := Except.ok.inj hValue
            exact Or.inl ⟨rfl, rfl, rest, hSteps, hRest⟩
          · simp at hError

end Traces

end Conversation
end OctoForge
