import OctoForge.Conversation.Store
import OctoForge.Retention.Reload
import OctoForge.Tariffs.Limits

/-!
# The retention sweep

A sweep goes through four tables, each in a transaction of its own: messages,
exchanges, tasks and the usage ledger.  A task names its exchange by a foreign key,
and the exchanges go first.  A database that checks its keys (PostgreSQL does, SQLite
as it is set up here does not) refuses to delete an exchange that a task still names.
Then the sweep ends there, and the program starts without it.

Times are in milliseconds.
-/

namespace OctoForge
namespace Retention

open Coop
open Conversation (ExchangeStatus TaskStatus)
open Tariffs (UsageRow UserId millisPerDay dayStart rowsSince)

/-! ## The policy -/

structure RetentionPolicy where
  messagesDays : Option Int := none
  exchangesDays : Option Int := none
  tasksDays : Option Int := none
  usageDays : Option Int := none
  deriving DecidableEq, Repr

def RetentionPolicy.enabled (policy : RetentionPolicy) : Bool :=
  [policy.messagesDays, policy.exchangesDays, policy.tasksDays, policy.usageDays].any (·.isSome)

/-- `cutoff`. -/
def cutoff (days : Option Int) (now : Nat) : Option Int :=
  days.map fun days => now - days * millisPerDay

structure RetentionOutcome where
  messages : Nat := 0
  exchanges : Nat := 0
  tasks : Nat := 0
  usage : Nat := 0
  deriving DecidableEq, Repr

/-! ## The tables -/

structure ExchangeRow where
  id : Nat
  dialogId : Nat
  status : ExchangeStatus
  createdAt : Nat
  deriving DecidableEq, Repr

structure TaskRow where
  id : Nat
  dialogId : Nat
  exchangeId : Option Nat := none
  status : TaskStatus := .pending
  createdAt : Nat
  deliveredAt : Option Nat := none
  deriving DecidableEq, Repr

/-- The messages and summaries are those of the dialogs, by their numbers. -/
structure Tables where
  dialogs : List Swept := []
  exchanges : List ExchangeRow := []
  tasks : List TaskRow := []
  usage : List UsageRow := []

inductive SweepError where
  | integrity
  deriving DecidableEq, Repr

/-- `_run`: what is deleted is counted. -/
def deleteWhere {α : Type} (due : α → Bool) (rows : List α) : Nat × List α :=
  (rows.countP due, rows.filter fun row => !due row)

def ExchangeRow.isDue (cutoff : Int) (row : ExchangeRow) : Bool :=
  decide ((row.createdAt : Int) < cutoff) && !row.status.isLive

def TaskRow.isDue (cutoff : Int) (row : TaskRow) : Bool :=
  decide ((row.createdAt : Int) < cutoff) && row.deliveredAt.isSome

def usageIsDue (cutoff : Int) (row : UsageRow) : Bool := decide ((row.createdAt : Int) < cutoff)

namespace Tables

/-- A task names an exchange that is to go. -/
def holdsDue (cutoff : Int) (t : Tables) : Bool :=
  t.tasks.any fun task => t.exchanges.any fun row =>
    row.isDue cutoff && task.exchangeId = some row.id

/-! ## The sweep -/

/-- `_sweep_messages`. -/
def sweepMessages (limit : Option Int) (t : Tables) : Nat × Tables :=
  match limit with
  | none => (0, t)
  | some cutoff =>
      ((t.dialogs.map fun dialog => dialog.archive.rows.countP (dialog.isDue cutoff)).sum,
        { t with dialogs := t.dialogs.map (Swept.sweepMessages cutoff) })

/-- `_sweep_exchanges`. -/
def sweepExchanges (checksKeys : Bool) (limit : Option Int) (t : Tables) :
    Except SweepError (Nat × Tables) :=
  match limit with
  | none => .ok (0, t)
  | some cutoff =>
      if checksKeys && t.holdsDue cutoff then .error .integrity
      else
        let (count, exchanges) := deleteWhere (·.isDue cutoff) t.exchanges
        .ok (count, { t with exchanges })

/-- `_sweep_tasks`. -/
def sweepTasks (limit : Option Int) (t : Tables) : Nat × Tables :=
  match limit with
  | none => (0, t)
  | some cutoff =>
      let (count, tasks) := deleteWhere (·.isDue cutoff) t.tasks
      (count, { t with tasks })

/-- `_sweep_usage`. -/
def sweepUsage (limit : Option Int) (t : Tables) : Nat × Tables :=
  match limit with
  | none => (0, t)
  | some cutoff =>
      let (count, usage) := deleteWhere (usageIsDue cutoff) t.usage
      (count, { t with usage })

/-- `sweep`. -/
def sweep (checksKeys : Bool) (policy : RetentionPolicy) (now : Nat) (t : Tables) :
    Except SweepError RetentionOutcome × Tables :=
  if policy.enabled then
    let (messages, t) := t.sweepMessages (cutoff policy.messagesDays now)
    match t.sweepExchanges checksKeys (cutoff policy.exchangesDays now) with
    | .error error => (.error error, t)
    | .ok (exchanges, t) =>
        let (tasks, t) := t.sweepTasks (cutoff policy.tasksDays now)
        let (usage, t) := t.sweepUsage (cutoff policy.usageDays now)
        (.ok { messages, exchanges, tasks, usage }, t)
  else (.ok {}, t)

/-! ## What else happens to the tables -/

/-- `list_live`, of every dialog. -/
def listLive (t : Tables) : List ExchangeRow := t.exchanges.filter (·.status.isLive)

/-- The condition of `list_for_recovery`. -/
def needsRecovery (task : TaskRow) : Bool :=
  task.status.isActive ||
    ((task.status = .done || task.status = .failed) && task.deliveredAt.isNone)

/-- `list_for_recovery`, of every dialog. -/
def listForRecovery (t : Tables) : List TaskRow := t.tasks.filter needsRecovery

end Tables

/-- What the program does to these tables.  A row is identified by its id. -/
inductive Change where
  | create (row : ExchangeRow)
  | setStatus (exchange : Nat) (status : ExchangeStatus)
  | add (task : TaskRow)
  /-- `_finish`. -/
  | finish (task : Nat) (status : TaskStatus) (deliveredAt : Option Nat)
  | markDelivered (task : Nat) (now : Nat)
  | deleteTask (task : Nat)
  | openDialog
  /-- The messages and summaries of a dialog change. -/
  | write (dialog : Nat) (after : Swept)
  | deleteDialog (dialog : Nat)
  | record (row : UsageRow)
  | sweep (now : Nat)

namespace Tables

def setExchange (id : Nat) (f : ExchangeRow → ExchangeRow) (t : Tables) : Tables :=
  { t with exchanges := t.exchanges.map fun row => if row.id = id then f row else row }

def setTask (id : Nat) (f : TaskRow → TaskRow) (t : Tables) : Tables :=
  { t with tasks := t.tasks.map fun task => if task.id = id then f task else task }

/-- The console deletes the tasks of a dialog before its exchanges. -/
def deleteDialog (dialog : Nat) (t : Tables) : Tables where
  dialogs := t.dialogs.set dialog {}
  tasks := t.tasks.filter fun task => task.dialogId ≠ dialog
  exchanges := t.exchanges.filter fun row => row.dialogId ≠ dialog
  usage := t.usage

end Tables

/-- A new row has an id of its own.  A sweep that fails is logged. -/
def change (checksKeys : Bool) (policy : RetentionPolicy) (t : Tables) : Change → Option Tables
  | .create row =>
      if t.exchanges.any (·.id = row.id) then none
      else some { t with exchanges := t.exchanges ++ [row] }
  | .setStatus exchange status => some (t.setExchange exchange fun row => { row with status })
  | .add task =>
      if t.tasks.any (·.id = task.id) then none
      else if checksKeys && !task.exchangeId.all fun id => t.exchanges.any (·.id = id) then none
      else some { t with tasks := t.tasks ++ [task] }
  | .finish task status deliveredAt =>
      some (t.setTask task fun row =>
        { row with status, deliveredAt := deliveredAt.or row.deliveredAt })
  | .markDelivered task now => some (t.setTask task fun row => { row with deliveredAt := some now })
  | .deleteTask task => some { t with tasks := t.tasks.filter fun row => row.id ≠ task }
  | .openDialog => some { t with dialogs := t.dialogs ++ [{}] }
  | .write dialog after => some { t with dialogs := t.dialogs.set dialog after }
  | .deleteDialog dialog =>
      if checksKeys && (t.tasks.any fun task => task.dialogId ≠ dialog &&
          t.exchanges.any fun row => row.dialogId = dialog && task.exchangeId = some row.id) then
        none
      else some (t.deleteDialog dialog)
  | .record row => some { t with usage := t.usage ++ [row] }
  | .sweep now => some (t.sweep checksKeys policy now).2

def swept (checksKeys : Bool) (policy : RetentionPolicy) : Machine Tables Change where
  step := change checksKeys policy

/-! ## When a sweep fails -/

namespace Tables

@[simp] theorem exchanges_sweepMessages (limit : Option Int) (t : Tables) :
    (t.sweepMessages limit).2.exchanges = t.exchanges := by cases limit <;> rfl

@[simp] theorem tasks_sweepMessages (limit : Option Int) (t : Tables) :
    (t.sweepMessages limit).2.tasks = t.tasks := by cases limit <;> rfl

@[simp] theorem usage_sweepMessages (limit : Option Int) (t : Tables) :
    (t.sweepMessages limit).2.usage = t.usage := by cases limit <;> rfl

theorem holdsDue_iff {cutoff : Int} {t : Tables} :
    t.holdsDue cutoff = true ↔ ∃ task ∈ t.tasks, ∃ row ∈ t.exchanges,
      row.isDue cutoff = true ∧ task.exchangeId = some row.id := by
  simp [holdsDue]

theorem holdsDue_sweepMessages (cutoff : Int) (limit : Option Int) (t : Tables) :
    (t.sweepMessages limit).2.holdsDue cutoff = t.holdsDue cutoff := by
  rw [holdsDue, tasks_sweepMessages, exchanges_sweepMessages, holdsDue]

theorem enabled_of_exchanges {policy : RetentionPolicy} {now : Nat} {limit : Int}
    (hCutoff : cutoff policy.exchangesDays now = some limit) : policy.enabled = true := by
  cases hDays : policy.exchangesDays with
  | none => simp [cutoff, hDays] at hCutoff
  | some days => simp [RetentionPolicy.enabled, hDays]

/-- A sweep that comes to an exchange some task names has deleted messages, and ends. -/
theorem sweep_of_holdsDue {policy : RetentionPolicy} {now : Nat} {limit : Int} {t : Tables}
    (hCutoff : cutoff policy.exchangesDays now = some limit) (hHolds : t.holdsDue limit = true) :
    t.sweep true policy now =
      (.error .integrity, (t.sweepMessages (cutoff policy.messagesDays now)).2) := by
  have hRefused : (t.sweepMessages (cutoff policy.messagesDays now)).2.sweepExchanges true
      (cutoff policy.exchangesDays now) = .error .integrity := by
    rw [hCutoff, sweepExchanges, holdsDue_sweepMessages, hHolds]
    rfl
  rw [sweep, if_pos (enabled_of_exchanges hCutoff)]
  simp only [hRefused]

/-- That is the only way for it to fail. -/
theorem sweep_error {checksKeys : Bool} {policy : RetentionPolicy} {now : Nat} {t : Tables}
    (hFails : (t.sweep checksKeys policy now).1 = .error .integrity) :
    checksKeys = true ∧ ∃ limit, cutoff policy.exchangesDays now = some limit ∧
      t.holdsDue limit = true := by
  unfold sweep at hFails
  split at hFails
  · cases hRest : (t.sweepMessages (cutoff policy.messagesDays now)).2.sweepExchanges checksKeys
        (cutoff policy.exchangesDays now) with
    | ok rest =>
        simp only [hRest] at hFails
        exact absurd hFails (by simp)
    | error error =>
        unfold sweepExchanges at hRest
        cases hCutoff : cutoff policy.exchangesDays now with
        | none => simp [hCutoff] at hRest
        | some limit =>
            simp only [hCutoff] at hRest
            split at hRest
            · rename_i hHolds
              rw [Bool.and_eq_true, holdsDue_sweepMessages] at hHolds
              exact ⟨hHolds.1, limit, rfl, hHolds.2⟩
            · exact absurd hRest (by simp)
  · exact absurd hFails (by simp)

end Tables

/-! ## One failure, and all that follow -/

/-- The change is none that lets the exchange go, and no sweep of an earlier time. -/
def Change.spares (now : Nat) (row : ExchangeRow) (task : TaskRow) : Change → Prop
  | .setStatus exchange status => exchange = row.id → status.isLive = false
  | .deleteTask other => other ≠ task.id
  | .deleteDialog dialog => dialog ≠ row.dialogId ∧ dialog ≠ task.dialogId
  | .sweep later => now ≤ later
  | _ => True

/-- The exchange is settled, and the task names it. -/
structure Blocks (row : ExchangeRow) (task : TaskRow) (t : Tables) : Prop where
  settled : ∃ status : ExchangeStatus, status.isLive = false ∧ { row with status } ∈ t.exchanges
  named : ∃ held ∈ t.tasks, held.id = task.id ∧ held.dialogId = task.dialogId ∧
    held.exchangeId = some row.id

theorem cutoff_mono {days : Option Int} {now later : Nat} {limit : Int} (hLater : now ≤ later)
    (hCutoff : cutoff days now = some limit) :
    ∃ limit', cutoff days later = some limit' ∧ limit ≤ limit' := by
  obtain ⟨days, rfl, rfl⟩ := Option.map_eq_some_iff.mp hCutoff
  exact ⟨_, rfl, Int.sub_le_sub_right (Int.ofNat_le.mpr hLater) _⟩

theorem Blocks.holdsDue {row : ExchangeRow} {task : TaskRow} {t : Tables} {limit : Int}
    (hBlocks : Blocks row task t) (hOld : (row.createdAt : Int) < limit) :
    t.holdsDue limit = true := by
  obtain ⟨status, hSettled, hRow⟩ := hBlocks.settled
  obtain ⟨held, hTask, -, -, hNames⟩ := hBlocks.named
  refine Tables.holdsDue_iff.mpr ⟨held, hTask, _, hRow, ?_, hNames⟩
  simp [ExchangeRow.isDue, hOld, hSettled]

theorem Blocks.sweep {row : ExchangeRow} {task : TaskRow} {t : Tables} {policy : RetentionPolicy}
    {now later : Nat} {limit : Int} (hBlocks : Blocks row task t)
    (hCutoff : cutoff policy.exchangesDays now = some limit) (hOld : (row.createdAt : Int) < limit)
    (hLater : now ≤ later) :
    t.sweep true policy later =
      (.error .integrity, (t.sweepMessages (cutoff policy.messagesDays later)).2) := by
  obtain ⟨limit', hCutoff', hLimit⟩ := cutoff_mono hLater hCutoff
  exact Tables.sweep_of_holdsDue hCutoff' (hBlocks.holdsDue (Int.lt_of_lt_of_le hOld hLimit))

/-- A task keeps its id, its dialog and its exchange. -/
theorem Blocks.setTask {row : ExchangeRow} {task : TaskRow} {t : Tables} (id : Nat)
    {f : TaskRow → TaskRow} (hBlocks : Blocks row task t)
    (hSame : ∀ x, (f x).id = x.id ∧ (f x).dialogId = x.dialogId ∧ (f x).exchangeId = x.exchangeId) :
    Blocks row task (t.setTask id f) := by
  refine ⟨hBlocks.settled, ?_⟩
  obtain ⟨held, hTask, hId, hDialog, hNames⟩ := hBlocks.named
  refine ⟨_, List.mem_map.mpr ⟨held, hTask, rfl⟩, ?_⟩
  split
  · obtain ⟨hSameId, hSameDialog, hSameExchange⟩ := hSame held
    exact ⟨hSameId.trans hId, hSameDialog.trans hDialog, hSameExchange.trans hNames⟩
  · exact ⟨hId, hDialog, hNames⟩

theorem Blocks.setStatus {row : ExchangeRow} {task : TaskRow} {t : Tables} {exchange : Nat}
    {status : ExchangeStatus} (hBlocks : Blocks row task t)
    (hSpares : exchange = row.id → status.isLive = false) :
    Blocks row task (t.setExchange exchange fun row => { row with status }) := by
  refine ⟨?_, hBlocks.named⟩
  obtain ⟨before, hSettled, hRow⟩ := hBlocks.settled
  by_cases hThis : row.id = exchange
  · exact ⟨status, hSpares hThis.symm, List.mem_map.mpr ⟨_, hRow, if_pos hThis⟩⟩
  · exact ⟨before, hSettled, List.mem_map.mpr ⟨_, hRow, if_neg hThis⟩⟩

theorem Blocks.change {row : ExchangeRow} {task : TaskRow} {t t' : Tables}
    {policy : RetentionPolicy} {now : Nat} {limit : Int} {m : Change} (hBlocks : Blocks row task t)
    (hCutoff : cutoff policy.exchangesDays now = some limit) (hOld : (row.createdAt : Int) < limit)
    (hSpares : m.spares now row task) (hChange : change true policy t m = some t') :
    Blocks row task t' := by
  obtain ⟨status, hSettled, hRow⟩ := hBlocks.settled
  obtain ⟨held, hTask, hId, hDialog, hNames⟩ := hBlocks.named
  cases m with
  | create new =>
      simp only [Retention.change, Option.ite_none_left_eq_some, Option.some.injEq] at hChange
      obtain ⟨-, rfl⟩ := hChange
      exact ⟨⟨status, hSettled, List.mem_append_left _ hRow⟩, hBlocks.named⟩
  | setStatus exchange status =>
      obtain rfl := Option.some.inj hChange
      exact hBlocks.setStatus hSpares
  | add new =>
      simp only [Retention.change, Option.ite_none_left_eq_some, Option.some.injEq] at hChange
      obtain ⟨-, -, rfl⟩ := hChange
      exact ⟨hBlocks.settled, held, List.mem_append_left _ hTask, hId, hDialog, hNames⟩
  | finish id status deliveredAt =>
      obtain rfl := Option.some.inj hChange
      exact hBlocks.setTask id fun _ => ⟨rfl, rfl, rfl⟩
  | markDelivered id now =>
      obtain rfl := Option.some.inj hChange
      exact hBlocks.setTask id fun _ => ⟨rfl, rfl, rfl⟩
  | deleteTask id =>
      obtain rfl := Option.some.inj hChange
      have hOther : held.id ≠ id := fun hEq => hSpares (hEq.symm.trans hId)
      exact ⟨hBlocks.settled, held, List.mem_filter.mpr ⟨hTask, by simpa using hOther⟩, hId,
        hDialog, hNames⟩
  | openDialog =>
      obtain rfl := Option.some.inj hChange
      exact ⟨hBlocks.settled, hBlocks.named⟩
  | write dialog after =>
      obtain rfl := Option.some.inj hChange
      exact ⟨hBlocks.settled, hBlocks.named⟩
  | deleteDialog dialog =>
      simp only [Retention.change, Option.ite_none_left_eq_some, Option.some.injEq] at hChange
      obtain ⟨-, rfl⟩ := hChange
      refine ⟨⟨status, hSettled, List.mem_filter.mpr ⟨hRow, ?_⟩⟩, held,
        List.mem_filter.mpr ⟨hTask, ?_⟩, hId, hDialog, hNames⟩
      · simpa using Ne.symm hSpares.1
      · simpa [hDialog] using Ne.symm hSpares.2
  | record new =>
      obtain rfl := Option.some.inj hChange
      exact ⟨hBlocks.settled, hBlocks.named⟩
  | sweep later =>
      obtain rfl := Option.some.inj hChange
      rw [hBlocks.sweep hCutoff hOld hSpares]
      exact ⟨by simpa using hBlocks.settled, by simpa using hBlocks.named⟩

/-- A sweep that fails does so because of a settled exchange and a task that names it, and every
later sweep fails, too, and takes no exchange, no task and no usage event, until somebody opens
the exchange again or deletes the task or a dialog of theirs. -/
theorem sweeps_stay_blocked {checksKeys : Bool} {policy : RetentionPolicy} {now : Nat} {t : Tables}
    (hFails : (t.sweep checksKeys policy now).1 = .error .integrity) :
    ∃ row ∈ t.exchanges, ∃ task ∈ t.tasks, task.exchangeId = some row.id ∧
      ∀ moves q, (∀ m ∈ moves, m.spares now row task) →
        (swept checksKeys policy).run moves t = some q → ∀ later, now ≤ later →
          (q.sweep checksKeys policy later).1 = .error .integrity ∧
          (q.sweep checksKeys policy later).2.exchanges = q.exchanges ∧
          (q.sweep checksKeys policy later).2.tasks = q.tasks ∧
          (q.sweep checksKeys policy later).2.usage = q.usage := by
  obtain ⟨rfl, limit, hCutoff, hHolds⟩ := Tables.sweep_error hFails
  obtain ⟨task, hTask, row, hRow, hDue, hNames⟩ := Tables.holdsDue_iff.mp hHolds
  obtain ⟨hOld, hSettled⟩ : (row.createdAt : Int) < limit ∧ row.status.isLive = false := by
    simpa [ExchangeRow.isDue] using hDue
  refine ⟨row, hRow, task, hTask, hNames, fun moves q hSpares hRun later hLater => ?_⟩
  have hBlocks : Blocks row task q := by
    have hStart : Blocks row task t := ⟨⟨row.status, hSettled, hRow⟩, task, hTask, rfl, rfl, hNames⟩
    clear hFails hHolds hRow hTask hNames
    induction moves generalizing t with
    | nil =>
        obtain rfl := Option.some.inj hRun
        exact hStart
    | cons m rest ih =>
        obtain ⟨t', hStep, hRest⟩ := Machine.run_cons.mp hRun
        exact ih (fun m' hMem => hSpares m' (List.mem_cons_of_mem m hMem)) hRest
          (hStart.change hCutoff hOld (hSpares m List.mem_cons_self) hStep)
  rw [hBlocks.sweep hCutoff hOld hLater]
  exact ⟨rfl, Tables.exchanges_sweepMessages _ q, Tables.tasks_sweepMessages _ q,
    Tables.usage_sweepMessages _ q⟩

/-! ## What is read after a sweep -/

/-- The program adds tasks that have yet to run, ends a task for good, and delivers only what has
ended. -/
def Change.inOrder (t : Tables) : Change → Bool
  | .add task => task.status = .pending && task.deliveredAt.isNone
  | .finish _ status _ => !status.isActive
  | .markDelivered task _ => t.tasks.all fun row => row.id ≠ task || !row.status.isActive
  | _ => true

/-- What has been delivered has ended. -/
def EndsFirst (t : Tables) : Prop :=
  ∀ task ∈ t.tasks, task.deliveredAt.isSome = true → task.status.isActive = false

theorem EndsFirst.of_subset {t t' : Tables} (hEnds : EndsFirst t)
    (hSubset : ∀ task ∈ t'.tasks, task ∈ t.tasks) : EndsFirst t' :=
  fun task hTask hDelivered => hEnds task (hSubset task hTask) hDelivered

/-- Nobody reads a difference: a process that starts, the router, the recovery, and the limits of
the days from `since` on. -/
structure SameReads (since : Nat) (t t' : Tables) : Prop where
  hot : (t'.dialogs.map fun dialog => listHotSlice dialog.archive) =
    t.dialogs.map fun dialog => listHotSlice dialog.archive
  live : t'.listLive = t.listLive
  recovery : t'.listForRecovery = t.listForRecovery
  spent : ∀ (user : UserId) (day : Nat), since ≤ day →
    rowsSince t'.usage user day = rowsSince t.usage user day

theorem SameReads.refl (since : Nat) (t : Tables) : SameReads since t t :=
  ⟨rfl, rfl, rfl, fun _ _ _ => rfl⟩

theorem SameReads.trans {since : Nat} {t t' t'' : Tables} (hFirst : SameReads since t t')
    (hSecond : SameReads since t' t'') : SameReads since t t'' :=
  ⟨hSecond.hot.trans hFirst.hot, hSecond.live.trans hFirst.live,
    hSecond.recovery.trans hFirst.recovery,
    fun user day hDay => (hSecond.spent user day hDay).trans (hFirst.spent user day hDay)⟩

/-- Deleting rows that a query does not select changes nothing for it. -/
theorem filter_deleteWhere {α : Type} {due asked : α → Bool} {rows : List α}
    (hApart : ∀ row ∈ rows, asked row = true → due row = false) :
    (deleteWhere due rows).2.filter asked = rows.filter asked := by
  rw [deleteWhere, List.filter_filter]
  refine List.filter_congr fun row hMem => ?_
  cases hAsked : asked row with
  | false => rfl
  | true => rw [hApart row hMem hAsked]; rfl

theorem sameReads_sweepMessages (since : Nat) (limit : Option Int) (t : Tables) :
    SameReads since t (t.sweepMessages limit).2 := by
  cases limit with
  | none => exact SameReads.refl since t
  | some cutoff =>
      refine ⟨?_, rfl, rfl, fun _ _ _ => rfl⟩
      simp only [Tables.sweepMessages, List.map_map]
      exact List.map_congr_left fun dialog _ => past_sweepMessages cutoff dialog

theorem sameReads_sweepExchanges {checksKeys : Bool} {limit : Option Int} {t : Tables}
    {swept : Nat × Tables} (since : Nat) (hSwept : t.sweepExchanges checksKeys limit = .ok swept) :
    SameReads since t swept.2 ∧ swept.2.tasks = t.tasks := by
  cases limit with
  | none =>
      obtain rfl := Except.ok.inj hSwept
      exact ⟨SameReads.refl since t, rfl⟩
  | some cutoff =>
      unfold Tables.sweepExchanges at hSwept
      simp only at hSwept
      split at hSwept
      · exact absurd hSwept (by simp)
      · obtain rfl := Except.ok.inj hSwept
        refine ⟨⟨rfl, filter_deleteWhere fun row _ hLive => ?_, rfl, fun _ _ _ => rfl⟩, rfl⟩
        simp [ExchangeRow.isDue, hLive]

theorem sameReads_sweepTasks (since : Nat) (limit : Option Int) {t : Tables} (hEnds : EndsFirst t) :
    SameReads since t (t.sweepTasks limit).2 := by
  cases limit with
  | none => exact SameReads.refl since t
  | some cutoff =>
      refine ⟨rfl, rfl, filter_deleteWhere fun task hTask hAsked => ?_, fun _ _ _ => rfl⟩
      cases hDelivered : task.deliveredAt.isSome with
      | false => simp [TaskRow.isDue, hDelivered]
      | true =>
          have hEnded := hEnds task hTask hDelivered
          have hSome : task.deliveredAt.isNone = false := by
            rw [← Option.not_isSome, hDelivered]
            rfl
          simp [Tables.needsRecovery, hEnded, hSome] at hAsked

theorem sameReads_sweepUsage {since : Nat} {limit : Option Int} (t : Tables)
    (hLimit : ∀ cutoff, limit = some cutoff → cutoff ≤ (since : Int)) :
    SameReads since t (t.sweepUsage limit).2 := by
  cases limit with
  | none => exact SameReads.refl since t
  | some cutoff =>
      refine ⟨rfl, rfl, rfl, fun user day hDay => filter_deleteWhere fun row _ hAsked => ?_⟩
      have hCutoff := hLimit cutoff rfl
      have hRow : day ≤ row.createdAt := by simpa using (Bool.and_eq_true_iff.mp hAsked).2
      simp only [usageIsDue, decide_eq_false_iff_not]
      omega

/-- A sweep that keeps a day of the ledger at least does not reach into the day it is run on. -/
theorem cutoff_le_dayStart {days : Option Int} {now : Nat} {limit : Int}
    (hDays : ∀ d, days = some d → 1 ≤ d) (hCutoff : cutoff days now = some limit) :
    limit ≤ (dayStart now : Int) := by
  obtain ⟨d, rfl, rfl⟩ := Option.map_eq_some_iff.mp hCutoff
  have hOne := hDays d rfl
  simp only [dayStart, millisPerDay]
  omega

theorem sameReads_sweep {checksKeys : Bool} {policy : RetentionPolicy} {now : Nat} {t : Tables}
    (hDays : ∀ d, policy.usageDays = some d → 1 ≤ d) (hEnds : EndsFirst t) :
    SameReads (dayStart now) t (t.sweep checksKeys policy now).2 := by
  have hMessages := sameReads_sweepMessages (dayStart now) (cutoff policy.messagesDays now) t
  unfold Tables.sweep
  split
  · cases hRest : (t.sweepMessages (cutoff policy.messagesDays now)).2.sweepExchanges checksKeys
        (cutoff policy.exchangesDays now) with
    | error error =>
        simp only [hRest]
        exact hMessages
    | ok rest =>
        simp only [hRest]
        obtain ⟨hExchanges, hSame⟩ := sameReads_sweepExchanges (dayStart now) hRest
        have hStill : EndsFirst rest.2 := by
          rw [EndsFirst, hSame, Tables.tasks_sweepMessages]
          exact hEnds
        have hTasks := sameReads_sweepTasks (dayStart now) (cutoff policy.tasksDays now) hStill
        have hLimit : ∀ limit, cutoff policy.usageDays now = some limit →
            limit ≤ (dayStart now : Int) := fun _ hCutoff => cutoff_le_dayStart hDays hCutoff
        have hUsage :=
          sameReads_sweepUsage (rest.2.sweepTasks (cutoff policy.tasksDays now)).2 hLimit
        exact ((hMessages.trans hExchanges).trans hTasks).trans hUsage
  · exact SameReads.refl _ t

/-- A sweep only takes tasks away. -/
theorem tasks_of_sweep {checksKeys : Bool} {policy : RetentionPolicy} {now : Nat} {t : Tables}
    {task : TaskRow} (hTask : task ∈ (t.sweep checksKeys policy now).2.tasks) : task ∈ t.tasks := by
  unfold Tables.sweep at hTask
  split at hTask
  · cases hRest : (t.sweepMessages (cutoff policy.messagesDays now)).2.sweepExchanges checksKeys
        (cutoff policy.exchangesDays now) with
    | error error => simpa [hRest] using hTask
    | ok rest =>
        simp only [hRest] at hTask
        have hSame := (sameReads_sweepExchanges 0 hRest).2
        rw [Tables.tasks_sweepMessages] at hSame
        rw [← hSame]
        have hUsage : ∀ limit t', (Tables.sweepUsage limit t').2.tasks = t'.tasks := by
          intro limit t'
          cases limit <;> rfl
        rw [hUsage] at hTask
        cases hLimit : cutoff policy.tasksDays now with
        | none => simpa [Tables.sweepTasks, hLimit] using hTask
        | some limit =>
            simp only [Tables.sweepTasks, hLimit, deleteWhere] at hTask
            exact (List.mem_filter.mp hTask).1
  · exact hTask

theorem EndsFirst.setTask {t : Tables} {id : Nat} {f : TaskRow → TaskRow} (hEnds : EndsFirst t)
    (hTask : ∀ task ∈ t.tasks, task.id = id → (f task).deliveredAt.isSome = true →
      (f task).status.isActive = false) : EndsFirst (t.setTask id f) := by
  intro task hMem hDelivered
  obtain ⟨before, hBefore, rfl⟩ := List.mem_map.mp hMem
  by_cases hThis : before.id = id
  · rw [if_pos hThis] at hDelivered ⊢
    exact hTask before hBefore hThis hDelivered
  · rw [if_neg hThis] at hDelivered ⊢
    exact hEnds before hBefore hDelivered

theorem EndsFirst.change {checksKeys : Bool} {policy : RetentionPolicy} {t t' : Tables} {m : Change}
    (hEnds : EndsFirst t) (hOrder : Change.inOrder t m = true)
    (hChange : change checksKeys policy t m = some t') : EndsFirst t' := by
  cases m with
  | add task =>
      simp only [Retention.change, Option.ite_none_left_eq_some, Option.some.injEq] at hChange
      obtain ⟨-, -, rfl⟩ := hChange
      intro x hMem hDelivered
      rcases List.mem_append.mp hMem with hOld | hNew
      · exact hEnds x hOld hDelivered
      · obtain rfl := List.mem_singleton.mp hNew
        have hNone : x.deliveredAt.isNone = true := (Bool.and_eq_true_iff.mp hOrder).2
        rw [Option.isNone_iff_eq_none.mp hNone] at hDelivered
        simp at hDelivered
  | finish id status deliveredAt =>
      obtain rfl := Option.some.inj hChange
      exact hEnds.setTask fun _ _ _ _ => by simpa [Change.inOrder] using hOrder
  | markDelivered id now =>
      obtain rfl := Option.some.inj hChange
      refine hEnds.setTask fun task hMem hId _ => ?_
      have hEach := List.all_eq_true.mp hOrder task hMem
      simpa [hId] using hEach
  | deleteTask id =>
      obtain rfl := Option.some.inj hChange
      exact hEnds.of_subset fun task hMem => (List.mem_filter.mp hMem).1
  | deleteDialog dialog =>
      simp only [Retention.change, Option.ite_none_left_eq_some, Option.some.injEq] at hChange
      obtain ⟨-, rfl⟩ := hChange
      exact hEnds.of_subset fun task hMem => (List.mem_filter.mp hMem).1
  | sweep now =>
      obtain rfl := Option.some.inj hChange
      exact hEnds.of_subset fun task hMem => tasks_of_sweep hMem
  | create row =>
      simp only [Retention.change, Option.ite_none_left_eq_some, Option.some.injEq] at hChange
      obtain ⟨-, rfl⟩ := hChange
      exact hEnds
  | setStatus exchange status =>
      obtain rfl := Option.some.inj hChange
      exact hEnds
  | openDialog =>
      obtain rfl := Option.some.inj hChange
      exact hEnds
  | write dialog after =>
      obtain rfl := Option.some.inj hChange
      exact hEnds
  | record row =>
      obtain rfl := Option.some.inj hChange
      exact hEnds

def aDay : RetentionPolicy :=
  { messagesDays := some 1, exchangesDays := some 1, tasksDays := some 1, usageDays := some 1 }

/-- A question that was answered and delivered at once. -/
def answered : List Change :=
  [.create ⟨0, 0, .opened, 0⟩,
    .add { id := 0, dialogId := 0, exchangeId := some 0, createdAt := 0 },
    .finish 0 .done (some 0), .setStatus 0 .answered]

theorem sweeps_stay_blocked_answered :
    ∃ t, (swept true aDay).run answered {} = some t ∧
      (t.sweep true aDay (2 * millisPerDay)).1 = .error .integrity ∧
      ∃ row ∈ t.exchanges, ∃ task ∈ t.tasks, task.exchangeId = some row.id ∧
        ∀ moves q, (∀ m ∈ moves, m.spares (2 * millisPerDay) row task) →
          (swept true aDay).run moves t = some q → ∀ later, 2 * millisPerDay ≤ later →
            (q.sweep true aDay later).1 = .error .integrity ∧
            (q.sweep true aDay later).2.exchanges = q.exchanges ∧
            (q.sweep true aDay later).2.tasks = q.tasks ∧
            (q.sweep true aDay later).2.usage = q.usage := by
  have hSeen : (((swept true aDay).run answered {}).map fun t =>
      decide ((t.sweep true aDay (2 * millisPerDay)).1 = .error .integrity)) = some true := by
    decide
  obtain ⟨t, hRun, hFails⟩ := Option.map_eq_some_iff.mp hSeen
  have hFails := of_decide_eq_true hFails
  exact ⟨t, hRun, hFails, sweeps_stay_blocked hFails⟩

end Retention
end OctoForge
