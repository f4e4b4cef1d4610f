import Mathlib.Data.List.Nodup
import OctoForge.Lifecycle.Stamps

/-!
# Answers are not repeated

A message that carries a task id stands in the log only beside a finished task,
because the row and the message land in one commit; so no task with a message is
ever returned as orphaned, and a result that was not delivered is returned until
it is stamped.  This holds in every state, whatever happens.

That a restart meets the table as the read of it left it, and that a finished row
changes no more except for its stamp, rests on one coroutine at most being
entitled to finish a task: the pump that streams it, or the recovery that found
it orphaned.  A recovery that reads the table when the runner has already started
a run of its own takes that run for an orphan, and then two of them are; the
statements about restarts are about runs in which no recovery does (`Clean`).

A protocol step is `Orderly`: it says which rows and processes a coroutine may
touch, and every assertion a coroutine carries over an await is one that the
orderly steps of others leave alone.
-/

namespace OctoForge
namespace Lifecycle

open Coop
open Dialog (ExchangeId MessageRole)
open Conversation (TaskId TaskKind TaskStatus restartLimitError)
open Outbox (Hub TaskRow StoreError Terminated blank)

/-! ## What the runner knows -/

namespace Service

/-- The task has a row that is pending or running. -/
def Active (task : TaskId) (s : Service) : Prop :=
  ∃ row, s.tasks task = some row ∧ row.status.isActive = true

def HasProcess (task : TaskId) (s : Service) : Prop := ∃ p ∈ s.processes, p.taskId = task

/-- The process of the task is streamed by the coroutine. -/
def Mine (me : Nat) (task : TaskId) (s : Service) : Prop :=
  ∃ p ∈ s.processes, p.taskId = task ∧ p.pump = some me

/-- This runner added the task to the table. -/
def StartedHere (task : TaskId) (s : Service) : Prop := task ∈ s.started.map (·.1)

/-- The coroutine is the recovery, and the task one that a previous runner left. -/
def Inherited (me : Nat) (task : TaskId) (s : Service) : Prop :=
  s.recovery = some me ∧ ¬s.HasProcess task ∧ ¬s.StartedHere task

/-- Every recovery that read the table met no task of its own runner as an
orphan. -/
def Clean (s : Service) : Prop := .listed false ∉ s.trail

instance (s : Service) : Decidable s.Clean := inferInstanceAs (Decidable (_ ∉ _))

/-- A message of a task stands in the log only beside its finished row. -/
def Logs (s : Service) : Prop :=
  ∀ m ∈ s.messages, ∀ task, m.taskId = some task →
    ∃ row, s.tasks task = some row ∧ row.status.isActive = false

/-- What the processes of a runner have to do with the table. -/
structure Coherent (s : Service) : Prop where
  single : (s.processes.map (·.taskId)).Nodup
  /-- A process that nobody streams yet stands for an active row. -/
  idle : ∀ p ∈ s.processes, p.pump = none → s.Active p.taskId
  known : ∀ p ∈ s.processes, p.taskId < s.nextTask
  startedKnown : ∀ entry ∈ s.started, entry.1 < s.nextTask
  startedOnce : (s.started.map (·.1)).Nodup
  unbuilt : s.recovery = none → s.processes = []
  restarted : ∀ task logged, .restarted task logged ∈ s.trail → logged = false

structure Inv (s : Service) : Prop where
  logs : s.Logs
  bounded : ∀ task row, s.tasks task = some row → task < s.nextTask
  coherent : s.Clean → s.Coherent

/-- What one step of a coroutine may do to the table and the processes. -/
structure Orderly (me : Nat) (s s' : Service) : Prop where
  /-- A row changes at the hands of who is entitled to finish it, or it is new,
  or it is stamped. -/
  rows : ∀ task, (s.Active task ∧ (s.Mine me task ∨ s.Inherited me task)) ∨
    s.tasks task = none ∨ s'.tasks task = s.tasks task ∨
    ∃ row, s.tasks task = some row ∧ s'.tasks task = some { row with delivered := true }
  /-- A process is created by who started the task, or by the recovery. -/
  created : ∀ p ∈ s'.processes, p ∈ s.processes ∨
    (∃ old ∈ s.processes, old.taskId = p.taskId ∧ old.pump = none) ∨
    (p.taskId, me) ∈ s.started ∨ s.Inherited me p.taskId
  /-- A process that another coroutine streams stays. -/
  pumped : ∀ p ∈ s.processes, ∀ other, p.pump = some other → other ≠ me → p ∈ s'.processes
  started : s.started ⊆ s'.started
  startedNew : ∀ entry ∈ s'.started, entry ∈ s.started ∨ s.nextTask ≤ entry.1
  recovery : ∀ other, s.recovery = some other → s'.recovery = some other

/-- A step that leaves the processes alone and at most stamps rows. -/
structure Aside (s s' : Service) : Prop where
  rows : Stamped s.tasks s'.tasks
  messages : s'.messages = s.messages
  nextTask : s'.nextTask = s.nextTask
  recovery : s'.recovery = s.recovery
  processes : s'.processes = s.processes
  started : s'.started = s.started
  trail : s'.trail = s.trail

variable {s s' : Service} {me : Nat} {task : TaskId}

theorem Aside.refl (s : Service) : Aside s s :=
  ⟨Stamped.refl _, rfl, rfl, rfl, rfl, rfl, rfl⟩

theorem Aside.orderly (hAside : Aside s s') (me : Nat) : Orderly me s s' where
  rows task := Or.inr (Or.inr (hAside.rows task))
  created p hMem := Or.inl (hAside.processes ▸ hMem)
  pumped p hMem _ _ _ := hAside.processes ▸ hMem
  started := by rw [hAside.started]; exact List.Subset.refl _
  startedNew entry hMem := Or.inl (hAside.started ▸ hMem)
  recovery other hOther := hAside.recovery.trans hOther

/-- A stamp does not change the status of a row. -/
theorem Aside.active_iff (hAside : Aside s s') : s'.Active task ↔ s.Active task := by
  unfold Active
  rcases hAside.rows task with hEq | ⟨row, hRow, hRow'⟩
  · rw [hEq]
  · simp [hRow, hRow']

theorem Aside.inv (hAside : Aside s s') (hInv : s.Inv) : s'.Inv := by
  refine ⟨?_, ?_, ?_⟩
  · intro m hMem task hTask
    rw [hAside.messages] at hMem
    obtain ⟨row, hRow, hDone⟩ := hInv.logs m hMem task hTask
    rcases hAside.rows task with hEq | ⟨other, hOther, hStamped⟩
    · exact ⟨row, hEq.trans hRow, hDone⟩
    · obtain rfl := Option.some.inj (hOther.symm.trans hRow)
      exact ⟨_, hStamped, hDone⟩
  · intro task row hRow
    rw [hAside.nextTask]
    rcases hAside.rows task with hEq | ⟨other, hOther, -⟩
    · exact hInv.bounded task row (hEq.symm.trans hRow)
    · exact hInv.bounded task other hOther
  · intro hClean
    have hCoherent := hInv.coherent (by simpa [Clean, hAside.trail] using hClean)
    refine ⟨?_, ?_, ?_, ?_, ?_, ?_, ?_⟩
    · rw [hAside.processes]
      exact hCoherent.single
    · intro p hMem hIdle
      rw [hAside.processes] at hMem
      exact hAside.active_iff.mpr (hCoherent.idle p hMem hIdle)
    · rw [hAside.processes, hAside.nextTask]
      exact hCoherent.known
    · rw [hAside.started, hAside.nextTask]
      exact hCoherent.startedKnown
    · rw [hAside.started]
      exact hCoherent.startedOnce
    · rw [hAside.recovery, hAside.processes]
      exact hCoherent.unbuilt
    · rw [hAside.trail]
      exact hCoherent.restarted

theorem Clean.of_prefix (hClean : s'.Clean) (hPrefix : s.trail <+: s'.trail) : s.Clean :=
  fun hMem => hClean (hPrefix.subset hMem)

/-! ### What a coroutine knows over an await -/

/-- The pump of the task has not finalized it yet. -/
def Pumping (me : Nat) (task : TaskId) (s : Service) : Prop := s.Mine me task ∧ s.Active task

/-- The coroutine has added the task and is about to create its process. -/
def Starting (me : Nat) (task : TaskId) (s : Service) : Prop :=
  s.recovery.isSome = true ∧ s.Active task ∧ (task, me) ∈ s.started ∧ ¬s.HasProcess task

/-- The recovery is about to read the table. -/
def Built (me : Nat) (s : Service) : Prop :=
  s.recovery = some me ∧ ∀ p ∈ s.processes, s.StartedHere p.taskId

/-- The recovery has these tasks before it. -/
def Owed (me : Nat) (tasks : List TaskId) (s : Service) : Prop :=
  ∀ task ∈ tasks, s.Active task ∧ s.Inherited me task

section Others

variable {other : Nat}

theorem Orderly.startedHere (hOrderly : Orderly other s s') (hKnown : task < s.nextTask) :
    s'.StartedHere task ↔ s.StartedHere task := by
  constructor
  · intro hStarted
    obtain ⟨entry, hMem, rfl⟩ := List.mem_map.mp hStarted
    rcases hOrderly.startedNew entry hMem with hOld | hNew
    · exact List.mem_map_of_mem hOld
    · exact absurd hKnown (Nat.not_lt_of_le hNew)
  · intro hStarted
    obtain ⟨entry, hMem, rfl⟩ := List.mem_map.mp hStarted
    exact List.mem_map_of_mem (hOrderly.started hMem)

/-- A row that the stepping coroutine is not entitled to finish stays active. -/
theorem Orderly.active (hOrderly : Orderly other s s')
    (hNot : ¬(s.Mine other task ∨ s.Inherited other task)) (hActive : s.Active task) :
    s'.Active task := by
  obtain ⟨row, hRow, hStatus⟩ := hActive
  rcases hOrderly.rows task with ⟨-, hEntitled⟩ | hNone | hEq | ⟨row', hRow', hStamped⟩
  · exact absurd hEntitled hNot
  · rw [hRow] at hNone
    exact absurd hNone (by simp)
  · exact ⟨row, hEq.trans hRow, hStatus⟩
  · obtain rfl := Option.some.inj (hRow'.symm.trans hRow)
    exact ⟨_, hStamped, hStatus⟩

/-- A task without a process gets one from who started it or from the
recovery. -/
theorem Orderly.hasProcess (hOrderly : Orderly other s s') (hNone : ¬s.HasProcess task)
    (hNot : (task, other) ∉ s.started ∧ ¬s.Inherited other task) : ¬s'.HasProcess task := by
  rintro ⟨p, hMem, rfl⟩
  rcases hOrderly.created p hMem with hOld | ⟨old, hOld, hTask, -⟩ | hStarted | hInherited
  · exact hNone ⟨p, hOld, rfl⟩
  · exact hNone ⟨old, hOld, hTask⟩
  · exact hNot.1 hStarted
  · exact hNot.2 hInherited

theorem Mine.unique (hCoherent : s.Coherent) (hMine : s.Mine me task) (hOther : s.Mine other task) :
    other = me := by
  obtain ⟨p, hMem, hTask, hPump⟩ := hMine
  obtain ⟨p', hMem', hTask', hPump'⟩ := hOther
  obtain rfl := List.inj_on_of_nodup_map hCoherent.single hMem hMem' (hTask.trans hTask'.symm)
  rw [hPump] at hPump'
  exact (Option.some.inj hPump').symm

theorem Mine.hasProcess (hMine : s.Mine me task) : s.HasProcess task := by
  obtain ⟨p, hMem, hTask, -⟩ := hMine
  exact ⟨p, hMem, hTask⟩

theorem Mine.kept (hOrderly : Orderly other s s') (hOther : other ≠ me) (hMine : s.Mine me task) :
    s'.Mine me task := by
  obtain ⟨p, hMem, hTask, hPump⟩ := hMine
  exact ⟨p, hOrderly.pumped p hMem me hPump hOther.symm, hTask, hPump⟩

theorem Pumping.kept (hCoherent : s.Coherent) (hOrderly : Orderly other s s') (hOther : other ≠ me)
    (hPumping : s.Pumping me task) : s'.Pumping me task := by
  refine ⟨hPumping.1.kept hOrderly hOther, hOrderly.active ?_ hPumping.2⟩
  rintro (hMine | hInherited)
  · exact hOther (hPumping.1.unique hCoherent hMine)
  · exact hInherited.2.1 hPumping.1.hasProcess

theorem started_unique (hCoherent : s.Coherent) (hMine : (task, me) ∈ s.started)
    (hOther : (task, other) ∈ s.started) : other = me := by
  have hEq := List.inj_on_of_nodup_map hCoherent.startedOnce hMine hOther rfl
  exact (congrArg Prod.snd hEq).symm

theorem startedHere_of_mem (hMem : (task, me) ∈ s.started) : s.StartedHere task :=
  List.mem_map_of_mem (f := fun entry => entry.1) hMem

theorem Starting.kept (hCoherent : s.Coherent) (hOrderly : Orderly other s s')
    (hOther : other ≠ me) (hStarting : s.Starting me task) : s'.Starting me task := by
  obtain ⟨hBuilt, hActive, hStarted, hNone⟩ := hStarting
  have hNot : ¬s.Inherited other task := fun hInherited =>
    hInherited.2.2 (startedHere_of_mem hStarted)
  refine ⟨?_, hOrderly.active ?_ hActive, hOrderly.started hStarted, hOrderly.hasProcess hNone ?_⟩
  · obtain ⟨first, hFirst⟩ := Option.isSome_iff_exists.mp hBuilt
    rw [hOrderly.recovery first hFirst]
    rfl
  · rintro (hMine | hInherited)
    · exact hNone hMine.hasProcess
    · exact hNot hInherited
  · exact ⟨fun hMem => hOther (started_unique hCoherent hStarted hMem), hNot⟩

theorem Built.kept (hOrderly : Orderly other s s') (hOther : other ≠ me) (hBuilt : s.Built me) :
    s'.Built me := by
  refine ⟨hOrderly.recovery me hBuilt.1, fun p hMem => ?_⟩
  have hSubset : s.StartedHere p.taskId → s'.StartedHere p.taskId := fun hStarted => by
    obtain ⟨entry, hEntry, hTask⟩ := List.mem_map.mp hStarted
    exact List.mem_map.mpr ⟨entry, hOrderly.started hEntry, hTask⟩
  rcases hOrderly.created p hMem with hOld | ⟨old, hOld, hTask, -⟩ | hStarted | hInherited
  · exact hSubset (hBuilt.2 p hOld)
  · exact hSubset (hTask ▸ hBuilt.2 old hOld)
  · exact hSubset (startedHere_of_mem hStarted)
  · exact absurd (Option.some.inj (hInherited.1.symm.trans hBuilt.1)) hOther

theorem Owed.kept {tasks : List TaskId} (hInv : s.Inv) (hOrderly : Orderly other s s')
    (hOther : other ≠ me) (hOwed : s.Owed me tasks) : s'.Owed me tasks := by
  intro task hMem
  obtain ⟨hActive, hRecovery, hNone, hStarted⟩ := hOwed task hMem
  have hKnown : task < s.nextTask := hActive.elim fun row hRow => hInv.bounded task row hRow.1
  have hNot : ¬s.Inherited other task := fun hInherited =>
    hOther (Option.some.inj (hInherited.1.symm.trans hRecovery))
  refine ⟨hOrderly.active ?_ hActive, hOrderly.recovery me hRecovery,
    hOrderly.hasProcess hNone ?_, fun hNew => hStarted ((hOrderly.startedHere hKnown).mp hNew)⟩
  · rintro (hMine | hInherited)
    · exact hNone hMine.hasProcess
    · exact hNot hInherited
  · exact ⟨fun hMem' => hStarted (startedHere_of_mem hMem'), hNot⟩

end Others

end Service

/-- Coroutines only add to the notes, and as long as the recoveries are clean
their steps are orderly. -/
def protocol : Protocol Service where
  inv := Service.Inv
  guarantee me s s' := s.trail <+: s'.trail ∧ (s'.Clean → s.Orderly me s')
  env := Service.Aside

section Protocol

variable {me : Nat}

/-- The orderly steps of others leave the assertion alone. -/
def Lasting (me : Nat) (A : Service → Prop) : Prop :=
  ∀ s s' other, other ≠ me → s.Inv → s.Coherent → s.Orderly other s' → A s → A s'

theorem Lasting.aside {A : Service → Prop} (hLasting : Lasting me A) {s s' : Service}
    (hInv : s.Inv) (hAside : s.Aside s') (hA : s.Clean → A s) (hClean : s'.Clean) : A s' := by
  have hBefore : s.Clean := hClean.of_prefix (hAside.trail ▸ List.prefix_refl _)
  exact hLasting s s' (me + 1) (Nat.succ_ne_self me) hInv (hInv.coherent hBefore)
    (hAside.orderly _) (hA hBefore)

/-- It is known over an await. -/
theorem Lasting.stable {A : Service → Prop} (hLasting : Lasting me A) :
    protocol.Stable me fun s => s.Inv ∧ (s.Clean → A s) := by
  intro s s' hBoth hRely
  refine ⟨hRely.1, fun hClean => ?_⟩
  obtain ⟨-, ⟨other, hOther, hPrefix, hOrderly⟩ | hAside⟩ := hRely
  · have hBefore := hClean.of_prefix hPrefix
    exact hLasting s s' other hOther hBoth.1 (hBoth.1.coherent hBefore) (hOrderly hClean)
      (hBoth.2 hBefore)
  · exact hLasting.aside hBoth.1 hAside hBoth.2 hClean

theorem lasting_true : Lasting me fun _ => True := fun _ _ _ _ _ _ _ _ => trivial

theorem lasting_pumping (task : TaskId) : Lasting me (Service.Pumping me task) :=
  fun _ _ _ hOther _ hCoherent hOrderly hPumping => hPumping.kept hCoherent hOrderly hOther

theorem lasting_mine (task : TaskId) : Lasting me (Service.Mine me task) :=
  fun _ _ _ hOther _ _ hOrderly hMine => hMine.kept hOrderly hOther

theorem lasting_starting (task : TaskId) : Lasting me (Service.Starting me task) :=
  fun _ _ _ hOther _ hCoherent hOrderly hStarting => hStarting.kept hCoherent hOrderly hOther

theorem lasting_built : Lasting me (Service.Built me) :=
  fun _ _ _ hOther _ _ hOrderly hBuilt => hBuilt.kept hOrderly hOther

theorem lasting_owed (tasks : List TaskId) : Lasting me (Service.Owed me tasks) :=
  fun _ _ _ hOther hInv _ hOrderly hOwed => hOwed.kept hInv hOrderly hOther

theorem lasting_recovery : Lasting me fun s => s.recovery.isSome = true := by
  intro s s' other _ _ _ hOrderly hBuilt
  obtain ⟨first, hFirst⟩ := Option.isSome_iff_exists.mp hBuilt
  rw [hOrderly.recovery first hFirst]
  rfl

/-! ### The steps -/

/-- A step of the protocol, as far as a coroutine has to account for it. -/
def Steady (me : Nat) (s s' : Service) : Prop := s'.Inv ∧ protocol.guarantee me s s'

theorem steady_aside {s s' : Service} (hInv : s.Inv) (hAside : s.Aside s') : Steady me s s' :=
  ⟨hAside.inv hInv, hAside.trail ▸ List.prefix_refl _, fun _ => hAside.orderly me⟩

/-- The finishing write of who is entitled to it, with the messages of its unit
of work. -/
theorem steady_finish {s s' : Service} {task : TaskId} {row row' : TaskRow}
    {rows : List MessageRow} (hInv : s.Inv) (hRow : s.tasks task = some row)
    (hDone : row'.status.isActive = false)
    (hRows : ∀ m ∈ rows, m.taskId = none ∨ m.taskId = some task)
    (hEntitled : s.Clean → s.Active task ∧ (s.Mine me task ∨ s.Inherited me task))
    (hTasks : s'.tasks = Function.update s.tasks task (some row'))
    (hMessages : s'.messages = s.messages ++ rows) (hNext : s'.nextTask = s.nextTask)
    (hRecovery : s'.recovery = s.recovery) (hProcesses : s'.processes = s.processes)
    (hStarted : s'.started = s.started) (hTrail : s'.trail = s.trail) : Steady me s s' := by
  have hSelf : s'.tasks task = some row' := by rw [hTasks, Function.update_self]
  have hElse : ∀ other, other ≠ task → s'.tasks other = s.tasks other := by
    intro other hOther
    rw [hTasks, Function.update_of_ne hOther]
  refine ⟨⟨?_, ?_, ?_⟩, hTrail ▸ List.prefix_refl _, ?_⟩
  · intro m hMem other hTask
    rw [hMessages] at hMem
    -- A message of the task is stored in the unit of work that ends it.
    rcases List.mem_append.mp hMem with hOld | hNew
    · obtain ⟨old, hOld', hStatus⟩ := hInv.logs m hOld other hTask
      by_cases hOther : other = task
      · subst hOther
        exact ⟨row', hSelf, hDone⟩
      · exact ⟨old, (hElse other hOther).trans hOld', hStatus⟩
    · rcases hRows m hNew with hNone | hSome
      · rw [hNone] at hTask
        exact absurd hTask (by simp)
      · obtain rfl := Option.some.inj (hSome.symm.trans hTask)
        exact ⟨row', hSelf, hDone⟩
  · intro other row'' hRow''
    rw [hNext]
    by_cases hOther : other = task
    · subst hOther
      exact hInv.bounded other row hRow
    · exact hInv.bounded other row'' ((hElse other hOther).symm.trans hRow'')
  · intro hClean
    have hBefore : s.Clean := by simpa [Service.Clean, hTrail] using hClean
    have hCoherent := hInv.coherent hBefore
    have hEntitled' := (hEntitled hBefore).2
    refine ⟨hProcesses ▸ hCoherent.single, ?_, ?_, ?_, hStarted ▸ hCoherent.startedOnce, ?_,
      hTrail ▸ hCoherent.restarted⟩
    · intro p hMem hIdle
      rw [hProcesses] at hMem
      by_cases hOther : p.taskId = task
      · -- an idle process of this task would leave nobody entitled to finish it
        rcases hEntitled' with hMine | hInherited
        · obtain ⟨q, hq, hTask, hPump⟩ := hMine
          obtain rfl := List.inj_on_of_nodup_map hCoherent.single hMem hq (hOther.trans hTask.symm)
          rw [hIdle] at hPump
          exact absurd hPump (by simp)
        · exact absurd ⟨p, hMem, hOther⟩ hInherited.2.1
      · obtain ⟨old, hOld, hStatus⟩ := hCoherent.idle p hMem hIdle
        exact ⟨old, (hElse _ hOther).trans hOld, hStatus⟩
    · rw [hProcesses, hNext]
      exact hCoherent.known
    · rw [hStarted, hNext]
      exact hCoherent.startedKnown
    · rw [hRecovery, hProcesses]
      exact hCoherent.unbuilt
  · intro hClean
    have hBefore : s.Clean := by simpa [Service.Clean, hTrail] using hClean
    refine ⟨?_, ?_, ?_, ?_, ?_, ?_⟩
    · intro other
      by_cases hOther : other = task
      · subst hOther
        exact Or.inl (hEntitled hBefore)
      · exact Or.inr (Or.inr (Or.inl (hElse other hOther)))
    · exact fun p hMem => Or.inl (hProcesses ▸ hMem)
    · exact fun p hMem _ _ _ => hProcesses ▸ hMem
    · rw [hStarted]
      exact List.Subset.refl _
    · exact fun entry hMem => Or.inl (hStarted ▸ hMem)
    · exact fun other hOther => hRecovery.trans hOther

/-- A step that does not touch the tables. -/
theorem steady_tables {s s' : Service} (hInv : s.Inv) (hTasks : s'.tasks = s.tasks)
    (hMessages : s'.messages = s.messages) (hNext : s'.nextTask = s.nextTask)
    (hPrefix : s.trail <+: s'.trail)
    (hStep : s'.Clean → s.Coherent → s'.Coherent ∧ s.Orderly me s') : Steady me s s' := by
  have hBefore : s'.Clean → s.Coherent := fun hClean => hInv.coherent (hClean.of_prefix hPrefix)
  refine ⟨⟨?_, ?_, fun hClean => (hStep hClean (hBefore hClean)).1⟩, hPrefix,
    fun hClean => (hStep hClean (hBefore hClean)).2⟩
  · rw [Service.Logs, hMessages, hTasks]
    exact hInv.logs
  · rw [hTasks, hNext]
    exact hInv.bounded

/-- The row of a new run. -/
theorem steady_prepare {s : Service} (row : TaskRow) (hInv : s.Inv) :
    Steady me s { s.setTask s.nextTask row with
      nextTask := s.nextTask + 1, started := s.started ++ [(s.nextTask, me)] } := by
  let s' : Service := { s.setTask s.nextTask row with
    nextTask := s.nextTask + 1, started := s.started ++ [(s.nextTask, me)] }
  have hElse : ∀ other, other ≠ s.nextTask → s'.tasks other = s.tasks other :=
    fun other hOther => Function.update_of_ne hOther ..
  -- The number of the new row has never been used.
  have hNew : s.tasks s.nextTask = none := by
    cases hRow : s.tasks s.nextTask with
    | none => rfl
    | some old => exact absurd (hInv.bounded _ old hRow) (Nat.lt_irrefl _)
  have hOld : ∀ other old, s.tasks other = some old → s'.tasks other = some old := by
    intro other old hRow
    refine (hElse other ?_).trans hRow
    rintro rfl
    rw [hNew] at hRow
    exact absurd hRow (by simp)
  refine ⟨⟨?_, ?_, ?_⟩, List.prefix_refl _, ?_⟩
  · intro m hMem other hTask
    obtain ⟨old, hRow, hDone⟩ := hInv.logs m hMem other hTask
    exact ⟨old, hOld other old hRow, hDone⟩
  · intro other old hRow
    show other < s.nextTask + 1
    by_cases hOther : other = s.nextTask
    · exact Nat.lt_succ_of_le (Nat.le_of_eq hOther)
    · exact Nat.lt_succ_of_lt (hInv.bounded other old ((hElse other hOther).symm.trans hRow))
  · intro hClean
    have hCoherent := hInv.coherent hClean
    refine ⟨hCoherent.single, ?_, ?_, ?_, ?_, hCoherent.unbuilt, hCoherent.restarted⟩
    · intro p hMem hIdle
      obtain ⟨old, hRow, hActive⟩ := hCoherent.idle p hMem hIdle
      exact ⟨old, hOld _ old hRow, hActive⟩
    · exact fun p hMem => Nat.lt_succ_of_lt (hCoherent.known p hMem)
    · intro entry hMem
      rcases List.mem_append.mp hMem with hBefore | hLast
      · exact Nat.lt_succ_of_lt (hCoherent.startedKnown entry hBefore)
      · obtain rfl := List.mem_singleton.mp hLast
        exact Nat.lt_succ_self _
    · show ((s.started ++ [(s.nextTask, me)]).map (·.1)).Nodup
      rw [List.map_append, List.nodup_append]
      refine ⟨hCoherent.startedOnce, List.nodup_singleton _, ?_⟩
      intro task hTask other hOther hEq
      obtain ⟨entry, hEntry, rfl⟩ := List.mem_map.mp hTask
      have hLt := hCoherent.startedKnown entry hEntry
      have hLast : other = s.nextTask := by simpa using hOther
      exact absurd hLt (by rw [hEq, hLast]; exact Nat.lt_irrefl _)
  · intro _
    refine ⟨?_, fun p hMem => Or.inl hMem, fun p hMem _ _ _ => hMem, List.subset_append_left _ _,
      ?_, fun _ hOther => hOther⟩
    · intro other
      by_cases hOther : other = s.nextTask
      · exact Or.inr (Or.inl (hOther ▸ hNew))
      · exact Or.inr (Or.inr (Or.inl (hElse other hOther)))
    · intro entry hMem
      rcases List.mem_append.mp hMem with hBefore | hLast
      · exact Or.inl hBefore
      · obtain rfl := List.mem_singleton.mp hLast
        exact Or.inr (Nat.le_refl _)

/-- A process for an active task that has none, by who started the task or by the
recovery. -/
theorem steady_create {s : Service} {process : Process} {notes : List Note} (hInv : s.Inv)
    (hIdle : process.pump = none)
    (hNotes : ∀ note ∈ notes, note = .restarted process.taskId (s.logged process.taskId))
    (hRight : s.Clean → s.recovery.isSome = true ∧ s.Active process.taskId ∧
      ¬s.HasProcess process.taskId ∧
      ((process.taskId, me) ∈ s.started ∨ s.Inherited me process.taskId)) :
    Steady me s { s.createProcess process with trail := s.trail ++ notes } := by
  refine steady_tables hInv rfl rfl rfl (List.prefix_append _ _) fun hClean hCoherent => ?_
  obtain ⟨hBuilt, hActive, hNone, hWho⟩ := hRight (hClean.of_prefix (List.prefix_append _ _))
  have hProcesses : (s.createProcess process).processes = s.processes ++ [process] := by
    have hAll : s.processes.filter (·.taskId ≠ process.taskId) = s.processes := by
      refine List.filter_eq_self.mpr fun p hMem => ?_
      simpa using fun hTask => hNone ⟨p, hMem, hTask⟩
    simp only [Service.createProcess, hAll]
  have hMemNew : ∀ p, p ∈ (s.createProcess process).processes ↔ p ∈ s.processes ∨ p = process := by
    intro p
    rw [hProcesses, List.mem_append, List.mem_singleton]
  refine ⟨⟨?_, ?_, ?_, hCoherent.startedKnown, hCoherent.startedOnce, ?_, ?_⟩, ?_⟩
  · show ((s.createProcess process).processes.map (·.taskId)).Nodup
    rw [hProcesses, List.map_append, List.nodup_append]
    refine ⟨hCoherent.single, List.nodup_singleton _, ?_⟩
    intro task hTask other hOther hEq
    obtain ⟨p, hMem, rfl⟩ := List.mem_map.mp hTask
    have hLast : other = process.taskId := by simpa using hOther
    exact hNone ⟨p, hMem, hEq.trans hLast⟩
  · intro p hMem hPump
    rcases (hMemNew p).mp hMem with hOld | rfl
    · exact hCoherent.idle p hOld hPump
    · exact hActive
  · intro p hMem
    rcases (hMemNew p).mp hMem with hOld | rfl
    · exact hCoherent.known p hOld
    · exact hActive.elim fun row hRow => hInv.bounded _ row hRow.1
  · intro hUnbuilt
    have hNever : s.recovery = none := hUnbuilt
    rw [hNever] at hBuilt
    exact absurd hBuilt (by simp)
  · intro task logged hMem
    rcases List.mem_append.mp hMem with hOld | hNew
    · exact hCoherent.restarted task logged hOld
    · obtain ⟨-, rfl⟩ : task = process.taskId ∧ logged = s.logged process.taskId := by
        simpa using hNotes _ hNew
      -- a message of the task would stand beside a finished row
      refine Bool.eq_false_iff.mpr fun hLogged => ?_
      obtain ⟨m, hLog, hTask⟩ := List.any_eq_true.mp hLogged
      obtain ⟨row, hRow, hDone⟩ := hInv.logs m hLog process.taskId (by simpa using hTask)
      obtain ⟨row', hRow', hRunning⟩ := hActive
      obtain rfl := Option.some.inj (hRow.symm.trans hRow')
      rw [hDone] at hRunning
      exact absurd hRunning (by simp)
  · refine ⟨fun _ => Or.inr (Or.inr (Or.inl rfl)), ?_, ?_, List.Subset.refl _,
      fun _ hMem => Or.inl hMem, fun _ hOther => hOther⟩
    · intro p hMem
      rcases (hMemNew p).mp hMem with hOld | rfl
      · exact Or.inl hOld
      · exact Or.inr (Or.inr hWho)
    · exact fun p hMem _ _ _ => (hMemNew p).mpr (Or.inl hMem)

/-- The pump of an idle process starts. -/
theorem steady_claim {s : Service} {task : TaskId} (hInv : s.Inv) :
    Steady me s { s with processes := s.processes.map fun p =>
      if p.taskId = task ∧ p.pump = none then { p with pump := some me } else p } := by
  have hTaskId : ∀ p : Process,
      (if p.taskId = task ∧ p.pump = none then { p with pump := some me } else p).taskId =
        p.taskId := by
    intro p
    split <;> rfl
  refine steady_tables hInv rfl rfl rfl (List.prefix_refl _) fun hClean hCoherent => ⟨⟨?_, ?_, ?_,
    hCoherent.startedKnown, hCoherent.startedOnce, ?_, hCoherent.restarted⟩, ?_⟩
  · dsimp only
    rw [List.map_map]
    have hSame : ((·.taskId) ∘ fun p : Process =>
        if p.taskId = task ∧ p.pump = none then { p with pump := some me } else p) =
        (·.taskId) := funext hTaskId
    rw [hSame]
    exact hCoherent.single
  · intro p hMem hPump
    obtain ⟨old, hOld, rfl⟩ := List.mem_map.mp hMem
    split at hPump
    · exact absurd hPump (by simp)
    · next hOther =>
        rw [if_neg hOther]
        exact hCoherent.idle old hOld hPump
  · intro p hMem
    obtain ⟨old, hOld, rfl⟩ := List.mem_map.mp hMem
    rw [hTaskId]
    exact hCoherent.known old hOld
  · intro hUnbuilt
    show s.processes.map _ = []
    rw [hCoherent.unbuilt hUnbuilt]
    rfl
  · refine ⟨fun _ => Or.inr (Or.inr (Or.inl rfl)), ?_, ?_, List.Subset.refl _,
      fun _ hMem => Or.inl hMem, fun _ hOther => hOther⟩
    · intro p hMem
      obtain ⟨old, hOld, rfl⟩ := List.mem_map.mp hMem
      split
      · next hIdle => exact Or.inr (Or.inl ⟨old, hOld, rfl, hIdle.2⟩)
      · exact Or.inl hOld
    -- A process that another pump has is not touched.
    · intro p hMem other hPump _
      refine List.mem_map.mpr ⟨p, hMem, if_neg ?_⟩
      rintro ⟨-, hIdle⟩
      rw [hIdle] at hPump
      exact absurd hPump (by simp)

/-- A pump removes its own process. -/
theorem steady_terminate {s : Service} {process : Process} (accepted : Bool) (outcome : Outcome)
    (row : Option TaskRow) (hInv : s.Inv) (hMine : s.Clean → s.Mine me process.taskId) :
    Steady me s (terminateProcess process accepted outcome row s) := by
  refine steady_tables hInv rfl rfl rfl (List.prefix_refl _) fun hClean hCoherent => ?_
  have hMem : ∀ p, p ∈ (terminateProcess process accepted outcome row s).processes ↔
      p ∈ s.processes ∧ p.taskId ≠ process.taskId := by
    intro p
    simp [terminateProcess, Service.removeProcess]
  refine ⟨⟨?_, ?_, ?_, hCoherent.startedKnown, hCoherent.startedOnce, ?_, hCoherent.restarted⟩, ?_⟩
  · exact hCoherent.single.sublist (List.filter_sublist.map _)
  · exact fun p hp hPump => hCoherent.idle p ((hMem p).mp hp).1 hPump
  · exact fun p hp => hCoherent.known p ((hMem p).mp hp).1
  · intro hUnbuilt
    show s.processes.filter _ = []
    rw [hCoherent.unbuilt hUnbuilt]
    rfl
  · refine ⟨fun _ => Or.inr (Or.inr (Or.inl rfl)), fun p hp => Or.inl ((hMem p).mp hp).1, ?_,
      List.Subset.refl _, fun _ hp => Or.inl hp, fun _ hOther => hOther⟩
    intro p hp other hPump hOther
    refine (hMem p).mpr ⟨hp, fun hTask => hOther ?_⟩
    exact (hMine hClean).unique hCoherent ⟨p, hp, hTask, hPump⟩

/-- A runner is built. -/
theorem steady_build {s : Service} (hInv : s.Inv) (hUnbuilt : s.recovery = none) :
    Steady me s { s with recovery := some me } := by
  refine steady_tables hInv rfl rfl rfl (List.prefix_refl _) fun hClean hCoherent => ⟨⟨
    hCoherent.single, hCoherent.idle, hCoherent.known, hCoherent.startedKnown,
    hCoherent.startedOnce, fun hNone => (by cases hNone), hCoherent.restarted⟩, ?_⟩
  refine ⟨fun _ => Or.inr (Or.inr (Or.inl rfl)), fun _ hMem => Or.inl hMem,
    fun _ hMem _ _ _ => hMem, List.Subset.refl _, fun _ hMem => Or.inl hMem, ?_⟩
  intro other hOther
  rw [hUnbuilt] at hOther
  cases hOther

/-- The recovery reads the table. -/
theorem steady_listed {s : Service} (clean : Bool) (hInv : s.Inv) :
    Steady me s { s with trail := s.trail ++ [.listed clean] } := by
  refine steady_tables hInv rfl rfl rfl (List.prefix_append _ _) fun hClean hCoherent => ⟨⟨
    hCoherent.single, hCoherent.idle, hCoherent.known, hCoherent.startedKnown,
    hCoherent.startedOnce, hCoherent.unbuilt, ?_⟩, ?_⟩
  · intro task logged hMem
    rcases List.mem_append.mp hMem with hOld | hNew
    · exact hCoherent.restarted task logged hOld
    · exact absurd (List.mem_singleton.mp hNew) (by simp)
  · exact ⟨fun _ => Or.inr (Or.inr (Or.inl rfl)), fun _ hMem => Or.inl hMem,
      fun _ hMem _ _ _ => hMem, List.Subset.refl _, fun _ hMem => Or.inl hMem,
      fun _ hOther => hOther⟩

end Protocol

end Lifecycle
end OctoForge
