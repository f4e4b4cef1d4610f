import OctoForge.Coop.Trace
import OctoForge.Conversation.Submit

/-!
# Starting a run

`_start_answer` commits the task and the status of the exchange first, and puts
the run into the memory of the runner afterwards.  In between it reads the
narrative.  When that read raises, the actor swallows the error: the exchange
is IN_PROGRESS, its task is marked running and nobody works on it.  The sweep
asks for OPEN exchanges without a live task, so it passes this one by.

`start_all_or_nothing` says that this is the only way in which a start leaves
something behind without a run: at every other place where a call may raise,
there is a run or there is no trace of the start.
-/

namespace OctoForge
namespace Conversation

open Coop Co
open Dialog (ExchangeId)

/-- What the others do while a run is being started. -/
def Others (s s' : World) : Prop := ∃ cancelEpoch parked m, s' = play cancelEpoch parked m s

/-- A task of the exchange that is newer than `before` is pending or running. -/
def ActiveSince (before : World) (x : ExchangeId) (s : World) : Prop :=
  ∃ id task, before.nextTask ≤ id ∧ id < s.nextTask ∧ s.task id = some task ∧
    task.exchangeId = some x ∧ task.status.isActive = true

/-- A start that was begun in `before` has left a run, or nothing. -/
def AllOrNothing (before : World) (x : ExchangeId) (s : World) : Prop :=
  (∃ p ∈ s.processes, p.exchangeId = some x) ∨
    ((s.status x = some .inProgress → before.status x = some .inProgress) ∧
      ¬ActiveSince before x s)

/-- The start gets as far as its unit of work, which commits, and the narrative
cannot be read.  The worlds are those in which the four calls are made: the
ownership check, which fails open, the budget check, the unit of work and the
assembly. -/
def AssemblyFails (x : ExchangeId) (steps : List (World × World)) : Prop :=
  ∃ owned allowed begun assembled : World,
    steps.map (·.1) = [owned, allowed, begun, assembled] ∧
    (owned.storeDown = true ∨ owned.generation = none ∨
      owned.generation = some owned.claimGeneration) ∧
    allowed.storeDown = false ∧ allowed.budget = none ∧
    begun.storeDown = false ∧ (begun.status x).isSome ∧ assembled.storeDown = true

/-! ## What the others can do -/

/-- What a step of the others does to an exchange without a run and to a task
without one. -/
structure Aside (x : ExchangeId) (s s' : World) : Prop where
  wellFormed : s.WellFormed → s'.WellFormed
  nextTask : s.nextTask ≤ s'.nextTask
  noRun : s.NoRun x → s'.NoRun x
  status : s'.status x = some .inProgress → s.status x = some .inProgress
  tasks : ∀ id task, id < s'.nextTask → s'.task id = some task → task.exchangeId = some x →
    id < s.nextTask ∧ ∃ old, s.task id = some old ∧ old.exchangeId = some x
  idle : ∀ id, id < s.nextTask → (∀ p ∈ s.processes, p.task ≠ id) →
    s'.task id = s.task id ∧ ∀ p ∈ s'.processes, p.task ≠ id

section Aside

variable {x : ExchangeId} {s s' : World}

theorem Aside.quiet (hQuiet : Quiet s s') : Aside x s s' where
  wellFormed := hQuiet.wellFormed
  nextTask := Nat.le_of_eq hQuiet.nextTask.symm
  noRun hNone := by
    rw [World.NoRun, hQuiet.processes]
    exact hNone
  status hStatus := by rwa [hQuiet.status] at hStatus
  tasks id task hBound hTask hOwn := by
    rw [hQuiet.nextTask] at hBound
    rw [hQuiet.task] at hTask
    exact ⟨hBound, task, hTask, hOwn⟩
  idle id _ hIdle := by
    rw [hQuiet.task, hQuiet.processes]
    exact ⟨rfl, hIdle⟩

theorem Aside.refl (x : ExchangeId) (s : World) : Aside x s s := .quiet (.refl s)

/-- A status other than IN_PROGRESS is written. -/
theorem Aside.write {y : ExchangeId} {status : ExchangeStatus} (hStatus : status ≠ .inProgress)
    (look : Option Look) (f : ExchangeRow → ExchangeRow) :
    Aside x s (s.writeRow y status look f) := by
  refine { Aside.refl x s with
    wellFormed := fun hWell => hWell.writeRow status look f
    status := fun hNow => ?_ }
  rw [World.status_writeRow] at hNow
  split at hNow
  · obtain ⟨_, -, hSame⟩ := Option.map_eq_some_iff.mp hNow
    exact absurd hSame hStatus
  · exact hNow

/-- The runs are marked, and keep their tasks and their exchanges. -/
theorem Aside.map {f : Process → Process} (hTask : ∀ p, (f p).task = p.task)
    (hOwn : ∀ p, (f p).exchangeId = p.exchangeId) {cancelEpoch : Nat} {notes : List Note} :
    Aside x s { s with processes := s.processes.map f, cancelEpoch, notes } := by
  refine { Aside.refl x s with
    wellFormed := fun hWell => hWell.map_processes fun p => ⟨hOwn p, hTask p⟩
    noRun := fun hNone p hMem => ?_
    idle := fun id _ hIdle => ⟨rfl, fun p hMem => ?_⟩ }
  · obtain ⟨q, hOld, rfl⟩ := List.mem_map.mp hMem
    rw [hOwn]
    exact hNone q hOld
  · obtain ⟨q, hOld, rfl⟩ := List.mem_map.mp hMem
    rw [hTask]
    exact hIdle q hOld

/-- Only the task of a run that is there is finished. -/
theorem Aside.finish {task : TaskId} (hRun : ∃ p ∈ s.processes, p.task = task)
    (status : TaskStatus) : Aside x s (s.finishTask task status) := by
  refine { Aside.refl x s with
    wellFormed := fun hWell => hWell.finishTask task status
    tasks := fun id row hBound hTask hOwn => ⟨hBound, ?_⟩
    idle := fun id _ hIdle => ⟨?_, hIdle⟩ }
  · simp only [World.finishTask, Function.update_apply] at hTask
    split at hTask
    · rename_i hSame
      obtain ⟨old, hOld, rfl⟩ := Option.map_eq_some_iff.mp hTask
      exact ⟨old, hSame ▸ hOld, hOwn⟩
    · exact ⟨row, hTask, hOwn⟩
  · obtain ⟨p, hMem, rfl⟩ := hRun
    exact Function.update_of_ne (fun hSame => hIdle p hMem hSame.symm) _ _

theorem Aside.terminate (task : TaskId) (status : TaskStatus) (unseen : Unseen)
    (terminal : Option String) (deliveredLive : Bool) :
    Aside x s (s.terminateProcess task status unseen terminal deliveredLive) := by
  unfold World.terminateProcess
  split
  · exact .refl x s
  · exact { Aside.refl x s with
      wellFormed := fun hWell => hWell.of_processes fun q hMem =>
        ⟨q, List.mem_of_mem_eraseP hMem, rfl, rfl⟩
      noRun := fun hNone q hMem => hNone q (List.mem_of_mem_eraseP hMem)
      idle := fun id _ hIdle => ⟨rfl, fun q hMem => hIdle q (List.mem_of_mem_eraseP hMem)⟩ }

theorem Aside.spawn (title : String) :
    Aside x s ((s.addTask .run none title).2.createProcess (s.addTask .run none title).1 false) := by
  have hBeside : Beside 0 [] s (play 0 [] (.spawn title) s) := .spawn title s
  refine { Aside.refl x s with
    wellFormed := hBeside.wellFormed
    nextTask := Nat.le_succ _
    noRun := hBeside.noRun x
    tasks := fun id task hBound hTask hOwn => ?_
    idle := fun id hBound hIdle => ⟨?_, fun p hMem => ?_⟩ }
  · simp only [World.addTask, World.createProcess, Function.update_apply] at hTask hBound
    split at hTask
    · obtain rfl := Option.some.inj hTask
      simp at hOwn
    · rename_i hOld
      exact ⟨Nat.lt_of_le_of_ne (Nat.le_of_lt_succ hBound) hOld, task, hTask, hOwn⟩
  · exact Function.update_of_ne (Nat.ne_of_lt hBound) _ _
  · simp only [World.addTask, World.createProcess, List.mem_append, List.mem_singleton] at hMem
    rcases hMem with hOld | rfl
    · exact hIdle p hOld
    · exact fun hSame => absurd hBound (by simp [← hSame])

theorem aside_play (cancelEpoch : Nat) (parked : List ExchangeId) (m : Meanwhile) (s : World) :
    Aside x s (play cancelEpoch parked m s) := by
  cases m with
  | cancel => exact .map (fun p => by split <;> rfl) fun p => by split <;> rfl
  | close y =>
      simp only [play]
      split
      · exact .write (by decide) none _
      · exact .refl x s
  | beginAsk task =>
      simp only [play, beginAsk]
      split
      · exact .refl x s
      · exact .map (fun p => by split <;> rfl) fun p => by split <;> rfl
  | ask task question =>
      simp only [play]
      split
      · exact .write (by decide) _ _
      · exact .refl x s
  | finish task terminal =>
      simp only [play]
      split
      · rename_i hRun
        obtain ⟨p, hFound⟩ := Option.isSome_iff_exists.mp hRun
        exact .finish ⟨p, List.mem_of_find?_eq_some hFound, by simpa using List.find?_some hFound⟩ _
      · exact .refl x s
  | terminate task terminal unseen deliveredLive => exact .terminate _ _ _ _ _
  | spawn title => exact .spawn title
  | notice message => exact .quiet { Quiet.refl s with }
  | lock holder => exact .quiet { Quiet.refl s with }
  | event event =>
      simp only [play]
      cases hEvent : conversationEvent event s with
      | none => exact .refl x s
      | some s' => exact .quiet (calm_event event hEvent).toQuiet

theorem aside_others (hOthers : Others s s') : Aside x s s' := by
  obtain ⟨cancelEpoch, parked, m, rfl⟩ := hOthers
  exact aside_play cancelEpoch parked m s

end Aside

/-! ## The two sides of the unit of work -/

/-- Nothing of the start is there yet. -/
structure Unbegun (before : World) (x : ExchangeId) (s : World) : Prop where
  wellFormed : s.WellFormed
  nextTask : before.nextTask ≤ s.nextTask
  noRun : s.NoRun x
  status : s.status x = some .inProgress → before.status x = some .inProgress
  tasks : ∀ id task, before.nextTask ≤ id → id < s.nextTask → s.task id = some task →
    task.exchangeId ≠ some x

/-- The task is there and has no run. -/
structure Stranded (before : World) (x : ExchangeId) (id : TaskId) (s : World) : Prop where
  noRun : s.NoRun x
  since : before.nextTask ≤ id
  bound : id < s.nextTask
  running : ∃ task, s.task id = some task ∧ task.exchangeId = some x ∧ task.status = .running
  idle : ∀ p ∈ s.processes, p.task ≠ id

section Start

variable {before s s' t : World} {x : ExchangeId} {seen : Seen}

theorem Unbegun.refl (hWell : s.WellFormed) (hNone : s.NoRun x) : Unbegun s x s where
  wellFormed := hWell
  nextTask := Nat.le_refl _
  noRun := hNone
  status hStatus := hStatus
  tasks _ _ hSince hBound := absurd hBound (Nat.not_lt.mpr hSince)

theorem Unbegun.aside (hUnbegun : Unbegun before x s) (hAside : Aside x s s') :
    Unbegun before x s' where
  wellFormed := hAside.wellFormed hUnbegun.wellFormed
  nextTask := Nat.le_trans hUnbegun.nextTask hAside.nextTask
  noRun := hAside.noRun hUnbegun.noRun
  status hStatus := hUnbegun.status (hAside.status hStatus)
  tasks id task hSince hBound hTask hOwn := by
    obtain ⟨hOld, old, hOldTask, hOldOwn⟩ := hAside.tasks id task hBound hTask hOwn
    exact hUnbegun.tasks id old hSince hOld hOldTask hOldOwn

theorem Stranded.aside {id : TaskId} (hStranded : Stranded before x id s) (hAside : Aside x s s') :
    Stranded before x id s' := by
  obtain ⟨hSame, hIdle⟩ := hAside.idle id hStranded.bound hStranded.idle
  exact ⟨hAside.noRun hStranded.noRun, hStranded.since, Nat.lt_of_lt_of_le hStranded.bound hAside.nextTask,
    hSame ▸ hStranded.running, hIdle⟩

theorem Unbegun.others (hUnbegun : Unbegun before x s)
    (hOthers : Relation.ReflTransGen Others s s') : Unbegun before x s' :=
  keeps_reflTransGen (fun _ _ hOld hMove => hOld.aside (aside_others hMove)) hOthers hUnbegun

theorem Stranded.others {id : TaskId} (hStranded : Stranded before x id s)
    (hOthers : Relation.ReflTransGen Others s s') : Stranded before x id s' :=
  keeps_reflTransGen (fun _ _ hOld hMove => hOld.aside (aside_others hMove)) hOthers hStranded

theorem Unbegun.allOrNothing (hUnbegun : Unbegun before x s) : AllOrNothing before x s := by
  refine Or.inr ⟨hUnbegun.status, ?_⟩
  rintro ⟨id, task, hSince, hBound, hTask, hOwn, -⟩
  exact hUnbegun.tasks id task hSince hBound hTask hOwn

theorem Stranded.not_allOrNothing {id : TaskId} (hStranded : Stranded before x id s) :
    ¬AllOrNothing before x s := by
  rintro (⟨p, hMem, hOwn⟩ | ⟨-, hNone⟩)
  · exact hStranded.noRun p hMem hOwn
  · obtain ⟨task, hTask, hOwn, hStatus⟩ := hStranded.running
    exact hNone ⟨id, task, hStranded.since, hStranded.bound, hTask, hOwn, by rw [hStatus]; rfl⟩

/-- The unit of work leaves a running task behind that has no run. -/
theorem Unbegun.begin (hUnbegun : Unbegun before seen.exchange.id s) :
    Stranded before seen.exchange.id s.nextTask
      ((s.addTask .answer (some seen.exchange.id) seen.exchange.title).2.writeStatus
        seen.exchange.id .inProgress (some seen.look) none) where
  noRun := hUnbegun.noRun
  since := hUnbegun.nextTask
  bound := Nat.lt_succ_self _
  running := ⟨_, Function.update_self _ _ _, rfl, rfl⟩
  idle p hMem := Nat.ne_of_lt (hUnbegun.wellFormed.processes p hMem).1

/-- Where a start may have ended. -/
inductive Start (before : World) (x : ExchangeId) (steps : List (World × World))
    (r : Except StoreError Assignment) (t : World) : Prop
  | unbegun (hUnbegun : Unbegun before x t) (hNot : ¬AssemblyFails x steps)
  | stranded (id : TaskId) (hStranded : Stranded before x id t) (hFails : AssemblyFails x steps)
  | started (assignment : Assignment) (hResult : r = .ok assignment)
      (hRun : ∃ p ∈ t.processes, p.exchangeId = some x) (hNot : ¬AssemblyFails x steps)

theorem not_assemblyFails_of_length {steps : List (World × World)} (hLength : steps.length ≠ 4) :
    ¬AssemblyFails x steps := by
  rintro ⟨_, _, _, _, hWorlds, -⟩
  have hFour := congrArg List.length hWorlds
  simp only [List.length_map, List.length_cons, List.length_nil] at hFour
  exact hLength hFour

/-- The ownership check is one read, which fails open. -/
theorem stillOwnsDialog_cases {env : World → World → Prop} {steps : List (World × World)}
    {r : Except StoreError Bool} (hTrace : Trace env stillOwnsDialog s steps (ended r) t) :
    Relation.ReflTransGen env s t ∧ steps = [(t, t)] ∧
      (r = .ok true → t.storeDown = true ∨ t.generation = none ∨
        t.generation = some t.claimGeneration) := by
  rcases hTrace.tryCatch_cases with ⟨value, rfl, hRead⟩ | ⟨error, first, second, u, rfl, hRead, hOk⟩
  · obtain ⟨u, hEnv, rfl, hValue, rfl⟩ := hRead.attempt_cases
    cases hDown : u.storeDown with
    | true => simp [hDown] at hValue
    | false =>
        simp only [hDown, Bool.false_eq_true, if_false, Except.ok.injEq] at hValue ⊢
        refine ⟨hEnv, trivial, fun hOwns => ?_⟩
        simpa [hOwns, hDown] using hValue.symm
  · obtain ⟨v, hEnv, rfl, hError, rfl⟩ := hRead.attempt_cases
    obtain ⟨rfl, rfl, rfl⟩ := hOk.done_cases
    cases hDown : v.storeDown with
    | false => simp [hDown] at hError
    | true => simp [hDown, hEnv]

/-- After the unit of work only the assembly can go wrong. -/
theorem assembly_cases {cancelEpoch : Option Nat} {steps : List (World × World)}
    {r : Except StoreError Assignment} {id : TaskId} {task : Task}
    (hStranded : Stranded before x id s) (hOwn : task.exchangeId = some x)
    (hTrace : Trace Others (((select fun _ => ()) : Work Unit).bind fun _ =>
      (Co.modify (startProcess seen task cancelEpoch) : Work Unit).bind fun _ =>
        pure ({} : Assignment)) s steps (ended r) t) :
    (∃ u, u.storeDown = true ∧ steps.map (·.1) = [u] ∧ Stranded before x id t) ∨
      (steps.length = 2 ∧ r = .ok {} ∧ ∃ p ∈ t.processes, p.exchangeId = some x) := by
  obtain ⟨u, hEnv, ⟨-, rest, rfl, hRest⟩ | ⟨hDown, rfl, rfl, rfl⟩⟩ := select_bind_cases hTrace
  · rcases hRest.bind_cases with ⟨_, first, second, v, rfl, hModify, hDone⟩ | ⟨_, rfl, hFail⟩
    · obtain ⟨w, -, rfl, -, rfl⟩ := hModify.modify_cases
      obtain ⟨rfl, rfl, rfl⟩ := hDone.done_cases
      refine Or.inr ⟨rfl, rfl, _, List.mem_append_right _ (List.mem_singleton_self _), hOwn⟩
    · obtain ⟨w, -, -, hResult, -⟩ := hFail.modify_cases
      simp at hResult
  · exact Or.inl ⟨t, hDown, rfl, hStranded.others hEnv⟩

/-- A start has ended in one of three ways, and what the calls found tells which. -/
theorem start_cases {cancelEpoch : Option Nat} {notifyLimit : Bool} {steps : List (World × World)}
    {r : Except StoreError Assignment} (hWell : s.WellFormed) (hNone : s.NoRun seen.exchange.id)
    (hTrace : Trace Others (startAnswer seen cancelEpoch notifyLimit) s steps (ended r) t) :
    Start s seen.exchange.id steps r t := by
  have hMoves : ∀ u v, Unbegun s seen.exchange.id u → Others u v → Unbegun s seen.exchange.id v :=
    fun _ _ hUnbegun hMove => hUnbegun.aside (aside_others hMove)
  rcases hTrace.bind_cases with ⟨owns, first, rest, u, rfl, hOwns, hRest⟩ | ⟨error, rfl, hFail⟩
  · obtain ⟨hEnv, rfl, hOwned⟩ := stillOwnsDialog_cases hOwns
    have hUnbegun := (Unbegun.refl hWell hNone).others hEnv
    cases owns with
    | false =>
        -- another process has the dialog
        rcases hRest.bind_cases with ⟨_, first, last, v, rfl, hModify, hDone⟩ | ⟨_, rfl, hFail⟩
        · obtain ⟨w, hEnv', rfl, -, rfl⟩ := hModify.modify_cases
          obtain ⟨rfl, rfl, rfl⟩ := hDone.done_cases
          refine .unbegun ((hUnbegun.others hEnv').aside { Aside.refl seen.exchange.id w with
            wellFormed := fun hWell => ?_ }) (not_assemblyFails_of_length (by simp))
          exact hWell.of_same rfl rfl rfl rfl fun p hMem => ⟨p, hMem, rfl, rfl⟩
        · obtain ⟨w, -, -, hResult, -⟩ := hFail.modify_cases
          simp at hResult
    | true =>
        obtain ⟨v, hEnv', ⟨hUp, last, rfl, hLast⟩ | ⟨-, rfl, rfl, rfl⟩⟩ := select_bind_cases hRest
        · have hUnbegun' := hUnbegun.others hEnv'
          cases hBudget : v.budget with
          | some verdict =>
              -- the plan is exhausted, and at most a notice goes out
              have hNot : ¬AssemblyFails seen.exchange.id ((u, u) :: (v, v) :: last) := by
                rintro ⟨_, allowed, _, _, hWorlds, -, -, hFree, -⟩
                simp only [List.map_cons, List.cons.injEq] at hWorlds
                rw [← hWorlds.2.1, hBudget] at hFree
                simp at hFree
              have hCalm : Steps Calm (if notifyLimit then tariffNoticeOnce answerNoteKey
                  (tariffLimitNotice verdict) else (pure {} : Work Assignment)) := by
                split
                · exact calm_tariffNoticeOnce _ _
                · exact Co.atoms_done _
              rw [hBudget] at hLast
              refine .unbegun (hCalm.trace_keeps hMoves (fun w w' hOld hStep => ?_) hLast hUnbegun')
                hNot
              exact hOld.aside (.quiet hStep.toQuiet)
          | none =>
              rw [hBudget] at hLast
              obtain ⟨w, hEnv'', ⟨hUp', hStored, tail, rfl, hTail⟩ | ⟨error, rfl, rfl, rfl⟩⟩ :=
                transactionOn_bind_cases hLast
              · have hStranded := (hUnbegun'.others hEnv'').begin
                rcases assembly_cases hStranded rfl hTail with
                  ⟨z, hDown, hWorlds, hStranded'⟩ | ⟨hLength, rfl, hRun⟩
                · refine .stranded _ hStranded' ⟨u, v, w, z, ?_, hOwned rfl, hUp, hBudget, hUp',
                    hStored, hDown⟩
                  simp [hWorlds]
                · refine .started _ rfl hRun (not_assemblyFails_of_length ?_)
                  simp [hLength]
              · exact .unbegun (hUnbegun'.others hEnv'') (not_assemblyFails_of_length (by simp))
        · exact .unbegun (hUnbegun.others hEnv') (not_assemblyFails_of_length (by simp))
  · obtain ⟨hEnv, rfl, -⟩ := stillOwnsDialog_cases hFail
    exact .unbegun ((Unbegun.refl hWell hNone).others hEnv) (not_assemblyFails_of_length (by simp))

/-- When a start is over, and after it has raised also when the actor is done with
the command, it has left a run or nothing, unless the assembly has failed. -/
theorem start_all_or_nothing {cancelEpoch : Option Nat} {notifyLimit : Bool} {t' : World}
    {steps : List (World × World)} {r : Except StoreError Assignment} (hWell : s.WellFormed)
    (hNone : s.NoRun seen.exchange.id)
    (hTrace : Trace Others (startAnswer seen cancelEpoch notifyLimit) s steps (ended r) t)
    (hLater : Relation.ReflTransGen Others t t') (hOver : t' = t ∨ ∃ error, r = .error error) :
    AllOrNothing s seen.exchange.id t' ↔ ¬AssemblyFails seen.exchange.id steps := by
  rcases start_cases hWell hNone hTrace with
    ⟨hUnbegun, hNot⟩ | ⟨id, hStranded, hFails⟩ | ⟨assignment, rfl, hRun, hNot⟩
  · exact iff_of_true (hUnbegun.others hLater).allOrNothing hNot
  · exact iff_of_false (hStranded.others hLater).not_allOrNothing (not_not_intro hFails)
  · rcases hOver with rfl | ⟨error, hError⟩
    · exact iff_of_true (Or.inl hRun) hNot
    · simp at hError

end Start

/-- An exchange that waits for its run. -/
def waiting : World := (({} : World).create "plan a trip" .opened).2

def waitingSeen : Seen where
  exchange := { status := .opened, title := "plan a trip", updatedAt := 0, id := 0 }
  look := waiting.look 0

/-- The database stops answering before the budget is checked. -/
theorem start_all_or_nothing_unchecked :
    ∃ steps r t, Trace Others (startAnswer waitingSeen none false) waiting steps (ended r) t ∧
      r.isOk = false ∧ t.status 0 = some .opened ∧ AllOrNothing waiting 0 t := by
  have hTraces : (traceWith (play 0 []) [[], [.event (.store true)]]
      (startAnswer waitingSeen none false) waiting).map (fun (steps, r, t) =>
        (steps.length, r.isOk, t.status 0)) = some (2, false, some .opened) := by
    decide +kernel
  obtain ⟨steps, r, t, hTrace, hEnd⟩ := Trace.exists_of_traceWith _ hTraces
  simp only [Prod.mk.injEq] at hEnd
  obtain ⟨hLength, hRaised, hStatus⟩ := hEnd
  have hOthers : Trace Others (startAnswer waitingSeen none false) waiting steps (ended r) t :=
    hTrace.mono fun _ _ ⟨m, hMove⟩ => ⟨0, [], m, hMove⟩
  refine ⟨steps, r, t, hOthers, hRaised, hStatus, ?_⟩
  have hWell : waiting.WellFormed := World.WellFormed.empty.create "plan a trip" .opened
  refine (start_all_or_nothing hWell (fun p hMem => ?_) hOthers .refl (Or.inl rfl)).mpr ?_
  · simp [waiting, World.create] at hMem
  · exact not_assemblyFails_of_length (by simp [hLength])

/-- The database stops answering between the unit of work and the assembly of the
first question, and is back when the actor is done.  Then a background run comes
and goes, and the sweep after it runs to its end. -/
def assembledTooLate : List (System.Move (conversation {})) :=
  List.flatten [[.start (.submit { content := "question" } none)], List.replicate 17 (.resume 0),
    [.event (.store true)], List.replicate 3 (.resume 0), [.event (.store false)],
    [.start (.spawnTask "report")], List.replicate 6 (.resume 1),
    [.start (.pump 1 (.finished "report") .nothing true)], List.replicate 3 (.resume 2),
    [.start .terminated], List.replicate 6 (.resume 3)]

/-- The exchange is IN_PROGRESS for a task that nobody works on, and the sweep has
passed it by. -/
theorem stranded_by_assembly :
    ∃ q : Pool World StoreError, System.Run (conversation {}) { st := {} } q ∧
      q.st.status 0 = some .inProgress ∧ q.st.hasLiveTask 0 = true ∧ q.st.processes = [] ∧
      q.st.inbox = [] ∧ q.st.actor = none ∧ q.st.storeDown = false ∧
      ¬AllOrNothing {} 0 q.st := by
  have hMoves : (System.moves assembledTooLate { st := {} }).map (fun q =>
      decide (q.st.status 0 = some .inProgress ∧ q.st.hasLiveTask 0 = true ∧ q.st.processes = [] ∧
        q.st.inbox = [] ∧ q.st.actor = none ∧ q.st.storeDown = false)) = some true := by
    decide +kernel
  obtain ⟨q, hRun, hSeen⟩ := System.Run.exists_of_moves _ hMoves
  obtain ⟨hStatus, hLive, hNone, hInbox, hActor, hUp⟩ := of_decide_eq_true hSeen
  refine ⟨q, hRun, hStatus, hLive, hNone, hInbox, hActor, hUp, ?_⟩
  rintro (⟨p, hMem, -⟩ | ⟨hBefore, -⟩)
  · simp [hNone] at hMem
  · exact absurd (hBefore hStatus) (by simp [World.status])

end Conversation
end OctoForge
