import OctoForge.Lifecycle.Recovery

/-!
# Recovery does not answer again

The coroutines of `Lifecycle.Runs` keep the protocol of `Lifecycle.Recovery`, and
from that every run keeps the promise of the recovery: what has a message in the
log is finished, what is finished and not delivered is found again until it is
stamped, and, in runs whose recoveries are clean, no restart repeats an answer.
-/

namespace OctoForge
namespace Lifecycle

open Coop
open Dialog (ExchangeId MessageRole)
open Conversation (TaskId TaskKind TaskStatus restartLimitError)
open Outbox (Hub TaskRow StoreError Terminated blank)

section Coroutines

variable {me : Nat} {A : Service → Prop}

/-- What a coroutine knows as long as the recoveries are clean. -/
abbrev Known (A : Service → Prop) : Service → Prop := fun s => s.Clean → A s

theorem known_true (s : Service) : Known (fun _ => True) s := fun _ => trivial

/-- What the outbox does leaves every lasting assertion alone. -/
theorem leads_onOutbox {α : Type} {c : Outbox.Work α} (hLasting : Lasting me A)
    (hStamps : Stamps c) : Co.Leads protocol me (Known A) (onOutbox c) (Known A) := by
  have hSteps : Co.Steps Service.Aside (onOutbox c) :=
    hStamps.zoom fun s runner hRows => ⟨hRows, rfl, rfl, rfl, rfl, rfl, rfl⟩
  refine hSteps.leads hLasting.stable fun s s' hInv hKnown hAside => ?_
  obtain ⟨hInv', hGuarantee⟩ := steady_aside hInv hAside
  exact ⟨hInv', hGuarantee, hLasting.aside hInv hAside hKnown⟩

theorem leads_select {α : Type} {f : Service → α} (hLasting : Lasting me A) :
    Co.Leads protocol me (Known A) (select f) (Known A) := by
  refine Co.leads_attempt hLasting.stable fun s hInv hKnown => ?_
  have hSame : ((if s.runner.storeDown then (.error .unavailable, s)
      else (.ok (f s), s) : Except StoreError α × Service)).2 = s := by
    split <;> rfl
  rw [hSame]
  have hIdle : Steady me s s := steady_aside hInv (Service.Aside.refl s)
  exact ⟨hIdle.1, hIdle.2, hKnown⟩

/-- The finishing write, by who is entitled to it. -/
theorem leads_finish {B : Service → Prop} {task : TaskId} {status : TaskStatus}
    {result error : Option String} {delivered : Bool} {rows : List MessageRow}
    (hLasting : Lasting me A) (hStatus : status.isActive = false)
    (hRows : ∀ m ∈ rows, m.taskId = none ∨ m.taskId = some task)
    (hEntitled : ∀ s, A s → s.Active task ∧ (s.Mine me task ∨ s.Inherited me task))
    (hSame : ∀ s, A s → B s)
    (hAfter : ∀ s row, A s → B { s.setTask task row with messages := s.messages ++ rows }) :
    Co.Leads protocol me (Known A) (finish task status result error delivered rows) (Known B) := by
  refine Co.leads_attempt hLasting.stable fun s hInv hKnown => ?_
  have hIdle : s.Inv ∧ protocol.guarantee me s s ∧ Known B s := by
    have hSteady : Steady me s s := steady_aside hInv (Service.Aside.refl s)
    exact ⟨hSteady.1, hSteady.2, fun hClean => hSame s (hKnown hClean)⟩
  dsimp only
  split
  · exact hIdle
  split
  · exact hIdle
  · next row hRow =>
      let row' := finishRow status result error delivered row
      have hSteady : Steady me s { s.setTask task row' with messages := s.messages ++ rows } :=
        steady_finish hInv hRow hStatus hRows (fun hClean => hEntitled s (hKnown hClean))
          rfl rfl rfl rfl rfl rfl rfl
      exact ⟨hSteady.1, hSteady.2, fun hClean => hAfter s row' (hKnown hClean)⟩

/-! ### Starting -/

theorem spec_startRun (kind : TaskKind) (title : String) (exchangeId : Option ExchangeId) :
    Co.Spec protocol me (fun _ => True) (startRun me kind title exchangeId) fun _ _ => True := by
  let BuiltAt : Service → Prop := fun s => s.recovery.isSome = true
  have hAwait : Co.Spec protocol me (fun _ => True) awaitRunner fun _ => Known BuiltAt := by
    refine Co.triple_blockUntil ((Protocol.Kept.true _).stable me) fun s hInv _ hReady => ?_
    have hIdle : Steady me s s := steady_aside hInv (Service.Aside.refl s)
    exact ⟨hIdle.1, hIdle.2, fun _ => hReady⟩
  -- The new row has a number that no process has.
  have hPrepare : Co.Spec protocol me (Known BuiltAt) (prepareProcessTask me kind title exchangeId)
      fun task => Known (Service.Starting me task) := by
    refine Co.triple_attempt lasting_recovery.stable fun s hInv hBuilt => ?_
    dsimp only
    split
    · have hIdle : Steady me s s := steady_aside hInv (Service.Aside.refl s)
      exact ⟨hIdle.1, hIdle.2, by simp, fun _ _ => trivial⟩
    · have hSteady : Steady me s _ :=
        steady_prepare { title, kind, exchangeId, status := .running } hInv
      refine ⟨hSteady.1, hSteady.2, ?_, fun _ _ => trivial⟩
      rintro task hTask hClean
      obtain rfl := Except.ok.inj hTask
      refine ⟨hBuilt hClean, ⟨_, Function.update_self .., rfl⟩,
        List.mem_append_right _ List.mem_cons_self, ?_⟩
      rintro ⟨p, hMem, hSame⟩
      exact absurd ((hInv.coherent hClean).known p hMem) (by rw [hSame]; exact Nat.lt_irrefl _)
  refine hAwait.bind fun _ => hPrepare.bind fun task => ?_
  refine (Co.leads_modify (lasting_starting task).stable fun s hInv hStarting => ?_).spec
  have hSteady : Steady me s
      { s.createProcess { taskId := task, title, exchangeId } with trail := s.trail ++ [] } :=
    steady_create hInv rfl (by simp) fun hClean =>
      ⟨(hStarting hClean).1, (hStarting hClean).2.1, (hStarting hClean).2.2.2,
        Or.inl (hStarting hClean).2.2.1⟩
  rw [List.append_nil] at hSteady
  exact ⟨hSteady.1, hSteady.2, trivial⟩

/-! ### The pump -/

theorem spec_claimPump (task : TaskId) :
    Co.Spec protocol me (fun _ => True) (claimPump me task) fun process s =>
      process.taskId = task ∧ Known (Service.Pumping me task) s := by
  refine Co.triple_blockUntil ((Protocol.Kept.true _).stable me) fun s hInv _ hReady => ?_
  have hSteady : Steady me s { s with processes := s.processes.map fun p =>
      if p.taskId = task ∧ p.pump = none then { p with pump := some me } else p } :=
    steady_claim hInv
  obtain ⟨p, hFind⟩ := Option.isSome_iff_exists.mp hReady
  have hIdle : p.taskId = task ∧ p.pump = none := by
    simpa using List.find?_some hFind
  have hMem : p ∈ s.processes := List.mem_of_find?_eq_some hFind
  refine ⟨hSteady.1, hSteady.2, ?_, fun hClean => ⟨?_, ?_⟩⟩
  · dsimp only
    rw [hFind]
    exact hIdle.1
  · exact ⟨_, List.mem_map.mpr ⟨p, hMem, rfl⟩, by rw [if_pos hIdle]; exact hIdle.1,
      by rw [if_pos hIdle]⟩
  · exact hIdle.1 ▸ (hInv.coherent hClean).idle p hMem hIdle.2

/-- One finishing write of a pump. -/
theorem leads_finish_pump {task : TaskId} {status : TaskStatus} {result error : Option String}
    {delivered : Bool} {rows : List MessageRow} (hStatus : status.isActive = false)
    (hRows : ∀ m ∈ rows, m.taskId = none ∨ m.taskId = some task) :
    Co.Leads protocol me (Known (Service.Pumping me task))
      (finish task status result error delivered rows) (Known (Service.Mine me task)) :=
  leads_finish (lasting_pumping task) hStatus hRows
    (fun _ hPumping => ⟨hPumping.2, Or.inl hPumping.1⟩) (fun _ hPumping => hPumping.1)
    fun _ _ hPumping => hPumping.1

theorem leads_finalize {process : Process} (accepted : Bool) (outcome : Outcome) :
    Co.Leads protocol me (Known (Service.Pumping me process.taskId))
      (finalize process accepted outcome) (Known (Service.Mine me process.taskId)) := by
  cases outcome with
  | finished content source =>
      unfold finalize
      dsimp only
      split
      · exact leads_finish_pump rfl (by simp)
      · exact leads_finish_pump rfl (by simp)
  | failed error => exact leads_finish_pump rfl (by simp)
  | cancelled latest =>
      refine leads_finish_pump rfl ?_
      cases latest with
      | none => simp [salvagedRows]
      | some content => simp [salvagedRows]
  | stopped => exact Co.leads_fail fun _ _ hPumping hClean => (hPumping hClean).1

theorem leads_finalizeGuarded {process : Process} (accepted : Bool) (outcome : Outcome) :
    Co.Leads protocol me (Known (Service.Pumping me process.taskId))
      (finalizeGuarded process accepted outcome) (Known (Service.Mine me process.taskId)) := by
  refine Co.Leads.tryCatch (B := Known (Service.Mine me process.taskId))
    ((leads_finalize accepted outcome).bind (fun row => ?_) fun _ _ hMine => hMine)
    (fun _ => Co.leads_done fun _ _ hMine => hMine) fun _ _ hMine => hMine
  exact (leads_select (lasting_mine process.taskId)).bind
    (fun _ => Co.leads_done fun _ _ hMine => hMine) fun _ _ hMine => hMine

theorem spec_pumpProcess (task : TaskId) (accepted : Bool) (outcome : Outcome) :
    Co.Spec protocol me (fun _ => True) (pumpProcess me task accepted outcome)
      fun _ _ => True := by
  refine (spec_claimPump task).bind fun process s hInv hPumping => ?_
  obtain ⟨rfl, hKnown⟩ := hPumping
  refine ((leads_finalizeGuarded accepted outcome).spec.bind fun row => ?_) s hInv hKnown
  refine (Co.leads_modify (lasting_mine process.taskId).stable fun t hInv' hMine => ?_).spec
  have hSteady : Steady me t (terminateProcess process accepted outcome row t) :=
    steady_terminate accepted outcome row hInv' hMine
  exact ⟨hSteady.1, hSteady.2, trivial⟩

/-! ### The actor -/

theorem spec_onOutbox {α : Type} {c : Outbox.Work α} (hStamps : Stamps c) :
    Co.Spec protocol me (fun _ => True) (onOutbox c) fun _ _ => True :=
  (leads_onOutbox lasting_true hStamps).spec.mono (fun s _ _ => known_true s)
    (fun _ _ _ _ => trivial) fun _ hError => hError

theorem spec_handleTerminated (fuel : Nat) :
    Co.Spec protocol me (fun _ => True) (handleTerminated me fuel) fun _ _ => True := by
  refine Co.Triple.bind (B := fun _ _ => True)
    (Co.triple_blockUntil ((Protocol.Kept.true _).stable me) fun s hInv _ _ => ?_) fun command => ?_
  · have hSteady : Steady me s { s with inbox := s.inbox.tail } :=
      steady_aside hInv ⟨Stamped.refl _, rfl, rfl, rfl, rfl, rfl, rfl⟩
    exact ⟨hSteady.1, hSteady.2, trivial⟩
  · cases command with
    | none => exact Co.triple_done fun _ _ _ => trivial
    | some command => exact spec_onOutbox (stamps_deliverTerminated fuel command)

/-! ### The recovery -/

theorem mem_allTasks {s : Service} {orphan : TaskId × TaskRow} :
    orphan ∈ s.allTasks ↔ orphan.1 < s.nextTask ∧ s.tasks orphan.1 = some orphan.2 := by
  simp only [Service.allTasks, List.mem_filterMap, List.mem_range, Option.map_eq_some_iff]
  constructor
  · rintro ⟨task, hLt, row, hRow, rfl⟩
    exact ⟨hLt, hRow⟩
  · exact fun ⟨hLt, hRow⟩ => ⟨orphan.1, hLt, orphan.2, hRow, rfl⟩

/-- What recovery restarts: the rows that are pending or running. -/
theorem mem_orphaned {s : Service} {orphan : TaskId × TaskRow} :
    orphan ∈ s.listForRecovery.1 ↔
      orphan ∈ s.allTasks ∧ orphan.2.status.isActive = true := by
  simp only [Service.listForRecovery, List.mem_filter, and_assoc]
  refine and_congr_right fun _ => ?_
  simp +contextual

/-- What recovery redelivers: the finished rows that go to the user and have no
stamp. -/
theorem mem_undelivered {s : Service} {task : TaskId × TaskRow} :
    task ∈ s.listForRecovery.2 ↔ task ∈ s.allTasks ∧ task.2.status.isActive = false ∧
      Service.reported task.2.status = true ∧ task.2.delivered = false := by
  simp only [Service.listForRecovery, List.mem_filter, and_assoc]
  refine and_congr_right fun _ => ?_
  cases task.2.status <;> simp [TaskStatus.isActive, Service.reported]

theorem nodup_orphaned (s : Service) : (s.listForRecovery.1.map (·.1)).Nodup := by
  have hAll : (s.allTasks.map (·.1)).Sublist (List.range s.nextTask) := by
    have hFilter : s.allTasks.map (·.1) =
        (List.range s.nextTask).filter fun task => (s.tasks task).isSome := by
      rw [Service.allTasks, List.map_filterMap, ← List.filterMap_eq_filter]
      congr 1
      funext task
      cases hRow : s.tasks task <;> simp [Option.guard, hRow]
    rw [hFilter]
    exact List.filter_sublist
  have hListed : (s.listForRecovery.1.map (·.1)).Sublist (s.allTasks.map (·.1)) :=
    (List.filter_sublist.trans List.filter_sublist).map _
  exact List.nodup_range.sublist (hListed.trans hAll)

theorem spec_forRecovery :
    Co.Spec protocol me (Known (Service.Built me)) forRecovery fun tasks s =>
      (tasks.1.map (·.1)).Nodup ∧ Known (Service.Owed me (tasks.1.map (·.1))) s := by
  refine Co.Triple.tryCatch (E := fun _ => True)
    (Co.triple_attempt lasting_built.stable fun s hInv hBuilt => ?_) fun _ _ => ?_
  · dsimp only
    split
    · have hIdle : Steady me s s := steady_aside hInv (Service.Aside.refl s)
      exact ⟨hIdle.1, hIdle.2, by simp, fun _ _ => trivial⟩
    · have hSteady : Steady me s _ := steady_listed
        (s.listForRecovery.1.all fun orphan => !(s.started.map (·.1)).contains orphan.1) hInv
      refine ⟨hSteady.1, hSteady.2, ?_, fun _ _ => trivial⟩
      rintro tasks hTasks
      obtain rfl := Except.ok.inj hTasks
      refine ⟨nodup_orphaned s, fun hClean task hMem => ?_⟩
      obtain ⟨orphan, hOrphan, rfl⟩ := List.mem_map.mp hMem
      obtain ⟨hAll, hActive⟩ := mem_orphaned.mp hOrphan
      obtain ⟨hRecovery, hProcesses⟩ := hBuilt (hClean.of_prefix (List.prefix_append _ _))
      -- the read was clean, so none of its orphans was started here
      have hFlag : (s.listForRecovery.1.all fun orphan =>
          !(s.started.map (·.1)).contains orphan.1) = true := by
        by_contra hDirty
        rw [Bool.not_eq_true] at hDirty
        exact hClean (by rw [hDirty]; exact List.mem_append_right _ List.mem_cons_self)
      have hForeign : ¬s.StartedHere orphan.1 := by
        simpa [Service.StartedHere] using List.all_eq_true.mp hFlag orphan hOrphan
      refine ⟨⟨orphan.2, (mem_allTasks.mp hAll).2, hActive⟩, hRecovery, ?_, hForeign⟩
      rintro ⟨p, hProcess, hTask⟩
      exact hForeign (hTask ▸ hProcesses p hProcess)
  · exact Co.triple_done fun _ _ _ => ⟨List.nodup_nil, fun _ _ hMem => by cases hMem⟩

section Restart

variable {fuel : Nat} {task : TaskId} {rest : List TaskId}

/-- The tasks that come after this one. -/
theorem owed_rest {s : Service} (hOwed : Known (Service.Owed me (task :: rest)) s) :
    Known (Service.Owed me rest) s :=
  fun hClean other hMem => hOwed hClean other (List.mem_cons_of_mem task hMem)

/-- What happens to the row of one task is nothing to the others. -/
theorem owed_setTask {s s' : Service} {row : TaskRow} (hFresh : task ∉ rest)
    (hOwed : s.Owed me (task :: rest))
    (hTasks : s'.tasks = Function.update s.tasks task (some row))
    (hRecovery : s'.recovery = s.recovery) (hProcesses : s'.processes = s.processes)
    (hStarted : s'.started = s.started) : s'.Owed me rest := by
  intro other hMem
  obtain ⟨⟨old, hRow, hActive⟩, hInherited⟩ := hOwed other (List.mem_cons_of_mem task hMem)
  have hOther : other ≠ task := fun hEq => hFresh (hEq ▸ hMem)
  refine ⟨⟨old, ?_, hActive⟩, ?_⟩
  · rw [hTasks, Function.update_of_ne hOther, hRow]
  · unfold Service.Inherited Service.HasProcess Service.StartedHere at hInherited ⊢
    rw [hRecovery, hProcesses, hStarted]
    exact hInherited

/-- A task that may not be restarted is failed, and the failure is delivered. -/
theorem leads_refuseRestart (hFresh : task ∉ rest) (error : String) :
    Co.Leads protocol me (Known (Service.Owed me (task :: rest)))
      (onOutbox (Outbox.refuseRestart me fuel task error)) (Known (Service.Owed me rest)) := by
  have hRest : Stamps (Co.bind (Co.modify (Outbox.Runner.enqueue [.failed error] (some task)
      none false)) fun _ => Outbox.flushDeliveries me fuel) :=
    (stamps_enqueue _ _ _ _).bind fun _ => stamps_flushDeliveries fuel
  have hSplit : onOutbox (Outbox.refuseRestart me fuel task error) =
      (onOutbox (Outbox.markFailed task error)).bind fun _ => onOutbox
        (Co.bind (Co.modify (Outbox.Runner.enqueue [.failed error] (some task) none false))
          fun _ => Outbox.flushDeliveries me fuel) :=
    Co.zoom_bind _ _
  rw [hSplit]
  refine Co.Leads.bind (B := Known (Service.Owed me rest)) ?_
    (fun _ => leads_onOutbox (lasting_owed rest) hRest) fun _ _ hOwed => hOwed
  have hMark : onOutbox (Outbox.markFailed task error) = Co.attempt _ := Co.zoom_attempt _
  rw [hMark]
  refine Co.leads_attempt (lasting_owed (task :: rest)).stable fun s hInv hOwed => ?_
  have hIdle : Steady me s s := steady_aside hInv (Service.Aside.refl s)
  dsimp only
  split
  · exact ⟨hIdle.1, hIdle.2, owed_rest hOwed⟩
  split
  · exact ⟨hIdle.1, hIdle.2, owed_rest hOwed⟩
  · next row hRow =>
      have hNoRows : ∀ m ∈ ([] : List MessageRow), m.taskId = none ∨ m.taskId = some task := by
        simp
      have hSteady : Steady me s (s.setTask task { row with status := .failed, error := some error }) :=
        steady_finish hInv hRow rfl hNoRows
          (fun hClean => ⟨(hOwed hClean task List.mem_cons_self).1,
            Or.inr (hOwed hClean task List.mem_cons_self).2⟩)
          rfl (List.append_nil _).symm rfl rfl rfl rfl rfl
      exact ⟨hSteady.1, hSteady.2, fun hClean => owed_setTask hFresh (hOwed hClean) rfl rfl rfl rfl⟩

/-- The budget is asked, and a refused task is failed. -/
theorem leads_admitOrphaned {cont : Bool → Work Unit} (hFresh : task ∉ rest)
    (hYes : Co.Leads protocol me (Known (Service.Owed me (task :: rest))) (cont true)
      (Known (Service.Owed me rest)))
    (hNo : Co.Leads protocol me (Known (Service.Owed me rest)) (cont false)
      (Known (Service.Owed me rest))) :
    Co.Leads protocol me (Known (Service.Owed me (task :: rest)))
      (Co.bind (admitOrphaned me fuel task) cont) (Known (Service.Owed me rest)) := by
  unfold admitOrphaned
  simp only [Co.bind_eq, Co.pure_eq_done]
  rw [Co.bind_assoc]
  refine (leads_select (lasting_owed (task :: rest))).bind (fun verdict => ?_)
    fun _ _ hOwed => owed_rest hOwed
  cases verdict with
  | none => exact hYes
  | some error =>
      dsimp only
      rw [Co.bind_assoc]
      exact (leads_refuseRestart hFresh error).bind (fun _ => hNo) fun _ _ hOwed => hOwed

theorem leads_restartProcess (row : TaskRow) (hFresh : task ∉ rest) :
    Co.Leads protocol me (Known (Service.Owed me (task :: rest)))
      (Co.modify (restartProcess task row) : Work Unit) (Known (Service.Owed me rest)) := by
  refine Co.leads_modify (lasting_owed (task :: rest)).stable fun s hInv hOwed => ?_
  have hSteady : Steady me s (restartProcess task row s) :=
    steady_create hInv rfl (fun note hMem => List.mem_singleton.mp hMem) fun hClean => by
      obtain ⟨hActive, hInherited⟩ := hOwed hClean task List.mem_cons_self
      exact ⟨by rw [hInherited.1]; rfl, hActive, hInherited.2.1, Or.inr hInherited⟩
  refine ⟨hSteady.1, hSteady.2, fun hClean other hMem => ?_⟩
  have hBefore := hClean.of_prefix (List.prefix_append s.trail _)
  obtain ⟨hActive, hRecovery, hNone, hStarted⟩ :=
    hOwed hBefore other (List.mem_cons_of_mem task hMem)
  refine ⟨hActive, hRecovery, ?_, hStarted⟩
  rintro ⟨p, hProcess, rfl⟩
  rcases List.mem_append.mp hProcess with hOld | hNew
  · exact hNone ⟨p, (List.mem_filter.mp hOld).1, rfl⟩
  · obtain rfl := List.mem_singleton.mp hNew
    exact hFresh hMem

theorem leads_writeExchange (exchangeId : Option ExchangeId) :
    Co.Leads protocol me (Known (Service.Owed me rest)) (writeExchange exchangeId)
      (Known (Service.Owed me rest)) := by
  cases exchangeId with
  | none => exact Co.leads_done fun _ _ hOwed => hOwed
  | some x => exact leads_select (lasting_owed rest)

theorem leads_restartAnswer (row : TaskRow) (hFresh : task ∉ rest) :
    Co.Leads protocol me (Known (Service.Owed me (task :: rest)))
      (restartAnswer me fuel task row) (Known (Service.Owed me rest)) := by
  refine leads_admitOrphaned hFresh ?_ (leads_writeExchange row.exchangeId)
  refine (leads_select (lasting_owed (task :: rest))).bind (fun _ => ?_)
    fun _ _ hOwed => owed_rest hOwed
  exact (leads_restartProcess row hFresh).bind (fun _ => leads_writeExchange row.exchangeId)
    fun _ _ hOwed => hOwed

theorem leads_closeSilently (hFresh : task ∉ rest) :
    Co.Leads protocol me (Known (Service.Owed me (task :: rest))) (closeSilently task)
      (Known (Service.Owed me rest)) := by
  refine Co.Leads.bind (B := Known (Service.Owed me rest)) (leads_finish
    (lasting_owed (task :: rest)) rfl (by simp) (fun s hOwed => ?_) (fun s hOwed => ?_)
    fun s row hOwed => ?_) (fun _ => Co.leads_done fun _ _ hOwed => hOwed) fun _ _ hOwed => hOwed
  · exact ⟨(hOwed task List.mem_cons_self).1, Or.inr (hOwed task List.mem_cons_self).2⟩
  · exact fun other hMem => hOwed other (List.mem_cons_of_mem task hMem)
  · exact owed_setTask hFresh hOwed rfl rfl rfl rfl

theorem leads_startOrphaned (row : TaskRow) (hFresh : task ∉ rest) :
    Co.Leads protocol me (Known (Service.Owed me (task :: rest)))
      (startOrphaned me fuel task row) (Known (Service.Owed me rest)) := by
  unfold startOrphaned
  cases row.kind with
  | run =>
      exact leads_admitOrphaned hFresh (leads_restartProcess row hFresh)
        (Co.leads_done fun _ _ hOwed => hOwed)
  | answer =>
      have hAwaits : Co.Leads protocol me (Known (Service.Owed me (task :: rest)))
          (exchangeAwaitsUser row.exchangeId) (Known (Service.Owed me (task :: rest))) := by
        unfold exchangeAwaitsUser
        split
        · exact Co.leads_done fun _ _ hOwed => hOwed
        · exact leads_select (lasting_owed (task :: rest))
      refine hAwaits.bind (fun waits => ?_) fun _ _ hOwed => owed_rest hOwed
      cases waits with
      | true => exact leads_closeSilently hFresh
      | false => exact leads_restartAnswer row hFresh

theorem leads_restartTask (maxProcesses : Nat) (row : TaskRow) (hFresh : task ∉ rest) :
    Co.Leads protocol me (Known (Service.Owed me (task :: rest)))
      (restartTask maxProcesses me fuel task row) (Known (Service.Owed me rest)) := by
  have hRoom : Co.Leads protocol me (Known (Service.Owed me (task :: rest)))
      (Co.read fun s : Service => decide (s.processes.length < maxProcesses) : Work Bool)
      (Known (Service.Owed me (task :: rest))) :=
    Co.leads_read (lasting_owed (task :: rest)).stable fun s hInv =>
      (steady_aside hInv (Service.Aside.refl s)).2
  refine hRoom.bind (fun room => ?_) fun _ _ hOwed => owed_rest hOwed
  cases room with
  | true => exact leads_startOrphaned row hFresh
  | false => exact leads_refuseRestart hFresh restartLimitError

end Restart

theorem spec_recoverDialog (maxProcesses fuel : Nat) :
    Co.Spec protocol me (fun _ => True) (recoverDialog maxProcesses me fuel) fun _ _ => True := by
  have hBuild : Co.Spec protocol me (fun _ => True)
      (Co.blockUntil (fun s : Service => s.recovery.isNone) fun s =>
        ((), { s with recovery := some me }) : Work Unit) fun _ => Known (Service.Built me) := by
    refine Co.triple_blockUntil ((Protocol.Kept.true _).stable me) fun s hInv _ hReady => ?_
    have hUnbuilt : s.recovery = none := Option.isNone_iff_eq_none.mp hReady
    have hSteady : Steady me s { s with recovery := some me } := steady_build hInv hUnbuilt
    refine ⟨hSteady.1, hSteady.2, fun hClean => ⟨rfl, fun p hMem => ?_⟩⟩
    have hEmpty : s.processes = [] := (hInv.coherent hClean).unbuilt hUnbuilt
    have hOld : p ∈ s.processes := hMem
    rw [hEmpty] at hOld
    cases hOld
  refine hBuild.bind fun _ => spec_forRecovery.bind fun tasks => ?_
  let Rest : List (TaskId × TaskRow) → Service → Prop := fun rest s =>
    (rest.map (·.1)).Nodup ∧ Known (Service.Owed me (rest.map (·.1))) s
  -- By the tasks that are left: each restart is owed once, and is done with after its turn.
  have hRestarts : Co.Leads protocol me (Rest tasks.1) (Co.forEach tasks.1 fun orphan =>
      Co.tryCatch (restartTask maxProcesses me fuel orphan.1 orphan.2) fun _ =>
        (pure () : Work Unit)) (Rest []) := by
    refine Co.Leads.forEach (fun orphan rest s hInv hRest => ?_) (fun _ _ _ _ =>
      ⟨List.nodup_nil, fun _ _ hMem => by cases hMem⟩) tasks.1
    obtain ⟨hNodup, hOwed⟩ := hRest
    obtain ⟨hFresh, hNodup'⟩ := List.nodup_cons.mp hNodup
    have hBody : Co.Leads protocol me (Known (Service.Owed me (orphan.1 :: rest.map (·.1))))
        (Co.tryCatch (restartTask maxProcesses me fuel orphan.1 orphan.2) fun _ =>
          (pure () : Work Unit)) (Known (Service.Owed me (rest.map (·.1)))) :=
      (leads_restartTask maxProcesses orphan.2 hFresh).tryCatch
        (fun _ => Co.leads_done fun _ _ hOwed => hOwed) fun _ _ hOwed => hOwed
    exact (hBody s hInv hOwed).mono fun _ _ hAfter => ⟨hAfter.1, hNodup', hAfter.2⟩
  refine hRestarts.spec.bind fun _ => ?_
  refine (Co.Triple.forEach fun task _ => ?_ : Co.Spec protocol me (fun _ => True) _
    fun _ _ => True).pre fun _ _ _ => trivial
  refine (Co.leads_modify ((Protocol.Kept.true _).stable me) fun s hInv _ => ?_).spec
  have hSteady : Steady me s (requestResultDelivery task.1 s) :=
    steady_aside hInv ⟨Stamped.refl _, rfl, rfl, rfl, rfl, rfl, rfl⟩
  exact ⟨hSteady.1, hSteady.2, trivial⟩

end Coroutines

/-! ## Every run -/

theorem lifecycle_follows (maxProcesses : Nat) : (lifecycle maxProcesses).Follows protocol where
  body_safe call me s hInv := by
    have hSpec : Co.Spec protocol me (fun _ => True) (lifecycleBody maxProcesses call me)
        fun _ _ => True := by
      cases call with
      | recover fuel => exact spec_recoverDialog maxProcesses fuel
      | startRun kind title exchangeId => exact spec_startRun kind title exchangeId
      | pump task accepted outcome => exact spec_pumpProcess task accepted outcome
      | handleTerminated fuel => exact spec_handleTerminated fuel
      | flush fuel => exact spec_onOutbox (stamps_flushDeliveries fuel)
      | deliverNotice fuel content exchangeId =>
          exact spec_onOutbox (stamps_deliverNotice fuel content exchangeId)
    exact (hSpec s hInv trivial).mono fun _ _ _ => trivial
  event_env event s s' hInv hEvent := by
    have hAside : s.Aside s' := by
      cases event with
      | queue op =>
          obtain rfl := Option.some.inj hEvent
          exact ⟨Stamped.refl _, rfl, rfl, rfl, rfl, rfl, rfl⟩
      | store down =>
          obtain rfl := Option.some.inj hEvent
          exact ⟨Stamped.refl _, rfl, rfl, rfl, rfl, rfl, rfl⟩
      | budget refusal =>
          obtain rfl := Option.some.inj hEvent
          exact ⟨Stamped.refl _, rfl, rfl, rfl, rfl, rfl, rfl⟩
      | awaiting x waits =>
          obtain rfl := Option.some.inj hEvent
          exact ⟨Stamped.refl _, rfl, rfl, rfl, rfl, rfl, rfl⟩
    exact ⟨hAside.inv hInv, hAside⟩
  -- A crash takes the processes, and with them everything the invariant says of them.
  crash_inv s s' hInv hCrash := by
    obtain rfl := Option.some.inj hCrash
    refine ⟨hInv.logs, hInv.bounded, fun hClean => ?_⟩
    exact ⟨List.nodup_nil, by simp [Service.restart], by simp [Service.restart],
      by simp [Service.restart], List.nodup_nil, fun _ => rfl, (hInv.coherent hClean).restarted⟩

theorem inv_fresh (dialogId : String) : (Service.fresh dialogId).Inv := by
  refine ⟨by simp [Service.Logs, Service.fresh], by simp [Service.tasks, Service.fresh],
    fun _ => ⟨List.nodup_nil, ?_, ?_, ?_, List.nodup_nil, fun _ => rfl, ?_⟩⟩
  all_goals simp [Service.fresh]

namespace Service

/-- Recovery does not repeat an answer. -/
structure NotRepeated (s : Service) : Prop where
  /-- A message of a task is stored beside the finished row of the task. -/
  logged : ∀ m ∈ s.messages, ∀ task, m.taskId = some task →
    ∃ row, s.tasks task = some row ∧ row.status.isActive = false
  /-- No task was ever restarted that had a message in the log. -/
  restarts : ∀ task logged, .restarted task logged ∈ s.trail → logged = false
  /-- A result without a stamp is found by the next recovery. -/
  found : ∀ task row, s.tasks task = some row → reported row.status = true →
    row.delivered = false → (task, row) ∈ s.listForRecovery.2
  /-- No task is orphaned and undelivered at once. -/
  oneRole : ∀ task ∈ s.listForRecovery.1.map (·.1), task ∉ s.listForRecovery.2.map (·.1)

theorem Inv.notRepeated {s : Service} (hInv : s.Inv) (hClean : s.Clean) : s.NotRepeated := by
  refine ⟨hInv.logs, (hInv.coherent hClean).restarted, ?_, ?_⟩
  · intro task row hRow hReported hDelivered
    refine mem_undelivered.mpr ⟨mem_allTasks.mpr ⟨hInv.bounded task row hRow, hRow⟩, ?_,
      hReported, hDelivered⟩
    show row.status.isActive = false
    cases hStatus : row.status with
    | pending => simp [reported, hStatus] at hReported
    | running => simp [reported, hStatus] at hReported
    | done => rfl
    | failed => rfl
    | cancelled => rfl
  · intro task hOrphaned hUndelivered
    obtain ⟨orphan, hOrphan, rfl⟩ := List.mem_map.mp hOrphaned
    obtain ⟨other, hOther, hSame⟩ := List.mem_map.mp hUndelivered
    obtain ⟨hAll, hActive⟩ := mem_orphaned.mp hOrphan
    obtain ⟨hAll', hDone, -⟩ := mem_undelivered.mp hOther
    have hRow := (mem_allTasks.mp hAll).2
    rw [← hSame, (mem_allTasks.mp hAll').2] at hRow
    rw [Option.some.inj hRow, hActive] at hDone
    exact absurd hDone (by simp)

/-- The task has an outcome for the user. -/
def Reported (task : TaskId) (s : Service) : Prop :=
  ∃ row, s.tasks task = some row ∧ reported row.status = true

theorem Reported.not_active {s : Service} {task : TaskId} (hReported : s.Reported task) :
    ¬s.Active task := by
  rintro ⟨row, hRow, hActive⟩
  obtain ⟨row', hRow', hStatus⟩ := hReported
  obtain rfl := Option.some.inj (hRow.symm.trans hRow')
  cases hCase : row.status <;> simp_all [reported, TaskStatus.isActive]

theorem Reported.orderly {s s' : Service} {task : TaskId} {me : Nat} (hReported : s.Reported task)
    (hOrderly : s.Orderly me s') : s'.Reported task := by
  obtain ⟨row, hRow, hStatus⟩ := hReported
  rcases hOrderly.rows task with ⟨hActive, -⟩ | hNone | hEq | ⟨row', hRow', hStamped⟩
  · exact absurd hActive (not_active ⟨row, hRow, hStatus⟩)
  · rw [hRow] at hNone
    exact absurd hNone (by simp)
  · exact ⟨row, hEq.trans hRow, hStatus⟩
  · obtain rfl := Option.some.inj (hRow'.symm.trans hRow)
    exact ⟨_, hStamped, hStatus⟩

end Service

/-- In every run whose recoveries read no task of their own runner, with crashes
between any two commits: nothing that is in the log is answered again, and from
the moment a task has an outcome for the user it is found by the next recovery
until it is stamped. -/
theorem answers_not_repeated {maxProcesses : Nat} {dialogId : String} {p q : Pool Service StoreError}
    (hFirst : System.Run (lifecycle maxProcesses) { st := Service.fresh dialogId } p)
    (hThen : System.Run (lifecycle maxProcesses) p q) (hClean : q.st.Clean) :
    q.st.NotRepeated ∧ ∀ task row, p.st.tasks task = some row →
      Service.reported row.status = true →
      ∃ row', q.st.tasks task = some row' ∧
        (row'.delivered = true ∨ (task, row') ∈ q.st.listForRecovery.2) := by
  have hFollows := lifecycle_follows maxProcesses
  have hSafe := hFirst.sound hFollows (System.PoolSafe.initial (inv_fresh dialogId))
  have hInv := (hThen.sound hFollows hSafe).1
  have hAnswers := Service.Inv.notRepeated hInv hClean
  refine ⟨hAnswers, fun task row hRow hStatus => ?_⟩
  have hKept : q.st.Clean → q.st.Reported task := by
    refine System.Run.preserves (A := fun s : Service => s.Clean → s.Reported task) hFollows
      (fun s s' hInv' hReported hStep hClean' => ?_) hThen hSafe fun _ => ⟨row, hRow, hStatus⟩
    cases hStep with
    | idle hEq => exact hEq ▸ hReported (hEq ▸ hClean')
    | guarantee me hGuarantee =>
        exact (hReported (hClean'.of_prefix hGuarantee.1)).orderly (hGuarantee.2 hClean')
    | env hAside =>
        exact (hReported (hClean'.of_prefix (hAside.trail ▸ List.prefix_refl _))).orderly
          (hAside.orderly 0)
    | crash hCrash =>
        obtain rfl := Option.some.inj hCrash
        exact hReported hClean'
  obtain ⟨row', hRow', hStatus'⟩ := hKept hClean
  refine ⟨row', hRow', ?_⟩
  cases hDelivered : row'.delivered with
  | true => exact Or.inl rfl
  | false => exact Or.inr (hAnswers.found task row' hRow' hStatus' hDelivered)

/-- A background run stores its answer, and the process dies before the stamp. -/
def finishedUnstamped : List (lifecycle 5).Move :=
  List.flatten [[.start (.recover 9)], List.replicate 2 (.resume 0),
    [.start (.startRun .run "report" none)], List.replicate 3 (.resume 1),
    [.start (.pump 0 false (.finished "done" none))], List.replicate 2 (.resume 2)]

/-- The next runner recovers the dialog. -/
def recoveredAfterwards : List (lifecycle 5).Move :=
  List.flatten [[.crash, .start (.recover 9)], List.replicate 3 (.resume 0)]

theorem answers_not_repeated_recovered :
    ∃ p q : Pool Service StoreError,
      System.Run (lifecycle 5) { st := Service.fresh "d" } p ∧ System.Run (lifecycle 5) p q ∧
      (q.st.messages.map (·.taskId), q.st.trail, q.st.listForRecovery.2.map (·.1)) =
        ([some 0], [.listed true, .listed true], [0]) ∧
      q.st.NotRepeated ∧ ∃ row, q.st.tasks 0 = some row ∧
        (row.delivered = true ∨ (0, row) ∈ q.st.listForRecovery.2) := by
  have hMoves : ((System.moves finishedUnstamped { st := Service.fresh "d" }).bind fun p =>
      (System.moves recoveredAfterwards p).map fun q =>
        (((p.st.tasks 0).map fun row => Service.reported row.status),
          q.st.messages.map (·.taskId), q.st.trail, q.st.listForRecovery.2.map (·.1))) =
      some (some true, [some 0], [.listed true, .listed true], [0]) := by
    decide +kernel
  obtain ⟨p, q, hFirst, hThen, hSeen⟩ := System.Run.exists_of_moves_twice _ _ hMoves
  obtain ⟨hStored, hAnswer⟩ := Prod.mk.inj hSeen
  obtain ⟨row, hRow, hStatus⟩ := Option.map_eq_some_iff.mp hStored
  have hClean : q.st.Clean := by
    show Note.listed false ∉ q.st.trail
    rw [(Prod.mk.inj (Prod.mk.inj hAnswer).2).1]
    decide
  obtain ⟨hAnswers, hFound⟩ := answers_not_repeated hFirst hThen hClean
  exact ⟨p, q, hFirst, hThen, hAnswer, hAnswers, hFound 0 row hRow hStatus⟩

/-- The process dies over one run, and the runner that is built next starts
another before its recovery has read the table. -/
def startedBeforeRead : List (lifecycle 5).Move :=
  List.flatten [[.start (.recover 9)], List.replicate 2 (.resume 0),
    [.start (.startRun .run "report" none)], List.replicate 3 (.resume 1),
    [.crash, .start (.recover 9), .resume 0],
    [.start (.startRun .run "digest" none)], List.replicate 3 (.resume 1),
    List.replicate 4 (.resume 0),
    [.start (.pump 1 false (.finished "done" none))], List.replicate 4 (.resume 2),
    List.replicate 3 (.resume 0)]

/-- The new run is answered while recovery restarts the old one, and then it is
restarted in its turn. -/
theorem answer_restarted_after_start :
    ∃ q : Pool Service StoreError,
      System.Run (lifecycle 5) { st := Service.fresh "d" } q ∧
      (q.st.messages.map (·.taskId), .restarted 1 true ∈ q.st.trail) = ([some 1], True) ∧
      ¬q.st.NotRepeated := by
  have hMoves : (System.moves startedBeforeRead { st := Service.fresh "d" }).map (fun q =>
        (q.st.messages.map (·.taskId), decide (.restarted 1 true ∈ q.st.trail))) =
      some ([some 1], true) := by
    decide +kernel
  obtain ⟨q, hRun, hSeen⟩ := System.Run.exists_of_moves _ hMoves
  obtain ⟨hLogged, hDecided⟩ := Prod.mk.inj hSeen
  have hRestarted := of_decide_eq_true hDecided
  refine ⟨q, hRun, by simp [hLogged, hRestarted], fun hNot => ?_⟩
  exact absurd (hNot.restarts 1 true hRestarted) (by decide)

end Lifecycle
end OctoForge
