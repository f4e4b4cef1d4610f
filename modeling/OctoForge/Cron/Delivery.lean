import OctoForge.Cron.Scheduler

/-!
# A slot is delivered at most once

Slots are delivered in increasing order.  A job that has been delivered and completed has
its next slot after the time of the tick that delivered it, and a resumed one after the
present.  Between the wake and `complete_fire` the row may still show the slot that has
been delivered, but then the tick holds the lease, and a claim asks for a free one.
-/

namespace OctoForge
namespace Cron

open Coop Conversation

namespace System

/-- Where the tick of a scheduler is; one that has none is nowhere in particular. -/
def stageOf (s : System) (owner : String) : Stage := (s.ticks owner).elim .listing (·.stage)

end System

/-- A tick reads the clock when it begins, and lists and fires what is due by then. -/
structure Tick.Timely (tick : Tick) (now : Nat) : Prop where
  begun : tick.now ≤ now
  due : ∀ job ∈ tick.due, job.nextFireAt ≤ tick.now
  fired : ∀ job, tick.stage.job? = some job → job.nextFireAt ≤ tick.now

/-- What holds in every state of an orderly run. -/
structure Inv (s : System) : Prop where
  timely : ∀ owner tick, s.ticks owner = some tick → tick.Timely s.now
  /-- A job that is being fired is claimed by the scheduler that fires it. -/
  held : ∀ owner job row, (s.stageOf owner).job? = some job → s.store.get job.id = some row →
    row.claimedBy = some owner
  sole : ∀ owner owner' job job', (s.stageOf owner).job? = some job →
    (s.stageOf owner').job? = some job' → job.id = job'.id → owner = owner'
  storeDrawn : ∀ id row, s.store.get id = some row → id ∈ s.drawn
  firedDrawn : ∀ owner job, (s.stageOf owner).job? = some job → job.id ∈ s.drawn
  deliveredDrawn : ∀ id slot, (id, slot) ∈ s.delivered → id ∈ s.drawn
  past : ∀ id slot, (id, slot) ∈ s.delivered → slot ≤ s.now
  waking : ∀ owner job slot, s.stageOf owner = .waking job → (job.id, slot) ∈ s.delivered →
    slot < job.nextFireAt
  completing : ∀ owner job slot, s.stageOf owner = .completing job →
    (job.id, slot) ∈ s.delivered → slot ≤ job.nextFireAt
  /-- The next slot of a job is a later one, unless the last one is still to be completed. -/
  ahead : ∀ id slot row, (id, slot) ∈ s.delivered → s.store.get id = some row →
    slot < row.nextFireAt ∨ ∃ owner job, s.stageOf owner = .completing job ∧ job.id = id
  once : s.delivered.Nodup

variable {settings : Settings} {s s' : System} {owner other : String} {tick : Tick} {job : CronJob}

theorem stageOf_eq (hTick : s.ticks owner = some tick) : s.stageOf owner = tick.stage := by
  simp [System.stageOf, hTick]

theorem ticks_of_job? (hJob : (s.stageOf owner).job? = some job) :
    ∃ tick, s.ticks owner = some tick ∧ tick.stage.job? = some job := by
  cases hTick : s.ticks owner with
  | none => simp [System.stageOf, hTick, Stage.job?] at hJob
  | some tick => exact ⟨tick, rfl, by rwa [stageOf_eq hTick] at hJob⟩

theorem Inv.fired_le (hInv : Inv s) (hTick : s.ticks owner = some tick)
    (hJob : tick.stage.job? = some job) : job.nextFireAt ≤ tick.now :=
  (hInv.timely owner tick hTick).fired job hJob

theorem ticks_put (s : System) (owner other : String) (tick : Option Tick) :
    (s.put owner tick).ticks other = if other = owner then tick else s.ticks other := rfl

theorem stageOf_put (s : System) (owner other : String) (tick : Option Tick) :
    (s.put owner tick).stageOf other =
      if other = owner then tick.elim .listing (·.stage) else s.stageOf other := by
  simp only [System.stageOf, ticks_put]
  split <;> rfl

theorem stageOf_put_some (s : System) (owner other : String) (tick : Tick) :
    other = owner ∧ (s.put owner (some tick)).stageOf other = tick.stage ∨
      other ≠ owner ∧ (s.put owner (some tick)).stageOf other = s.stageOf other := by
  rw [stageOf_put]
  split
  · rename_i hSame
    exact .inl ⟨hSame, rfl⟩
  · rename_i hOther
    exact .inr ⟨hOther, rfl⟩

theorem inv_initial (now : Nat) (store : Store) : Inv (.initial now store) where
  timely _ _ hTick := by cases hTick
  held _ _ _ hJob := by cases hJob
  sole _ _ _ _ hJob := by cases hJob
  storeDrawn _ _ hGet := Store.mem_ids_of_get hGet
  firedDrawn _ _ hJob := by cases hJob
  deliveredDrawn _ _ hMem := by cases hMem
  past _ _ hMem := by cases hMem
  waking _ _ _ _ hMem := by cases hMem
  completing _ _ _ _ hMem := by cases hMem
  ahead _ _ _ hMem := by cases hMem
  once := List.nodup_nil

/-! ## The clock and the users -/

theorem Inv.pass (hInv : Inv s) (elapsed : Nat) : Inv { s with now := s.now + elapsed } :=
  { hInv with
    timely := fun owner tick hTick =>
      { hInv.timely owner tick hTick with
        begun := Nat.le_add_right_of_le (hInv.timely owner tick hTick).begun }
    past := fun id slot hMem => Nat.le_add_right_of_le (hInv.past id slot hMem) }

/-- What a user or a report may do to a job: the lease stays, and the next slot stays or is
moved past the present. -/
def Apart (now : Nat) (row row' : CronJob) : Prop :=
  row'.claimedBy = row.claimedBy ∧ (row'.nextFireAt = row.nextFireAt ∨ now < row'.nextFireAt)

theorem Inv.withStore (hInv : Inv s) {store : Store} {drawn : List JobId}
    (hDrawn : ∀ id ∈ s.drawn, id ∈ drawn) (hAll : ∀ id row', store.get id = some row' → id ∈ drawn)
    (hRows : ∀ id row', store.get id = some row' →
      id ∉ s.drawn ∨ ∃ row, s.store.get id = some row ∧ Apart s.now row row') :
    Inv { s with store, drawn } where
  timely := hInv.timely
  held owner job row' hJob hGet := by
    rcases hRows _ _ hGet with hNew | ⟨row, hOld, hLease, -⟩
    · exact absurd (hInv.firedDrawn owner job hJob) hNew
    · exact hLease.trans (hInv.held owner job row hJob hOld)
  sole := hInv.sole
  storeDrawn := hAll
  firedDrawn owner job hJob := hDrawn _ (hInv.firedDrawn owner job hJob)
  deliveredDrawn id slot hMem := hDrawn _ (hInv.deliveredDrawn id slot hMem)
  past := hInv.past
  waking := hInv.waking
  completing := hInv.completing
  ahead id slot row' hMem hGet := by
    rcases hRows _ _ hGet with hNew | ⟨row, hOld, -, hSame | hLater⟩
    · exact absurd (hInv.deliveredDrawn id slot hMem) hNew
    · rw [hSame]
      exact hInv.ahead id slot row hMem hOld
    · have hPast := hInv.past id slot hMem
      left
      omega
  once := hInv.once

/-- The same, for a store without new jobs. -/
theorem Inv.edit (hInv : Inv s) {store : Store}
    (hRows : ∀ id row', store.get id = some row' →
      ∃ row, s.store.get id = some row ∧ Apart s.now row row') : Inv { s with store } := by
  refine hInv.withStore (fun _ hMem => hMem) (fun id row' hGet => ?_)
    fun id row' hGet => .inr (hRows id row' hGet)
  obtain ⟨row, hOld, -⟩ := hRows id row' hGet
  exact hInv.storeDrawn id row hOld

theorem Apart.refl (now : Nat) (row : CronJob) : Apart now row row := ⟨rfl, .inl rfl⟩

theorem apart_update {store : Store} {now : Nat} {id : JobId} {values : CronJob → CronJob}
    (hId : ∀ job, (values job).id = job.id) (hValues : ∀ row, Apart now row (values row))
    (id' : JobId) (row' : CronJob) (hGet : (store.update id values hId).get id' = some row') :
    ∃ row, store.get id' = some row ∧ Apart now row row' := by
  rw [Store.get_update] at hGet
  split at hGet
  · obtain ⟨row, hOld, rfl⟩ := Option.map_eq_some_iff.mp hGet
    exact ⟨row, hOld, hValues row⟩
  · exact ⟨row', hGet, .refl now row'⟩

theorem apart_setEnabled {userId : String} {enabled : Bool} {now : Nat} {slot : Option Nat}
    (hLater : ∀ next, slot = some next → now < next) (row : CronJob) :
    Apart now row (if row.userId = userId then row.setEnabled enabled slot else row) := by
  split
  · cases slot with
    | none => exact ⟨rfl, .inl rfl⟩
    | some next => exact ⟨rfl, .inr (hLater next rfl)⟩
  · exact .refl now row

theorem apart_recordFireResult (now : Nat) (status : TaskStatus) (error : Option String)
    (row : CronJob) : Apart now row (row.recordFireResult status error none) :=
  ⟨rfl, .inl rfl⟩

theorem Inv.create (hInv : Inv s) (hDrawn : job.id ∉ s.drawn)
    (hFresh : job.id ∉ s.store.rows.map (·.id)) :
    Inv { s with store := s.store.create job hFresh, drawn := job.id :: s.drawn } := by
  refine hInv.withStore (fun _ => List.mem_cons_of_mem _) (fun id row' hGet => ?_)
    fun id row' hGet => ?_
  · rcases Store.get_create hGet with hOld | ⟨-, rfl⟩
    · exact List.mem_cons_of_mem _ (hInv.storeDrawn id row' hOld)
    · exact List.mem_cons_self
  · rcases Store.get_create hGet with hOld | ⟨-, rfl⟩
    · exact .inr ⟨row', hOld, .refl s.now row'⟩
    · exact .inl hDrawn

theorem Inv.applyReport (hInv : Inv s) (report : Report) (reports : List Report) :
    Inv { s with store := s.store.applyReport report, reports } := by
  have hStore : Inv { s with store := s.store.applyReport report } := by
    cases report with
    | ignored => exact hInv
    | deleting userId id =>
        exact hInv.edit fun id' row' hGet =>
          ⟨row', Store.get_of_deleteForUser hGet, .refl s.now row'⟩
    | recording id status error =>
        exact hInv.edit fun id' row' hGet =>
          apart_update (fun job => job.recordFireResult_id status error none)
            (apart_recordFireResult s.now status error) id' row' hGet
  exact { hStore with }

/-! ## A tick -/

/-- A tick that is not firing a job any more, or is gone. -/
theorem Inv.letGo (hInv : Inv s) {tick' : Option Tick} {store : Store}
    (hTick : ∀ tick, tick' = some tick → tick.Timely s.now ∧ tick.stage.job? = none)
    (hRows : ∀ id row', store.get id = some row' → ∃ row, s.store.get id = some row ∧
      (row'.claimedBy = row.claimedBy ∨ ∃ job, (s.stageOf owner).job? = some job ∧ job.id = id) ∧
      (row'.nextFireAt = row.nextFireAt ∨
        ∀ slot, (id, slot) ∈ s.delivered → slot < row'.nextFireAt))
    (hDone : ∀ job row' slot, s.stageOf owner = .completing job →
      store.get job.id = some row' → (job.id, slot) ∈ s.delivered → slot < row'.nextFireAt) :
    Inv { s.put owner tick' with store } := by
  -- Whoever fires a job afterwards is another scheduler, which has fired it before.
  have hStage : ∀ other, (s.put owner tick').stageOf other = s.stageOf other ∧ other ≠ owner ∨
      ((s.put owner tick').stageOf other).job? = none := by
    intro other
    rw [stageOf_put]
    split
    · right
      cases hCases : tick' with
      | none => rfl
      | some tick => exact (hTick tick hCases).2
    · rename_i hOther
      exact .inl ⟨rfl, hOther⟩
  have hFires : ∀ other job, ((s.put owner tick').stageOf other).job? = some job →
      (s.stageOf other).job? = some job ∧ other ≠ owner := by
    intro other job hJob
    rcases hStage other with ⟨hSame, hOther⟩ | hNone
    · exact ⟨hSame ▸ hJob, hOther⟩
    · simp [hNone] at hJob
  refine
    { timely := ?_, held := ?_, sole := ?_, storeDrawn := ?_, firedDrawn := ?_
      deliveredDrawn := hInv.deliveredDrawn, past := hInv.past, waking := ?_, completing := ?_
      ahead := ?_, once := hInv.once }
  · intro other tick hOther
    change (if other = owner then tick' else s.ticks other) = some tick at hOther
    split at hOther
    · exact (hTick tick hOther).1
    · exact hInv.timely other tick hOther
  · intro other job row' hJob hGet
    obtain ⟨hBefore, hOther⟩ := hFires other job hJob
    obtain ⟨row, hOld, hLease | ⟨job', hJob', hSame⟩, -⟩ := hRows _ _ hGet
    · exact hLease.trans (hInv.held other job row hBefore hOld)
    · exact absurd (hInv.sole other owner job job' hBefore hJob' hSame.symm) hOther
  · intro other other' job job' hJob hJob' hSame
    exact hInv.sole other other' job job' (hFires other job hJob).1 (hFires other' job' hJob').1
      hSame
  · intro id row' hGet
    obtain ⟨row, hOld, -⟩ := hRows id row' hGet
    exact hInv.storeDrawn id row hOld
  · intro other job hJob
    exact hInv.firedDrawn other job (hFires other job hJob).1
  · intro other job slot hWaking hMem
    rcases hStage other with ⟨hSame, -⟩ | hNone
    · exact hInv.waking other job slot (hSame.symm.trans hWaking) hMem
    · change (s.put owner tick').stageOf other = .waking job at hWaking
      rw [hWaking] at hNone
      cases hNone
  · intro other job slot hCompleting hMem
    rcases hStage other with ⟨hSame, -⟩ | hNone
    · exact hInv.completing other job slot (hSame.symm.trans hCompleting) hMem
    · change (s.put owner tick').stageOf other = .completing job at hCompleting
      rw [hCompleting] at hNone
      cases hNone
  · intro id slot row' hMem hGet
    obtain ⟨row, hOld, -, hSlot⟩ := hRows id row' hGet
    rcases hSlot with hSame | hLater
    · rcases hInv.ahead id slot row hMem hOld with hAhead | ⟨other, job, hCompleting, rfl⟩
      · left
        omega
      · by_cases hOther : other = owner
        · subst hOther
          exact .inl (hDone job row' slot hCompleting hGet hMem)
        · refine .inr ⟨other, job, ?_, rfl⟩
          change (s.put owner tick').stageOf other = .completing job
          rw [stageOf_put, if_neg hOther]
          exact hCompleting
    · exact .inl (hLater slot hMem)

/-- Nobody fires a job that is claimed without being stolen. -/
theorem Inv.unfired (hInv : Inv s) {rest : List CronJob} (hTick : s.ticks owner = some tick)
    (hDue : tick.due = job :: rest)
    (hClaims : s.store.claims job.id job.nextFireAt tick.staleBefore = true)
    (hHonest : s.steals owner = false) (other : String) (job' : CronJob)
    (hJob : (s.stageOf other).job? = some job') : job'.id ≠ job.id := by
  intro hSame
  obtain ⟨row, hGet, -⟩ := Store.claims_iff.mp hClaims
  have hHeld : row.claimedBy = some other :=
    hInv.held other job' row hJob (hSame ▸ hGet)
  obtain ⟨tick', hTick', hJob'⟩ := ticks_of_job? hJob
  have hFiring : (s.ticks other).any (·.firing job.id) = true := by
    simp [hTick', Tick.firing, hJob', hSame]
  have hSteals : s.steals owner = true := by
    simp [System.steals, hTick, hDue, hClaims, hGet, hHeld, hFiring]
  exact absurd (hHonest.symm.trans hSteals) (by decide)

theorem Inv.claimed (hInv : Inv s) {rest : List CronJob} (hTick : s.ticks owner = some tick)
    (hClaiming : tick.stage = .claiming) (hDue : tick.due = job :: rest)
    (hClaims : s.store.claims job.id job.nextFireAt tick.staleBefore = true)
    (hHonest : s.steals owner = false) :
    Inv { s.put owner (some { tick with due := rest, stage := .waking job }) with
      store := s.store.claim job.id owner tick.now } := by
  have hUnfired := hInv.unfired hTick hDue hClaims hHonest
  obtain ⟨row, hRow, -, hExpected, -⟩ := Store.claims_iff.mp hClaims
  have hTimely := hInv.timely owner tick hTick
  -- The store keeps its slots, and the claimed row has a new holder.
  have hGet : ∀ id row', (s.store.claim job.id owner tick.now).get id = some row' →
      (id = job.id ∧ row'.claimedBy = some owner ∨ id ≠ job.id ∧ s.store.get id = some row') ∧
      ∃ row, s.store.get id = some row ∧ row'.nextFireAt = row.nextFireAt := by
    intro id row' hGet
    rw [Store.claim, Store.get_update] at hGet
    split at hGet
    · rename_i hSame
      obtain ⟨row, hOld, rfl⟩ := Option.map_eq_some_iff.mp hGet
      exact ⟨.inl ⟨hSame, rfl⟩, row, hOld, rfl⟩
    · rename_i hOther
      exact ⟨.inr ⟨hOther, hGet⟩, row', hGet, rfl⟩
  have hStage := fun other =>
    stageOf_put_some s owner other { tick with due := rest, stage := .waking job }
  refine
    { timely := ?_, held := ?_, sole := ?_, storeDrawn := ?_, firedDrawn := ?_
      deliveredDrawn := hInv.deliveredDrawn, past := hInv.past, waking := ?_, completing := ?_
      ahead := ?_, once := hInv.once }
  · intro other tick' hOther
    change (if other = owner then _ else s.ticks other) = some tick' at hOther
    split at hOther
    · obtain rfl := Option.some.inj hOther
      refine ⟨hTimely.begun, fun job' hMem => ?_, fun job' hJob => ?_⟩
      · exact hTimely.due job' (hDue ▸ List.mem_cons_of_mem _ hMem)
      · obtain rfl := Option.some.inj hJob
        exact hTimely.due job (hDue ▸ List.mem_cons_self)
    · exact hInv.timely other tick' hOther
  · intro other job' row' hJob hNew
    rcases hStage other with ⟨rfl, hWaking⟩ | ⟨-, hSame⟩
    · obtain rfl : job = job' := Option.some.inj ((congrArg Stage.job? hWaking).symm.trans hJob)
      rcases (hGet job.id row' hNew).1 with ⟨-, hHeld⟩ | ⟨hNot, -⟩
      · exact hHeld
      · exact absurd rfl hNot
    · have hBefore : (s.stageOf other).job? = some job' := hSame ▸ hJob
      rcases (hGet job'.id row' hNew).1 with ⟨hClash, -⟩ | ⟨-, hOld⟩
      · exact absurd hClash (hUnfired other job' hBefore)
      · exact hInv.held other job' row' hBefore hOld
  · intro other other' job₁ job₂ hJob₁ hJob₂ hSame
    rcases hStage other with ⟨rfl, hWaking⟩ | ⟨-, hOld⟩ <;>
      rcases hStage other' with ⟨rfl, hWaking'⟩ | ⟨-, hOld'⟩
    · rfl
    · obtain rfl : job = job₁ := Option.some.inj ((congrArg Stage.job? hWaking).symm.trans hJob₁)
      exact absurd hSame.symm (hUnfired other' job₂ (hOld' ▸ hJob₂))
    · obtain rfl : job = job₂ := Option.some.inj ((congrArg Stage.job? hWaking').symm.trans hJob₂)
      exact absurd hSame (hUnfired other job₁ (hOld ▸ hJob₁))
    · exact hInv.sole other other' job₁ job₂ (hOld ▸ hJob₁) (hOld' ▸ hJob₂) hSame
  · intro id row' hNew
    obtain ⟨row, hOld, -⟩ := (hGet id row' hNew).2
    exact hInv.storeDrawn id row hOld
  · intro other job' hJob
    rcases hStage other with ⟨rfl, hWaking⟩ | ⟨-, hSame⟩
    · obtain rfl : job = job' := Option.some.inj ((congrArg Stage.job? hWaking).symm.trans hJob)
      exact hInv.storeDrawn job.id row hRow
    · exact hInv.firedDrawn other job' (hSame ▸ hJob)
  · intro other job' slot hStage' hMem
    rcases hStage other with ⟨rfl, hWaking⟩ | ⟨-, hSame⟩
    · obtain rfl := Stage.waking.inj (hWaking.symm.trans hStage')
      rcases hInv.ahead job.id slot row hMem hRow with hAhead | ⟨other', job', hCompleting, hClash⟩
      · exact hExpected ▸ hAhead
      · exact absurd hClash (hUnfired other' job' (congrArg Stage.job? hCompleting))
    · exact hInv.waking other job' slot (hSame.symm.trans hStage') hMem
  · intro other job' slot hStage' hMem
    rcases hStage other with ⟨rfl, hWaking⟩ | ⟨-, hSame⟩
    · cases hWaking.symm.trans hStage'
    · exact hInv.completing other job' slot (hSame.symm.trans hStage') hMem
  · intro id slot row' hMem hNew
    obtain ⟨row, hOld, hSlot⟩ := (hGet id row' hNew).2
    rcases hInv.ahead id slot row hMem hOld with hAhead | ⟨other, job', hCompleting, hIs⟩
    · exact .inl (hSlot ▸ hAhead)
    · refine .inr ⟨other, job', ?_, hIs⟩
      rcases hStage other with ⟨rfl, -⟩ | ⟨-, hSame⟩
      · rw [stageOf_eq hTick, hClaiming] at hCompleting
        cases hCompleting
      · exact hSame.trans hCompleting

/-- A tick that goes on with the job it is firing. -/
theorem Inv.goOn (hInv : Inv s) (hTick : s.ticks owner = some tick)
    (hWaking : tick.stage = .waking job) {stage : Stage} (hJob : stage.job? = some job)
    (hStage : stage ≠ .waking job) {delivered : List (JobId × Nat)}
    (hDelivered : ∀ id slot, (id, slot) ∈ delivered → (id, slot) ∈ s.delivered ∨
      stage = .completing job ∧ id = job.id ∧ slot = job.nextFireAt)
    (hOnce : delivered.Nodup) :
    Inv { s.put owner (some { tick with stage }) with delivered } := by
  have hWas : s.stageOf owner = .waking job := (stageOf_eq hTick).trans hWaking
  have hCases := fun other => stageOf_put_some s owner other { tick with stage }
  have hSameJob : ∀ other, ((s.put owner (some { tick with stage })).stageOf other).job? =
      (s.stageOf other).job? := by
    intro other
    rcases hCases other with ⟨rfl, hNow⟩ | ⟨-, hSame⟩
    · rw [hNow, hWas]
      exact hJob
    · rw [hSame]
  -- Only this tick can be firing a job that has been delivered just now.
  have hOlder : ∀ other job' slot, other ≠ owner → (s.stageOf other).job? = some job' →
      (job'.id, slot) ∈ delivered → (job'.id, slot) ∈ s.delivered := by
    intro other job' slot hOther hFires hMem
    rcases hDelivered _ _ hMem with hOld | ⟨-, hId, -⟩
    · exact hOld
    · exact absurd (hInv.sole other owner job' job hFires (congrArg Stage.job? hWas) hId) hOther
  have hTimely := hInv.timely owner tick hTick
  have hFired : job.nextFireAt ≤ tick.now := hInv.fired_le hTick (congrArg Stage.job? hWaking)
  refine
    { timely := ?_, storeDrawn := hInv.storeDrawn, once := hOnce
      held := fun other job' row hFires => hInv.held other job' row (hSameJob other ▸ hFires)
      sole := fun other other' job₁ job₂ hJob₁ hJob₂ =>
        hInv.sole other other' job₁ job₂ (hSameJob other ▸ hJob₁) (hSameJob other' ▸ hJob₂)
      firedDrawn := fun other job' hFires => hInv.firedDrawn other job' (hSameJob other ▸ hFires)
      deliveredDrawn := ?_, past := ?_, waking := ?_, completing := ?_, ahead := ?_ }
  · intro other tick' hOther
    change (if other = owner then _ else s.ticks other) = some tick' at hOther
    split at hOther
    · obtain rfl := Option.some.inj hOther
      refine { hTimely with fired := fun job' hFires => ?_ }
      obtain rfl := Option.some.inj (hJob.symm.trans hFires)
      exact hFired
    · exact hInv.timely other tick' hOther
  · intro id slot hMem
    rcases hDelivered id slot hMem with hOld | ⟨-, rfl, -⟩
    · exact hInv.deliveredDrawn id slot hOld
    · exact hInv.firedDrawn owner job (congrArg Stage.job? hWas)
  · intro id slot hMem
    rcases hDelivered id slot hMem with hOld | ⟨-, -, rfl⟩
    · exact hInv.past id slot hOld
    · exact Nat.le_trans hFired hTimely.begun
  · intro other job' slot hNow hMem
    rcases hCases other with ⟨-, hHere⟩ | ⟨hOther, hSame⟩
    · obtain rfl : stage = .waking job' := hHere.symm.trans hNow
      obtain rfl := Option.some.inj hJob
      exact absurd rfl hStage
    · have hBefore : s.stageOf other = .waking job' := hSame.symm.trans hNow
      exact hInv.waking other job' slot hBefore
        (hOlder other job' slot hOther (congrArg Stage.job? hBefore) hMem)
  · intro other job' slot hNow hMem
    rcases hCases other with ⟨-, hHere⟩ | ⟨hOther, hSame⟩
    · obtain rfl : stage = .completing job' := hHere.symm.trans hNow
      obtain rfl := Option.some.inj hJob
      rcases hDelivered _ _ hMem with hOld | ⟨-, -, hLast⟩
      · exact Nat.le_of_lt (hInv.waking owner job' slot hWas hOld)
      · exact Nat.le_of_eq hLast
    · have hBefore : s.stageOf other = .completing job' := hSame.symm.trans hNow
      exact hInv.completing other job' slot hBefore
        (hOlder other job' slot hOther (congrArg Stage.job? hBefore) hMem)
  · intro id slot row hMem hGet
    rcases hDelivered id slot hMem with hOld | ⟨hCompleting, rfl, -⟩
    · rcases hInv.ahead id slot row hOld hGet with hAhead | ⟨other, job', hCompleting, hIs⟩
      · exact .inl hAhead
      · refine .inr ⟨other, job', ?_, hIs⟩
        rcases hCases other with ⟨rfl, -⟩ | ⟨-, hSame⟩
        · cases hWas.symm.trans hCompleting
        · exact hSame.trans hCompleting
    · refine .inr ⟨owner, job, ?_, rfl⟩
      rcases hCases owner with ⟨-, hHere⟩ | ⟨hNot, -⟩
      · exact hHere.trans hCompleting
      · exact absurd rfl hNot

/-- The slot of a wake that is delivered is later than all that have been. -/
theorem Inv.delivered_fresh (hInv : Inv s) (hTick : s.ticks owner = some tick)
    (hWaking : tick.stage = .waking job) :
    (s.delivered ++ [(job.id, job.nextFireAt)]).Nodup := by
  rw [← List.concat_eq_append]
  refine List.Nodup.concat (fun hMem => ?_) hInv.once
  have hLess := hInv.waking owner job _ ((stageOf_eq hTick).trans hWaking) hMem
  omega

/-- The same as `letGo`, where the store is left alone and nothing is left to complete. -/
theorem Inv.leave (hInv : Inv s) {tick' : Option Tick}
    (hTick : ∀ tick, tick' = some tick → tick.Timely s.now ∧ tick.stage.job? = none)
    (hDone : s.isCompleting owner = false) : Inv (s.put owner tick') := by
  refine hInv.letGo hTick (fun id row hGet => ⟨row, hGet, .inl rfl, .inl rfl⟩) ?_
  intro job row slot hNow
  obtain ⟨tick, hOwner, -⟩ := ticks_of_job? (congrArg Stage.job? hNow)
  rw [stageOf_eq hOwner] at hNow
  simp [System.isCompleting, hOwner, Tick.isCompleting, hNow] at hDone

theorem Inv.begin (hInv : Inv s) (hStep : s.begin settings owner = some s') : Inv s' := by
  cases hTick : s.ticks owner with
  | some tick => simp [System.begin, hTick] at hStep
  | none =>
      simp only [System.begin, hTick, Option.some.injEq] at hStep
      subst hStep
      refine hInv.leave (fun tick hSome => ?_) (by simp [System.isCompleting, hTick])
      obtain rfl := Option.some.inj hSome
      exact ⟨⟨Nat.le_refl _, by simp, by simp [Stage.job?]⟩, rfl⟩

theorem Tick.Timely.idle {now : Nat} (hTimely : tick.Timely now) {due : List CronJob}
    (hDue : ∀ job ∈ due, job.nextFireAt ≤ tick.now) :
    ({ tick with due, stage := .claiming } : Tick).Timely now :=
  ⟨hTimely.begun, hDue, by simp [Stage.job?]⟩

theorem Inv.list (hInv : Inv s) (hTick : s.ticks owner = some tick) {scan : List CronJob}
    (hStep : s.list settings owner tick scan = some s') : Inv s' := by
  cases hStage : tick.stage with
  | listing =>
      simp only [System.list, hStage] at hStep
      obtain ⟨-, hStep⟩ := Option.ite_none_right_eq_some.mp hStep
      obtain rfl := Option.some.inj hStep
      refine hInv.leave (fun tick' hSome => ?_)
        (by simp [System.isCompleting, hTick, Tick.isCompleting, hStage])
      obtain rfl := Option.some.inj hSome
      have hTimely := hInv.timely owner tick hTick
      exact ⟨hTimely.idle fun job hMem => (Store.mem_listDue hMem).2, rfl⟩
  | _ => simp [System.list, hStage] at hStep

theorem Inv.claim (hInv : Inv s) (hTick : s.ticks owner = some tick)
    (hHonest : s.steals owner = false) (hStep : s.claim owner tick = some s') : Inv s' := by
  cases hStage : tick.stage with
  | claiming =>
      cases hDue : tick.due with
      | nil => simp [System.claim, hStage, hDue] at hStep
      | cons job rest =>
          simp only [System.claim, hStage, hDue] at hStep
          split at hStep
          · rename_i hClaims
            obtain rfl := Option.some.inj hStep
            exact hInv.claimed hTick hStage hDue hClaims hHonest
          · obtain rfl := Option.some.inj hStep
            refine hInv.leave (fun tick' hSome => ?_)
              (by simp [System.isCompleting, hTick, Tick.isCompleting, hStage])
            obtain rfl := Option.some.inj hSome
            have hTimely := hInv.timely owner tick hTick
            refine ⟨⟨hTimely.begun, fun job' hMem => ?_, by simp [Stage.job?]⟩, ?_⟩
            · exact hTimely.due job' (hDue ▸ List.mem_cons_of_mem _ hMem)
            · simp [Stage.job?]
  | _ => simp [System.claim, hStage] at hStep

theorem Inv.wake (hInv : Inv s) (hTick : s.ticks owner = some tick) {answer : Option WakeOutcome}
    (hStep : s.wake owner tick answer = some s') : Inv s' := by
  cases hStage : tick.stage with
  | waking job =>
      have hRelease : Inv (s.put owner (some { tick with stage := .releasing job })) :=
        hInv.goOn hTick hStage rfl (by simp) (fun _ _ => .inl) hInv.once
      rcases answer with - | - | - | - <;>
        simp only [System.wake, hStage, Option.some.injEq] at hStep <;> subst hStep
      · exact hRelease
      · refine hInv.goOn hTick hStage rfl (by simp) (fun id slot hMem => ?_)
          (hInv.delivered_fresh hTick hStage)
        rcases List.mem_append.mp hMem with hOld | hNew
        · exact .inl hOld
        · obtain ⟨rfl, rfl⟩ := Prod.mk.inj (List.mem_singleton.mp hNew)
          exact .inr ⟨rfl, rfl, rfl⟩
      · refine hInv.leave (fun tick' hSome => ?_)
          (by simp [System.isCompleting, hTick, Tick.isCompleting, hStage])
        obtain rfl := Option.some.inj hSome
        exact ⟨(hInv.timely owner tick hTick).idle (hInv.timely owner tick hTick).due, rfl⟩
      · exact hRelease
  | _ => simp [System.wake, hStage] at hStep

/-- A tick that writes the row of the job it is firing and is done with it. -/
theorem Inv.next (hInv : Inv s) (hTick : s.ticks owner = some tick)
    (hJob : tick.stage.job? = some job) {values : CronJob → CronJob}
    (hId : ∀ job, (values job).id = job.id)
    (hSlot : ∀ row, (values row).nextFireAt = row.nextFireAt ∨
      ∀ slot, (job.id, slot) ∈ s.delivered → slot < (values row).nextFireAt)
    (hDone : ∀ row slot, tick.stage = .completing job → (job.id, slot) ∈ s.delivered →
      slot < (values row).nextFireAt) :
    Inv (s.next owner tick (s.store.update job.id values hId)) := by
  have hFires : (s.stageOf owner).job? = some job := stageOf_eq hTick ▸ hJob
  have hTimely := hInv.timely owner tick hTick
  refine hInv.letGo (fun tick' hSome => ?_) (fun id row' hGet => ?_) ?_
  · obtain rfl := Option.some.inj hSome
    exact ⟨hTimely.idle hTimely.due, rfl⟩
  · rw [Store.get_update] at hGet
    split at hGet
    · rename_i hSame
      obtain ⟨row, hOld, rfl⟩ := Option.map_eq_some_iff.mp hGet
      exact ⟨row, hOld, .inr ⟨job, hFires, hSame.symm⟩, hSame ▸ hSlot row⟩
    · exact ⟨row', hGet, .inl rfl, .inl rfl⟩
  · intro job' row' slot hNow hGet hMem
    have hStage : tick.stage = .completing job' := (stageOf_eq hTick).symm.trans hNow
    obtain rfl : job = job' := Option.some.inj (hJob.symm.trans (congrArg Stage.job? hStage))
    rw [Store.get_update, if_pos rfl] at hGet
    obtain ⟨row, -, rfl⟩ := Option.map_eq_some_iff.mp hGet
    exact hDone row slot hStage hMem

theorem Inv.release (hInv : Inv s) (hTick : s.ticks owner = some tick)
    (hStep : s.release owner tick = some s') : Inv s' := by
  cases hStage : tick.stage with
  | releasing job =>
      simp only [System.release, hStage, Option.some.injEq] at hStep
      subst hStep
      refine hInv.next hTick (congrArg Stage.job? hStage) _ (fun row => .inl rfl) ?_
      intro row slot hCompleting
      simp [hStage] at hCompleting
  | _ => simp [System.release, hStage] at hStep

theorem Inv.complete (hInv : Inv s) (hTick : s.ticks owner = some tick)
    (hAfter : ∀ schedule timezone base slot,
      settings.computeNextFire schedule timezone base = some slot → base < slot)
    (hSlot : s.hasNextSlot settings owner = true)
    (hStep : s.complete settings owner tick = some s') : Inv s' := by
  cases hStage : tick.stage with
  | completing job =>
      cases hNext : settings.computeNextFire job.schedule job.timezone tick.now with
      | none => simp [System.hasNextSlot, hTick, hStage, hNext] at hSlot
      | some next =>
          simp only [System.complete, hStage, hNext, Option.some.injEq] at hStep
          subst hStep
          have hJob : tick.stage.job? = some job := congrArg Stage.job? hStage
          have hLater : ∀ slot, (job.id, slot) ∈ s.delivered → slot < next := by
            intro slot hMem
            have hLast := hInv.completing owner job slot ((stageOf_eq hTick).trans hStage) hMem
            have hFired := hInv.fired_le hTick hJob
            have hNow := hAfter _ _ _ _ hNext
            omega
          exact hInv.next hTick hJob _ (fun _ => .inr hLater) fun _ slot _ hMem => hLater slot hMem
  | _ => simp [System.complete, hStage] at hStep

theorem Inv.resume (hInv : Inv s) {userId : String} {id : JobId}
    (hAfter : ∀ schedule timezone base slot,
      settings.computeNextFire schedule timezone base = some slot → base < slot)
    (hStep : s.resume settings userId id = some s') : Inv s' := by
  obtain ⟨job, -, hStep⟩ := Option.bind_eq_some_iff.mp hStep
  obtain ⟨-, hStep⟩ := Option.ite_none_right_eq_some.mp hStep
  obtain ⟨slot, hSlot, rfl⟩ := Option.map_eq_some_iff.mp hStep
  refine hInv.edit (apart_update _ (apart_setEnabled fun next hNext => ?_))
  obtain rfl := Option.some.inj hNext
  exact hAfter _ _ _ _ hSlot

/-! ## Runs -/

theorem keeps_step (hAfter : ∀ schedule timezone base slot,
      settings.computeNextFire schedule timezone base = some slot → base < slot)
    (m : Move) (hInv : Inv s) (hOrderly : s.orderly settings m = true)
    (hStep : (System.machine settings).step s m = some s') : Inv s' := by
  cases m with
  | pass elapsed =>
      obtain rfl := Option.some.inj hStep
      exact hInv.pass elapsed
  | create job =>
      obtain ⟨hFresh, hStep⟩ := Option.dite_none_right_eq_some.mp hStep
      obtain rfl := Option.some.inj hStep
      exact hInv.create hFresh.1 hFresh.2
  | delete userId id =>
      obtain rfl := Option.some.inj hStep
      exact hInv.edit fun id' row hGet => ⟨row, Store.get_of_deleteForUser hGet, .refl s.now row⟩
  | setEnabled userId id enabled =>
      obtain rfl := Option.some.inj hStep
      exact hInv.edit (apart_update _ (apart_setEnabled fun next hNext => by cases hNext))
  | resume userId id => exact hInv.resume hAfter hStep
  | begin owner => exact hInv.begin hStep
  | list owner scan =>
      obtain ⟨tick, hTick, hStep⟩ := Option.bind_eq_some_iff.mp hStep
      exact hInv.list hTick hStep
  | claim owner =>
      obtain ⟨tick, hTick, hStep⟩ := Option.bind_eq_some_iff.mp hStep
      exact hInv.claim hTick (by simpa [System.orderly] using hOrderly) hStep
  | wake owner answer =>
      obtain ⟨tick, hTick, hStep⟩ := Option.bind_eq_some_iff.mp hStep
      exact hInv.wake hTick hStep
  | release owner =>
      obtain ⟨tick, hTick, hStep⟩ := Option.bind_eq_some_iff.mp hStep
      exact hInv.release hTick hStep
  | complete owner =>
      obtain ⟨tick, hTick, hStep⟩ := Option.bind_eq_some_iff.mp hStep
      exact hInv.complete hTick hAfter hOrderly hStep
  | fail owner =>
      obtain ⟨tick, hTick, hStep⟩ := Option.bind_eq_some_iff.mp hStep
      -- An orderly run has no failure while the job is being completed.
      obtain ⟨hCompleting, -⟩ := Option.ite_none_right_eq_some.mp hStep
      simp [System.orderly, System.isCompleting, hTick, hCompleting] at hOrderly
  | stop owner =>
      obtain ⟨tick, hTick, rfl⟩ := Option.map_eq_some_iff.mp hStep
      refine hInv.leave (fun tick' hSome => by cases hSome) ?_
      simpa [System.orderly] using hOrderly
  | report task =>
      obtain rfl := Option.some.inj hStep
      exact { hInv with }
  | apply k =>
      obtain ⟨report, -, rfl⟩ := Option.map_eq_some_iff.mp hStep
      exact hInv.applyReport report _

theorem inv_run (hAfter : ∀ schedule timezone base slot,
      settings.computeNextFire schedule timezone base = some slot → base < slot)
    {now : Nat} {store : Store} {moves : List Move}
    (hRun : (System.machine settings).run moves (.initial now store) = some s)
    (hOrderly : (System.machine settings).always (System.orderly settings) moves
      (.initial now store) = true) : Inv s :=
  Machine.run_keeps_of_always (fun _ m _ hInv hCond hStep => keeps_step hAfter m hInv hCond hStep)
    (inv_initial now store) hOrderly hRun

/-! ## Completions and outcomes -/

/-- What `complete_fire` leaves behind, seen from the store. -/
theorem complete_cases (settings : Settings) (owner : String) (tick : Tick) :
    (∀ s, System.complete settings s owner tick = none) ∨
    (∀ s, System.complete settings s owner tick = some (s.next owner tick s.store)) ∨
    ∃ id slot, ∀ s, System.complete settings s owner tick =
      some (s.next owner tick (s.store.completeFire id tick.now slot)) := by
  cases hStage : tick.stage with
  | completing job =>
      cases hNext : settings.computeNextFire job.schedule job.timezone tick.now with
      | none => exact .inr (.inl fun s => by simp [System.complete, hStage, hNext])
      | some slot =>
          exact .inr (.inr ⟨job.id, slot, fun s => by simp [System.complete, hStage, hNext]⟩)
  | _ => exact .inl fun s => by simp [System.complete, hStage]

/-- The outcome may be reported before the fire is completed, after it, or around it. -/
theorem complete_report_commute (settings : Settings) (s : System) (owner : String)
    (task : FiredTask) :
    (System.machine settings).run [.report task, .apply s.reports.length, .complete owner] s =
        (System.machine settings).run [.complete owner, .report task, .apply s.reports.length] s ∧
      (System.machine settings).run [.report task, .complete owner, .apply s.reports.length] s =
        (System.machine settings).run
          [.complete owner, .report task, .apply s.reports.length] s := by
  cases hTick : s.ticks owner with
  | none => simp [Machine.run, System.machine, hTick]
  | some tick =>
      rcases complete_cases settings owner tick with hNone | hSame | ⟨id, slot, hComplete⟩
      · simp [Machine.run, System.machine, hTick, hNone]
      · simp [Machine.run, System.machine, hTick, hSame, System.next, System.put]
      · simp [Machine.run, System.machine, hTick, hComplete, System.next, System.put,
          Store.completeFire_applyReport, Store.beginReport_completeFire]

/-- In an orderly run no slot of a job is delivered twice, and it makes no difference whether
a fire is completed before its outcome is recorded. -/
theorem slots_delivered_once (settings : Settings)
    (hAfter : ∀ schedule timezone base slot,
      settings.computeNextFire schedule timezone base = some slot → base < slot) :
    (∀ now store moves s,
      (System.machine settings).run moves (.initial now store) = some s →
      (System.machine settings).always (System.orderly settings) moves (.initial now store) = true →
      s.delivered.Nodup) ∧
    ∀ s owner task,
      (System.machine settings).run [.report task, .apply s.reports.length, .complete owner] s =
          (System.machine settings).run
            [.complete owner, .report task, .apply s.reports.length] s ∧
        (System.machine settings).run [.report task, .complete owner, .apply s.reports.length] s =
          (System.machine settings).run
            [.complete owner, .report task, .apply s.reports.length] s :=
  ⟨fun _ _ _ _ hRun hOrderly => (inv_run hAfter hRun hOrderly).once,
    fun s owner task => complete_report_commute settings s owner task⟩

/-- A job that fires every ten. -/
def everyTen : Settings where
  computeNextFire _ _ base := some ((base / 10 + 1) * 10)
  config _ := { leaseTtl := 60, replayLimit := 5 }

def reminder : CronJob where
  id := "j1"
  userId := "u1"
  channel := "telegram"
  title := "water"
  schedule := "*/10"
  timezone := "UTC"
  prompt := "drink"
  enabled := true
  nextFireAt := 10
  lastFireAt := none
  claimedBy := none
  claimedAt := none
  createdAt := 0
  oneShot := false
  lastStatus := none
  lastError := none
  retryCount := 0

/-- Two schedulers list a slot and one fires it; the job is paused and resumed, and the outcome
is reported, before the fire is completed. -/
def twoSchedulers : List Move :=
  [.pass 12, .begin "a", .begin "b", .list "a" [reminder], .list "b" [reminder], .claim "a",
    .claim "b", .stop "b", .wake "a" (some .delivered), .setEnabled "u1" "j1" false,
    .resume "u1" "j1", .report { jobId := "j1", status := .done, error := none }, .complete "a",
    .apply 0, .stop "a"]

theorem slots_delivered_once_of_twoSchedulers :
    ∃ s, (System.machine everyTen).run twoSchedulers
        (.initial 0 { rows := [reminder], primaryKey := by decide }) = some s ∧
      s.delivered = [("j1", 10)] ∧ s.delivered.Nodup := by
  have hAfter : ∀ schedule timezone base slot,
      everyTen.computeNextFire schedule timezone base = some slot → base < slot := by
    intro schedule timezone base slot hSlot
    obtain rfl := Option.some.inj hSlot
    have hDiv := Nat.div_add_mod base 10
    have hMod := Nat.mod_lt base (by decide : 0 < 10)
    omega
  have hRuns : ((System.machine everyTen).run twoSchedulers
      (.initial 0 { rows := [reminder], primaryKey := by decide })).map (·.delivered) =
        some [("j1", 10)] := by
    decide +kernel
  obtain ⟨s, hRun, hDelivered⟩ := Option.map_eq_some_iff.mp hRuns
  exact ⟨s, hRun, hDelivered,
    (slots_delivered_once everyTen hAfter).1 _ _ _ _ hRun (by decide +kernel)⟩

end Cron
end OctoForge
