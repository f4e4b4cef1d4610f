import OctoForge.Coop.Machine
import OctoForge.Cron.Store

/-!
# Schedulers over one table of jobs

A scheduler lists the jobs that are due and then claims and fires them one at a time, with
the time it had read when the tick began.  The due list is a copy: by the time a job is
claimed its row may have been paused, moved, fired by another scheduler or deleted.

All schedulers read one clock.  The rules of the schedules are a parameter, and so are the
settings of each scheduler, which has at most one tick at a time.  The waits between two
late jobs are not modelled: other moves may come between any two steps in any case.
-/

namespace OctoForge
namespace Cron

open Coop

structure CronSchedulerConfig where
  leaseTtl : Nat
  replayLimit : Nat
  deriving DecidableEq, Repr

structure Settings where
  /-- `compute_next_fire`: `none` where it raises. -/
  computeNextFire : (schedule timezone : String) → (base : Nat) → Option Nat
  config : (owner : String) → CronSchedulerConfig

inductive WakeOutcome where
  | delivered
  | limited
  | notOurs
  deriving DecidableEq, Repr

/-- The `await` a tick is at. -/
inductive Stage where
  /-- `list_due`. -/
  | listing
  /-- The next claim, or the end of the tick. -/
  | claiming
  | waking (job : CronJob)
  | releasing (job : CronJob)
  | completing (job : CronJob)
  deriving DecidableEq, Repr

/-- The job a tick has claimed and not yet let go of. -/
def Stage.job? : Stage → Option CronJob
  | .waking job | .releasing job | .completing job => some job
  | .listing | .claiming => none

structure Tick where
  now : Nat
  staleBefore : Nat
  due : List CronJob := []
  stage : Stage := .listing
  deriving DecidableEq, Repr

def Tick.firing (tick : Tick) (id : JobId) : Bool := tick.stage.job?.any (·.id = id)

def Tick.isCompleting (tick : Tick) : Bool :=
  match tick.stage with
  | .completing _ => true
  | _ => false

structure System where
  now : Nat := 0
  store : Store := {}
  /-- The ids that `uuid4` has drawn; it never draws one of them again. -/
  drawn : List JobId := store.rows.map (·.id)
  ticks : String → Option Tick := fun _ => none
  reports : List Report := []
  /-- The wakes that have answered `DELIVERED`: the job and the slot it was listed with. -/
  delivered : List (JobId × Nat) := []

inductive Move where
  | pass (elapsed : Nat)
  | create (job : CronJob)
  | delete (userId : String) (id : JobId)
  /-- Pausing, and the resuming of all jobs of a readmitted user. -/
  | setEnabled (userId : String) (id : JobId) (enabled : Bool)
  /-- Resuming one job: its next slot is counted from now. -/
  | resume (userId : String) (id : JobId)
  | begin (owner : String)
  | list (owner : String) (scan : List CronJob)
  | claim (owner : String)
  /-- `none`: `wake` raises. -/
  | wake (owner : String) (answer : Option WakeOutcome)
  | release (owner : String)
  | complete (owner : String)
  /-- `complete_fire` raises. -/
  | fail (owner : String)
  /-- The tick ends, is cancelled or dies. -/
  | stop (owner : String)
  | report (task : FiredTask)
  | apply (k : Nat)
  deriving DecidableEq, Repr

namespace System

variable (settings : Settings) (s : System)

def put (owner : String) (tick : Option Tick) : System :=
  { s with ticks := fun other => if other = owner then tick else s.ticks other }

/-- The tick goes on with its next job. -/
def next (owner : String) (tick : Tick) (store : Store) : System :=
  { s.put owner (some { tick with stage := .claiming }) with store }

def resume (userId : String) (id : JobId) : Option System :=
  (s.store.get id).bind fun job =>
    if job.userId = userId then
      (settings.computeNextFire job.schedule job.timezone s.now).map fun slot =>
        { s with store := s.store.setEnabled userId id true (some slot) }
    else none

def begin (owner : String) : Option System :=
  match s.ticks owner with
  | none =>
      some (s.put owner
        (some { now := s.now, staleBefore := s.now - (settings.config owner).leaseTtl }))
  | some _ => none

def list (owner : String) (tick : Tick) (scan : List CronJob) : Option System :=
  match tick.stage with
  | .listing =>
      if scan.isPerm s.store.rows then
        some (s.put owner (some
          { tick with
            due := Store.listDue scan tick.now tick.staleBefore (settings.config owner).replayLimit
            stage := .claiming }))
      else none
  | _ => none

def claim (owner : String) (tick : Tick) : Option System :=
  match tick.stage, tick.due with
  | .claiming, job :: rest =>
      if s.store.claims job.id job.nextFireAt tick.staleBefore then
        some { s.put owner (some { tick with due := rest, stage := .waking job }) with
          store := s.store.claim job.id owner tick.now }
      else some (s.put owner (some { tick with due := rest }))
  | _, _ => none

def wake (owner : String) (tick : Tick) (answer : Option WakeOutcome) : Option System :=
  match tick.stage with
  | .waking job =>
      match answer with
      | some .delivered =>
          some { s.put owner (some { tick with stage := .completing job }) with
            delivered := s.delivered ++ [(job.id, job.nextFireAt)] }
      | some .limited => some (s.next owner tick s.store)
      | some .notOurs | none => some (s.put owner (some { tick with stage := .releasing job }))
  | _ => none

def release (owner : String) (tick : Tick) : Option System :=
  match tick.stage with
  | .releasing job => some (s.next owner tick (s.store.releaseClaim job.id))
  | _ => none

/-- `complete_fire`, or its failure, which is logged. -/
def complete (owner : String) (tick : Tick) : Option System :=
  match tick.stage with
  | .completing job =>
      match settings.computeNextFire job.schedule job.timezone tick.now with
      | some slot => some (s.next owner tick (s.store.completeFire job.id tick.now slot))
      | none => some (s.next owner tick s.store)
  | _ => none

def fail (owner : String) (tick : Tick) : Option System :=
  if tick.isCompleting then some (s.next owner tick s.store) else none

def machine : Machine System Move where
  step s
    | .pass elapsed => some { s with now := s.now + elapsed }
    | .create job =>
        if hFresh : job.id ∉ s.drawn ∧ job.id ∉ s.store.rows.map (·.id) then
          some { s with store := s.store.create job hFresh.2, drawn := job.id :: s.drawn }
        else none
    | .delete userId id => some { s with store := s.store.deleteForUser userId id }
    | .setEnabled userId id enabled =>
        some { s with store := s.store.setEnabled userId id enabled none }
    | .resume userId id => s.resume settings userId id
    | .begin owner => s.begin settings owner
    | .list owner scan => (s.ticks owner).bind fun tick => s.list settings owner tick scan
    | .claim owner => (s.ticks owner).bind fun tick => s.claim owner tick
    | .wake owner answer => (s.ticks owner).bind fun tick => s.wake owner tick answer
    | .release owner => (s.ticks owner).bind fun tick => s.release owner tick
    | .complete owner => (s.ticks owner).bind fun tick => s.complete settings owner tick
    | .fail owner => (s.ticks owner).bind fun tick => s.fail owner tick
    | .stop owner => (s.ticks owner).map fun _ => s.put owner none
    | .report task => some { s with reports := s.reports ++ [s.store.beginReport task] }
    | .apply k =>
        s.reports[k]?.map fun report =>
          { s with store := s.store.applyReport report, reports := s.reports.set k .ignored }

/-! ## What is asked of a run -/

/-- The claim takes the job from a scheduler that is still firing it. -/
def steals (owner : String) : Bool :=
  (s.ticks owner).any fun tick =>
    match tick.due with
    | [] => false
    | job :: _ =>
        s.store.claims job.id job.nextFireAt tick.staleBefore &&
          (s.store.get job.id).any fun row =>
            row.claimedBy.any fun holder => (s.ticks holder).any (·.firing job.id)

def isCompleting (owner : String) : Bool := (s.ticks owner).any (·.isCompleting)

/-- The next slot of the job that is being completed can be computed. -/
def hasNextSlot (owner : String) : Bool :=
  (s.ticks owner).all fun tick =>
    match tick.stage with
    | .completing job => (settings.computeNextFire job.schedule job.timezone tick.now).isSome
    | _ => true

/-- No lease expires while its holder is firing the job, and no scheduler stops or fails
between a delivered wake and its `complete_fire`. -/
def orderly : Move → Bool
  | .claim owner => !s.steals owner
  | .complete owner => s.hasNextSlot settings owner
  | .fail owner | .stop owner => !s.isCompleting owner
  | _ => true

def initial (now : Nat) (store : Store) : System := { now, store }

end System
end Cron
end OctoForge
