import Mathlib.Data.List.Nodup
import Mathlib.Data.List.Sort
import OctoForge.Conversation.Store
import OctoForge.Sequence.Keyed

/-!
# The jobs of the scheduler

Every operation of the store is one statement, and a statement is one step.  The two
columns `claimed_by` and `claimed_at` are the lease of a scheduler.  Times are in
microseconds.

The outcome of a fired process is recorded in two steps: the job is read, and then it is
deleted or updated.
-/

namespace OctoForge
namespace Cron

open Conversation (TaskStatus)

abbrev JobId := String

structure CronJob where
  id : JobId
  userId : String
  channel : String
  title : String
  schedule : String
  timezone : String
  prompt : String
  enabled : Bool
  nextFireAt : Nat
  lastFireAt : Option Nat
  claimedBy : Option String
  claimedAt : Option Nat
  createdAt : Nat
  oneShot : Bool
  lastStatus : Option TaskStatus
  lastError : Option String
  retryCount : Nat
  deriving DecidableEq, Repr

namespace CronJob

variable (job : CronJob)

/-- `_claimable_clause`. -/
def claimable (staleBefore : Nat) : Bool :=
  job.claimedBy.isNone || job.claimedAt.any (· < staleBefore)

def dueAt (now staleBefore : Nat) : Bool :=
  job.enabled && decide (job.nextFireAt ≤ now) && job.claimable staleBefore

def claim (owner : String) (now : Nat) : CronJob :=
  { job with claimedBy := some owner, claimedAt := some now }

def releaseClaim : CronJob := { job with claimedBy := none, claimedAt := none }

def completeFire (firedAt nextFireAt : Nat) : CronJob :=
  { job with lastFireAt := some firedAt, nextFireAt, claimedBy := none, claimedAt := none }

def setEnabled (enabled : Bool) (nextFireAt : Option Nat) : CronJob :=
  { job with enabled, nextFireAt := nextFireAt.getD job.nextFireAt }

def recordFireResult (status : TaskStatus) (error : Option String) (retryAt : Option Nat) :
    CronJob :=
  match retryAt with
  | some retryAt =>
      { job with
        lastStatus := some status, lastError := error, nextFireAt := retryAt
        retryCount := job.retryCount + 1 }
  | none => { job with lastStatus := some status, lastError := error, retryCount := 0 }

theorem claim_id (owner : String) (now : Nat) : (job.claim owner now).id = job.id := rfl

theorem releaseClaim_id : job.releaseClaim.id = job.id := rfl

theorem completeFire_id (firedAt nextFireAt : Nat) :
    (job.completeFire firedAt nextFireAt).id = job.id := rfl

theorem recordFireResult_id (status : TaskStatus) (error : Option String) (retryAt : Option Nat) :
    (job.recordFireResult status error retryAt).id = job.id := by
  cases retryAt <;> rfl

end CronJob

@[ext] structure Store where
  rows : List CronJob := []
  primaryKey : (rows.map (·.id)).Nodup := by decide

namespace Store

variable (s : Store)

/-- `get`. -/
def get (id : JobId) : Option CronJob := s.rows.find? fun job => job.id = id

def create (job : CronJob) (hFresh : job.id ∉ s.rows.map (·.id)) : Store where
  rows := s.rows ++ [job]
  primaryKey := by
    rw [List.map_append, List.map_singleton, ← List.concat_eq_append]
    exact List.Nodup.concat hFresh s.primaryKey

/-- An UPDATE of the row with the id. -/
def update (id : JobId) (values : CronJob → CronJob) (hId : ∀ job, (values job).id = job.id) :
    Store where
  rows := s.rows.map fun job => if job.id = id then values job else job
  primaryKey := by
    have hSame : (s.rows.map fun job => if job.id = id then values job else job).map (·.id) =
        s.rows.map (·.id) := by
      rw [List.map_map]
      refine List.map_congr_left fun job _ => ?_
      simp only [Function.comp_apply]
      split
      · exact hId job
      · rfl
    rw [hSame]
    exact s.primaryKey

/-- `delete_for_user`; a foreign id deletes nothing. -/
def deleteForUser (userId : String) (id : JobId) : Store where
  rows := s.rows.filter fun job => !(job.id = id && job.userId = userId)
  primaryKey := (List.filter_sublist.map _).nodup s.primaryKey

/-- `set_enabled`; a foreign id changes nothing. -/
def setEnabled (userId : String) (id : JobId) (enabled : Bool) (nextFireAt : Option Nat) : Store :=
  s.update id
    (fun job => if job.userId = userId then job.setEnabled enabled nextFireAt else job)
    (fun job => by split <;> rfl)

/-- `list_due`: `scan` is the order in which the database goes through the table, and jobs
that are due at the same time stay in it. -/
def listDue (scan : List CronJob) (now staleBefore limit : Nat) : List CronJob :=
  ((scan.filter (·.dueAt now staleBefore)).mergeSort
    fun first second => first.nextFireAt ≤ second.nextFireAt).take limit

/-- The WHERE clause of `claim`. -/
def claims (id : JobId) (expected staleBefore : Nat) : Bool :=
  (s.get id).any fun job =>
    job.enabled && decide (job.nextFireAt = expected) && job.claimable staleBefore

def claim (id : JobId) (owner : String) (now : Nat) : Store :=
  s.update id (·.claim owner now) fun job => job.claim_id owner now

def releaseClaim (id : JobId) : Store := s.update id (·.releaseClaim) CronJob.releaseClaim_id

def completeFire (id : JobId) (firedAt nextFireAt : Nat) : Store :=
  s.update id (·.completeFire firedAt nextFireAt) fun job => job.completeFire_id firedAt nextFireAt

def recordFireResult (id : JobId) (status : TaskStatus) (error : Option String)
    (retryAt : Option Nat) : Store :=
  s.update id (·.recordFireResult status error retryAt)
    fun job => job.recordFireResult_id status error retryAt

/-! ## Reading a row back -/

variable {s} {id other : JobId} {job : CronJob}

theorem get_eq_some : s.get id = some job ↔ job ∈ s.rows ∧ job.id = id :=
  Sequence.find?_key_eq_some s.primaryKey

theorem mem_ids_of_get (hGet : s.get id = some job) : id ∈ s.rows.map (·.id) := by
  obtain ⟨hMem, rfl⟩ := get_eq_some.mp hGet
  exact List.mem_map_of_mem hMem

theorem get_update {values : CronJob → CronJob} {hId : ∀ job, (values job).id = job.id} :
    (s.update id values hId).get other =
      if other = id then (s.get other).map values else s.get other := by
  have hSearch : (s.update id values hId).get other =
      (s.get other).map fun job => if job.id = id then values job else job := by
    simp only [get, update, List.find?_map]
    congr 1
    refine congrArg (List.find? · s.rows) (funext fun job => ?_)
    simp only [Function.comp_apply]
    split
    · rw [hId]
    · rfl
  rw [hSearch]
  split
  · rename_i hSame
    refine Option.map_congr fun job hGet => if_pos ?_
    exact (get_eq_some.mp hGet).2.trans hSame
  · rename_i hOther
    cases hGet : s.get other with
    | none => rfl
    | some job =>
        rw [Option.map_some, if_neg]
        exact fun hSame => hOther ((get_eq_some.mp hGet).2.symm.trans hSame)

@[simp] theorem rows_update_ids {values : CronJob → CronJob}
    {hId : ∀ job, (values job).id = job.id} :
    (s.update id values hId).rows.map (·.id) = s.rows.map (·.id) := by
  simp only [update, List.map_map]
  refine List.map_congr_left fun job _ => ?_
  simp only [Function.comp_apply]
  split
  · exact hId job
  · rfl

theorem get_create {hFresh : job.id ∉ s.rows.map (·.id)} {found : CronJob}
    (hGet : (s.create job hFresh).get id = some found) :
    s.get id = some found ∨ (found = job ∧ id = job.id) := by
  obtain ⟨hMem, hId⟩ := get_eq_some.mp hGet
  rcases List.mem_append.mp hMem with hOld | hNew
  · exact .inl (get_eq_some.mpr ⟨hOld, hId⟩)
  · obtain rfl := List.mem_singleton.mp hNew
    exact .inr ⟨rfl, hId.symm⟩

theorem get_of_deleteForUser {userId : String}
    (hGet : (s.deleteForUser userId id).get other = some job) : s.get other = some job := by
  obtain ⟨hMem, hId⟩ := get_eq_some.mp hGet
  exact get_eq_some.mpr ⟨List.mem_of_mem_filter hMem, hId⟩

theorem mem_listDue {scan : List CronJob} {now staleBefore limit : Nat}
    (hMem : job ∈ listDue scan now staleBefore limit) :
    job ∈ scan ∧ job.nextFireAt ≤ now := by
  have hSorted := List.mem_of_mem_take hMem
  rw [List.mem_mergeSort, List.mem_filter] at hSorted
  have hDue := hSorted.2
  rw [CronJob.dueAt, Bool.and_eq_true, Bool.and_eq_true, decide_eq_true_iff] at hDue
  exact ⟨hSorted.1, hDue.1.2⟩

theorem claims_iff {expected staleBefore : Nat} :
    s.claims id expected staleBefore = true ↔
      ∃ job, s.get id = some job ∧ job.enabled = true ∧ job.nextFireAt = expected ∧
        job.claimable staleBefore = true := by
  simp [claims, Option.any_eq_true, and_assoc]

end Store

/-! ## Outcomes -/

/-- A terminal task that was started for a job, as far as it is reported. -/
structure FiredTask where
  jobId : JobId
  status : TaskStatus
  error : Option String
  deriving DecidableEq, Repr

def lastErrorMaxChars : Nat := 500

/-- `_error_for`. -/
def FiredTask.errorFor (task : FiredTask) : Option String :=
  match task.status with
  | .failed =>
      let error := (task.error.filter (· ≠ "")).getD "unknown error"
      some (String.ofList (error.toList.take lastErrorMaxChars))
  | .cancelled => some "cancelled"
  | .pending | .running | .done => none

/-- What is left to do of `report_outcome` after `get`. -/
inductive Report where
  /-- The job is gone. -/
  | ignored
  | deleting (userId : String) (id : JobId)
  | recording (id : JobId) (status : TaskStatus) (error : Option String)
  deriving DecidableEq, Repr

namespace Store

variable (s : Store)

/-- `report_outcome`, up to its statement. -/
def beginReport (task : FiredTask) : Report :=
  match s.get task.jobId with
  | some job =>
      if job.oneShot = true ∧ (task.status = .done ∨ task.status = .failed) then
        .deleting job.userId job.id
      else .recording task.jobId task.status task.errorFor
  | none => .ignored

def applyReport : Report → Store
  | .ignored => s
  | .deleting userId id => s.deleteForUser userId id
  | .recording id status error => s.recordFireResult id status error none

/-- A fire is completed in columns that its outcome leaves alone. -/
theorem completeFire_recordFireResult (job : CronJob) (firedAt nextFireAt : Nat)
    (status : TaskStatus) (error : Option String) :
    (job.recordFireResult status error none).completeFire firedAt nextFireAt =
      (job.completeFire firedAt nextFireAt).recordFireResult status error none := rfl

theorem completeFire_applyReport (id : JobId) (firedAt nextFireAt : Nat) (report : Report) :
    (s.applyReport report).completeFire id firedAt nextFireAt =
      (s.completeFire id firedAt nextFireAt).applyReport report := by
  cases report with
  | ignored => rfl
  | deleting userId other =>
      ext1
      simp only [applyReport, completeFire, update, deleteForUser, List.filter_map]
      congr 2
      funext job
      simp only [Function.comp_apply]
      split <;> rfl
  | recording other status error =>
      ext1
      simp only [applyReport, completeFire, recordFireResult, update, List.map_map]
      refine List.map_congr_left fun job _ => ?_
      simp only [Function.comp_apply, apply_ite CronJob.id, CronJob.recordFireResult_id,
        CronJob.completeFire_id, ite_self]
      by_cases hReported : job.id = other
      · rw [if_pos hReported]
        by_cases hFired : job.id = id
        · simp only [if_pos hFired, if_pos hReported, completeFire_recordFireResult]
        · simp only [if_neg hFired, if_pos hReported]
      · simp only [if_neg hReported]

theorem beginReport_completeFire (id : JobId) (firedAt nextFireAt : Nat) (task : FiredTask) :
    (s.completeFire id firedAt nextFireAt).beginReport task = s.beginReport task := by
  unfold beginReport
  rw [completeFire, get_update]
  by_cases hFired : task.jobId = id
  · rw [if_pos hFired]
    cases hGet : s.get task.jobId with
    | none => rfl
    | some job => rfl
  · rw [if_neg hFired]

end Store
end Cron
end OctoForge
