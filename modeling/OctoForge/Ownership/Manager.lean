import OctoForge.Coop.Pool
import OctoForge.Ownership.Claims

/-!
# The conversation managers of a cluster

Several processes share one database.  Each of them has a `ConversationManager`
that builds one runner per dialog, keeps the runners' claims warm and stands
down the ones it lost.  This module gives the managers' coroutines over one
shared state: the claim table and the task table, and for every process its two
maps `_builds` and `_runners`, its build tasks and its runners.

* A critical section of the manager's lock never awaits, so it is one atomic
  step; so is every database transaction and every stretch of code between two
  awaits.
* A build task is a coroutine of its own.  `cancel` only asks: the task ends at
  its next step.  A build makes at most one runner, and the runner is named by
  its build.
* Of a runner only its life is kept here: whether its actor and its processes
  run, whether it has stood down, and whether somebody is stopping it.
* A process that dies is one whose coroutines are never resumed.  A restarted
  process is a new `NodeId` with the same owner name.
* `stop_all` ends the process and is left out.

The fields after `budgetRefused` are a record of the run for the statements; no
branch reads them.
-/

namespace OctoForge
namespace Ownership

open Coop

abbrev NodeId := Nat

/-- `(user_id, channel)`. -/
abbrev Key := Nat

abbrev BuildId := Nat

abbrev TaskId := Nat

/-- What does not change while the cluster runs.  A dialog has one user and one
channel, and `get_or_create` always returns the same dialog for them. -/
structure ManagerConfig where
  owner : NodeId → Owner
  dialogOf : Key → DialogId
  keyOf : DialogId → Key
  keyOf_dialogOf : ∀ key, keyOf (dialogOf key) = key
  staleAfter : Time
  maxProcesses : Nat

/-- On whose behalf a build claims the dialog: a message that arrived here, or
recovery and background work, with the claim row and the clock its freshness
lookup saw. -/
inductive Origin where
  | message
  | background (seen : Option ClaimRow) (readAt : Time)
  deriving DecidableEq, Repr

/-- How far a build task is.  `failed` is also a cancelled task. -/
inductive Stage where
  | created
  | claimed (claim : DialogClaim)
  | recovering
  | finished
  | failed
  deriving DecidableEq, Repr

structure Build where
  node : NodeId
  key : Key
  origin : Origin
  stage : Stage := .created
  cancelRequested : Bool := false
  /-- How often the dialog's claim had lapsed when the build claimed it. -/
  lapses : Nat := 0
  deriving DecidableEq, Repr

structure Runner where
  claim : DialogClaim
  stoodDown : Bool := false
  preempted : Bool := false
  stopping : Bool := false
  actorRunning : Bool := true
  processes : List TaskId := []
  /-- `_drop_preempted` has deregistered it. -/
  dropped : Bool := false
  deriving DecidableEq, Repr

/-- `ConversationRunner.retired`. -/
def Runner.retired (r : Runner) : Bool := r.stoodDown || r.preempted

/-- A claim made by a build: who claimed, why, and which row it replaced. -/
structure Takeover where
  owner : Owner
  dialogId : DialogId
  origin : Origin
  replaced : Option ClaimRow
  claimedAt : Time
  lapses : Nat
  deriving DecidableEq, Repr

/-- A process started for an orphaned task, under the claim its build made. -/
structure Restart where
  owner : Owner
  dialogId : DialogId
  task : TaskId
  lapses : Nat
  deriving DecidableEq, Repr

/-- What `_drop_preempted` removed from `_runners` for the runner it drops. -/
structure Pop where
  runner : BuildId
  found : Option BuildId
  deriving DecidableEq, Repr

/-- The runner of a build at the moment the build finished. -/
structure Finish where
  runner : BuildId
  dropped : Bool
  retired : Bool
  deriving DecidableEq, Repr

/-- An `evict` that has returned: the builds that had begun when it was called
are those below `bound`, and `clean` says how it found the dialog. -/
structure Eviction where
  node : NodeId
  key : Key
  bound : BuildId
  clean : Bool
  deriving DecidableEq, Repr

structure Cluster where
  now : Time := 0
  claims : ClaimTable := fun _ => none
  /-- The PENDING and RUNNING rows of the task table. -/
  openTasks : List (DialogId × TaskId) := []
  /-- Dialogs with stranded exchanges. -/
  stranded : List DialogId := []
  /-- Dialogs with results that were not delivered. -/
  undelivered : List DialogId := []
  nextTask : TaskId := 0
  builds : NodeId → Key → Option BuildId := fun _ _ => none
  runners : NodeId → DialogId → Option BuildId := fun _ _ => none
  build : BuildId → Option Build := fun _ => none
  runner : BuildId → Option Runner := fun _ => none
  nextBuild : BuildId := 0
  /-- The database does not answer. -/
  storeDown : Bool := false
  /-- The user's plan refuses further runs. -/
  budgetRefused : Bool := false
  messaged : DialogId → Bool := fun _ => false
  /-- How often the dialog's claim row was removed or went stale. -/
  lapses : DialogId → Nat := fun _ => 0
  takeovers : List Takeover := []
  restarts : List Restart := []
  pops : List Pop := []
  finishes : List Finish := []
  lateStarts : List (BuildId × TaskId) := []
  evictions : List Eviction := []

namespace Cluster

/-- Write one entry of a map with two keys. -/
def set2 {α : Type} (m : Nat → Nat → Option α) (x y : Nat) (v : Option α) :
    Nat → Nat → Option α :=
  fun x' y' => if x' = x ∧ y' = y then v else m x' y'

def updateBuild (s : Cluster) (b : BuildId) (f : Build → Build) : Cluster :=
  { s with build := Function.update s.build b ((s.build b).map f) }

def updateRunner (s : Cluster) (b : BuildId) (f : Runner → Runner) : Cluster :=
  { s with runner := Function.update s.runner b ((s.runner b).map f) }

def setStage (s : Cluster) (b : BuildId) (stage : Stage) : Cluster :=
  s.updateBuild b fun build => { build with stage := stage }

@[simp] theorem updateBuild_build_self (s : Cluster) (b : BuildId) (f : Build → Build) :
    (s.updateBuild b f).build b = (s.build b).map f :=
  Function.update_self ..

theorem updateBuild_build_of_ne (s : Cluster) {b b' : BuildId} (f : Build → Build)
    (hNe : b' ≠ b) : (s.updateBuild b f).build b' = s.build b' :=
  Function.update_of_ne hNe ..

@[simp] theorem updateRunner_runner_self (s : Cluster) (b : BuildId) (f : Runner → Runner) :
    (s.updateRunner b f).runner b = (s.runner b).map f :=
  Function.update_self ..

theorem updateRunner_runner_of_ne (s : Cluster) {b b' : BuildId} (f : Runner → Runner)
    (hNe : b' ≠ b) : (s.updateRunner b f).runner b' = s.runner b' :=
  Function.update_of_ne hNe ..

theorem updateBuild_of_none {s : Cluster} {b : BuildId} (f : Build → Build)
    (hNone : s.build b = none) : s.updateBuild b f = s := by
  have hSame : Function.update s.build b ((s.build b).map f) = s.build := by
    rw [hNone]
    exact Function.update_eq_self_iff.mpr hNone.symm
  simp only [updateBuild, hSame]

def stage (s : Cluster) (b : BuildId) : Option Stage :=
  (s.build b).map (·.stage)

def cancelRequested (s : Cluster) (b : BuildId) : Bool :=
  (s.build b).any (·.cancelRequested)

/-- `_finished_build`. -/
def finishedBuild (s : Cluster) (b : BuildId) : Bool :=
  s.stage b == some .finished

/-- `build.done()`. -/
def buildDone (s : Cluster) (b : BuildId) : Bool :=
  s.stage b == some .finished || s.stage b == some .failed

/-- `_runners.values()` with the claims of the runners. -/
def registered (s : Cluster) (node : NodeId) : List (BuildId × DialogClaim) :=
  (List.range s.nextBuild).filterMap fun b =>
    match s.runner b with
    | some r => if s.runners node r.claim.dialogId = some b then some (b, r.claim) else none
    | none => none

/-! ## Atomic steps of the manager -/

/-- The lock section of `get_or_create_runner`: the memoized build of the key,
or a new one; also whether it is ours. -/
def openBuild (node : NodeId) (key : Key) (origin : Origin) (s : Cluster) :
    (BuildId × Bool) × Cluster :=
  match s.builds node key with
  | some b => ((b, false), s)
  | none =>
      ((s.nextBuild, true),
        { s with
          builds := set2 s.builds node key (some s.nextBuild)
          build := Function.update s.build s.nextBuild
            (some { node := node, key := key, origin := origin })
          nextBuild := s.nextBuild + 1 })

/-- `get_or_create_runner` after the build it awaited: the memo of a build that
died is dropped, unless the key has another one by now. -/
def awaitBuild (node : NodeId) (key : Key) (b : BuildId) (s : Cluster) :
    Except Unit Unit × Cluster :=
  if s.finishedBuild b then (.ok (), s)
  else if s.builds node key = some b then
    (.error (), { s with builds := set2 s.builds node key none })
  else (.error (), s)

/-- The lock section of `_drop_preempted`, in the manager that built the
runner. -/
def dropRegistered (b : BuildId) (s : Cluster) : Cluster :=
  match s.build b, s.runner b with
  | some build, some r =>
      { s.updateRunner b fun r => { r with dropped := true } with
        builds := fun node key =>
          if node = build.node ∧ s.builds node key = some b ∧ build.stage = .finished then none
          else s.builds node key
        runners := set2 s.runners build.node r.claim.dialogId none
        pops := { runner := b, found := s.runners build.node r.claim.dialogId } :: s.pops }
  | _, _ => s

/-- `ConversationRunner.stop` up to its first await: everything that runs is
told to end.  Returns the processes it will wait for. -/
def stopBegin (b : BuildId) (s : Cluster) : List TaskId × Cluster :=
  (((s.runner b).map (·.processes)).getD [],
    s.updateRunner b fun r => { r with stopping := true })

/-- `ConversationRunner.stand_down` up to its first await; `none` if it had
already stood down. -/
def standDownBegin (b : BuildId) (s : Cluster) : Option (List TaskId) × Cluster :=
  if (s.runner b).any (·.stoodDown) then (none, s)
  else
    (some (((s.runner b).map (·.processes)).getD []),
      s.updateRunner b fun r => { r with stoodDown := true, stopping := true })

/-- The tasks `stop` awaits have ended. -/
def stopped (b : BuildId) (captured : List TaskId) (s : Cluster) : Bool :=
  match s.runner b with
  | none => true
  | some r => !r.actorRunning && captured.all fun task => !r.processes.contains task

/-- The transaction of `_build_runner`: find the dialog and claim it. -/
def buildClaim (cfg : ManagerConfig) (b : BuildId) (s : Cluster) :
    Except Unit DialogClaim × Cluster :=
  match s.build b with
  | none => (.error (), s)
  | some build =>
      if build.cancelRequested || s.storeDown then (.error (), s.setStage b .failed)
      else
        let dialogId := cfg.dialogOf build.key
        let owner := cfg.owner build.node
        let result := claim s.claims dialogId owner s.now
        (.ok result.1,
          { s.updateBuild b fun build =>
              { build with stage := .claimed result.1, lapses := s.lapses dialogId } with
            claims := result.2
            takeovers :=
              { owner := owner, dialogId := dialogId, origin := build.origin,
                replaced := s.claims dialogId, claimedAt := s.now,
                lapses := s.lapses dialogId } :: s.takeovers })

/-- `_build_runner` from the history load on: the runner is made, started and
registered in the step the load returns in. -/
def buildRegister (b : BuildId) (c : DialogClaim) (s : Cluster) : Except Unit Unit × Cluster :=
  match s.build b with
  | none => (.error (), s)
  | some build =>
      if build.cancelRequested || s.storeDown then (.error (), s.setStage b .failed)
      else
        (.ok (),
          { s.setStage b .recovering with
            runner := Function.update s.runner b (some { claim := c })
            runners := set2 s.runners build.node c.dialogId (some b) })

/-- A step of `_recover_dialog` on behalf of the build: a cancelled build ends
here, with its runner registered and started. -/
def recovering {α : Type} (b : BuildId) (f : Cluster → α × Cluster) (s : Cluster) :
    Except Unit α × Cluster :=
  if s.cancelRequested b then (.error (), s.setStage b .failed)
  else (.ok (f s).1, (f s).2)

/-- The lookups of `_recover_dialog`: the open tasks of the dialog, and whether
it has stranded exchanges.  Both come back empty on a failure. -/
def recoveryWork (b : BuildId) (s : Cluster) : List TaskId × Bool :=
  match s.runner b with
  | none => ([], false)
  | some r =>
      if s.storeDown then ([], false)
      else
        ((s.openTasks.filter fun row => row.1 = r.claim.dialogId).map (·.2),
          s.stranded.contains r.claim.dialogId)

/-- `restart_task` up to the start: whether the task may run again.  One that
may not is closed. -/
def restartAdmit (cfg : ManagerConfig) (b : BuildId) (task : TaskId) (s : Cluster) :
    Bool × Cluster :=
  if s.storeDown then (false, s)
  else if ((s.runner b).map (·.processes.length)).getD 0 < cfg.maxProcesses
      && !s.budgetRefused then (true, s)
  else (false, { s with openTasks := s.openTasks.filter fun row => row.2 ≠ task })

/-- `_create_process`. -/
def startProcess (b : BuildId) (task : TaskId) (s : Cluster) : Cluster :=
  { s.updateRunner b fun r => { r with processes := task :: r.processes } with
    lateStarts :=
      if (s.runner b).any (·.stopping) then (b, task) :: s.lateStarts else s.lateStarts }

/-- `restart_task`: the process of the orphaned task starts. -/
def restartStart (cfg : ManagerConfig) (b : BuildId) (task : TaskId) (s : Cluster) : Cluster :=
  match s.build b with
  | none => s
  | some build =>
      { startProcess b task s with
        restarts :=
          { owner := cfg.owner build.node, dialogId := cfg.dialogOf build.key, task := task,
            lapses := build.lapses } :: s.restarts }

/-- The end of `_build_runner`. -/
def finishBuild (b : BuildId) (s : Cluster) : Cluster :=
  { s.setStage b .finished with
    finishes :=
      { runner := b, dropped := (s.runner b).any (·.dropped),
        retired := (s.runner b).any (·.retired) } :: s.finishes }

/-- A process of a new RUN task: the row is stored and the process starts. -/
def startNewTask (cfg : ManagerConfig) (b : BuildId) (s : Cluster) : Cluster :=
  match s.build b with
  | none => s
  | some build =>
      { startProcess b s.nextTask s with
        openTasks := s.openTasks ++ [(cfg.dialogOf build.key, s.nextTask)]
        nextTask := s.nextTask + 1 }

/-- `claims.heartbeat`. -/
def beat (held : List DialogClaim) (s : Cluster) : Except Unit (List DialogId) × Cluster :=
  if s.storeDown then (.error (), s)
  else
    let result := heartbeat s.claims held s.now
    (.ok result.1, { s with claims := result.2 })

/-- `_release`: the row goes if it is still the runner's own claim. -/
def releaseClaim (b : BuildId) (s : Cluster) : Cluster :=
  match s.runner b with
  | none => s
  | some r =>
      if s.storeDown then s
      else
        let claims := release s.claims r.claim.dialogId r.claim.owner r.claim.generation
        { s with
          claims := claims
          lapses := fun dialogId =>
            s.lapses dialogId + if claims dialogId = s.claims dialogId then 0 else 1 }

/-- How `evict` finds the dialog: every runner of the key but the finished one
of the memoized build has been deregistered and has ended. -/
def gone (s : Cluster) (b : BuildId) : Bool :=
  match s.build b, s.runner b with
  | some build, some r =>
      r.stopping && !r.actorRunning && r.processes.isEmpty &&
        s.runners build.node r.claim.dialogId != some b
  | _, _ => true

def callClean (s : Cluster) (node : NodeId) (key : Key) : Bool :=
  (List.range s.nextBuild).all fun b =>
    match s.build b with
    | none => true
    | some build =>
        if build.node = node ∧ build.key = key then
          (s.builds node key == some b && build.stage == .finished) || s.gone b
        else true

/-- `evict` returns. -/
def evictReturn (e : Eviction) (s : Cluster) : Cluster :=
  { s with evictions := e :: s.evictions }

/-- `evict` once the build is done: its runner is deregistered, and without a
runner the call is over.  Returns whether there is one. -/
def evictAwaited (e : Eviction) (b : BuildId) (s : Cluster) : Bool × Cluster :=
  if s.finishedBuild b then
    match s.runner b with
    | none => (true, s)
    | some r => (true, { s with runners := set2 s.runners e.node r.claim.dialogId none })
  else (false, evictReturn e s)

/-- Where `evict` goes on. -/
inductive EvictNext where
  | returned
  | awaiting (e : Eviction) (b : BuildId)
  | stopping (e : Eviction) (b : BuildId)

/-- The record an eviction starts with. -/
def evictionAt (s : Cluster) (node : NodeId) (key : Key) : Eviction :=
  { node := node, key := key, bound := s.nextBuild, clean := s.callClean node key }

/-- The first step of `evict`: the memo goes, and a build that is not done is
cancelled.  Awaiting a build that is done returns at once. -/
def evictCall (node : NodeId) (key : Key) (s : Cluster) : EvictNext × Cluster :=
  match s.builds node key with
  | none => (.returned, evictReturn (s.evictionAt node key) s)
  | some b =>
      let popped := { s with builds := set2 s.builds node key none }
      if s.buildDone b then
        let awaited := evictAwaited (s.evictionAt node key) b popped
        (if awaited.1 then .stopping (s.evictionAt node key) b else .returned, awaited.2)
      else
        (.awaiting (s.evictionAt node key) b,
          popped.updateBuild b fun build => { build with cancelRequested := true })

end Cluster

/-! ## The coroutines -/

open Cluster

abbrev Routine := Co Cluster Unit

/-- Other coroutines run. -/
def pause : Routine Unit := Co.modify id

/-- The rest of `stop`: wait for the processes and the actor, then close the
dialog's compaction. -/
def stopRest (b : BuildId) (captured : List TaskId) : Routine Unit := do
  Co.blockUntil (stopped b captured) fun s => ((), s)
  pause

def stop (b : BuildId) : Routine Unit := do
  let captured ← Co.atomic (stopBegin b)
  stopRest b captured

def standDown (b : BuildId) : Routine Unit := do
  match ← Co.atomic (standDownBegin b) with
  | none => pure ()
  | some captured => stopRest b captured

/-- `_drop_preempted`. -/
def dropPreempted (b : BuildId) : Routine Unit := do
  Co.modify (dropRegistered b)
  pause
  standDown b

/-- The cached actor of the key, if its build is finished, with whether it is
retired. -/
def cachedRunner (node : NodeId) (key : Key) (s : Cluster) : Option (BuildId × Runner) :=
  match s.builds node key with
  | none => none
  | some b => if s.finishedBuild b then (s.runner b).map fun r => (b, r) else none

/-- `_still_owns_dialog` of a runner, on the stored row. -/
def ownsDialog (r : Runner) (s : Cluster) : Bool :=
  stillOwnsDialog
    (if s.storeDown then .error () else .ok (currentGeneration s.claims r.claim.dialogId)) r.claim

/-- `_replace_retired`. -/
def replaceRetired (node : NodeId) (key : Key) : Routine Unit := do
  match ← Co.read (cachedRunner node key) with
  | none => pure ()
  | some (b, r) =>
      if r.retired then dropPreempted b
      else if ← Co.read (ownsDialog r) then pure ()
      else dropPreempted b

def getOrCreateRunner (node : NodeId) (key : Key) (origin : Origin) : Routine BuildId := do
  replaceRetired node key
  let (b, ours) ← Co.atomic (openBuild node key origin)
  Co.attemptWhen (fun s => s.buildDone b) (awaitBuild node key b)
  if ours then pause
  pure b

/-- An await of the build task after the registration. -/
def whileRecovering {α : Type} (b : BuildId) (f : Cluster → α × Cluster) : Routine α :=
  Co.attemptWhen (fun s => s.stage b == some .recovering) (recovering b f)

/-- `restart_task` for one orphaned task of the dialog that is being recovered. -/
def restartTask (cfg : ManagerConfig) (b : BuildId) (task : TaskId) : Routine Unit := do
  if ← whileRecovering b (restartAdmit cfg b task) then
    whileRecovering b fun s => ((), restartStart cfg b task s)

/-- `_recover_dialog`.  What `resume_stranded` starts it starts through the
runner, like every other run of the dialog. -/
def recoverDialog (cfg : ManagerConfig) (b : BuildId) : Routine Unit := do
  let (orphaned, stranded) ← whileRecovering b fun s => (recoveryWork b s, s)
  Co.forEach orphaned (restartTask cfg b)
  if stranded then whileRecovering b fun s => ((), s)

/-- `_build_runner`, as the task with the given number. -/
def buildRunner (cfg : ManagerConfig) (b : BuildId) : Routine Unit := do
  let c ← Co.attemptWhen (fun s => s.stage b == some .created) (buildClaim cfg b)
  Co.attemptWhen (fun s => s.stage b == some (.claimed c)) (buildRegister b c)
  recoverDialog cfg b
  whileRecovering b fun s => ((), finishBuild b s)

/-- `_beat_once`. -/
def beatOnce (node : NodeId) : Routine Unit := do
  let runners ← Co.read fun s => s.registered node
  if runners.isEmpty then pure ()
  else
    let kept ← Co.attempt (beat (runners.map (·.2)))
    Co.forEach runners fun (b, c) =>
      if kept.contains c.dialogId then pure () else dropPreempted b

/-- The freshness lookup of `_held_elsewhere`: the dialogs no live peer holds,
each with the row the lookup saw.  A failed lookup leaves every dialog to its
peer. -/
def notHeldElsewhere (cfg : ManagerConfig) (node : NodeId) (dialogIds : List DialogId)
    (readAt : Time) (s : Cluster) : List (DialogId × Option ClaimRow) :=
  if s.storeDown then []
  else
    let held := heldElsewhere s.claims dialogIds (cfg.owner node) (readAt - cfg.staleAfter)
    (dialogIds.filter fun dialogId => !held.contains dialogId).map fun dialogId =>
      (dialogId, s.claims dialogId)

/-- The registered runner of the dialog, unless it is retired. -/
def liveRunner (s : Cluster) (node : NodeId) (dialogId : DialogId) : Option BuildId :=
  (s.runners node dialogId).filter fun b => (s.runner b).any fun r => !r.retired

/-- A read that fails while the database does. -/
def query {α : Type} (f : Cluster → α) : Routine α :=
  Co.attempt fun s => (if s.storeDown then .error () else .ok (f s), s)

/-- `_runner_for_background`. -/
def runnerForBackground (cfg : ManagerConfig) (node : NodeId) (key : Key) :
    Routine (Option BuildId) := do
  let dialogId := cfg.dialogOf key
  let (existing, readAt) ← query fun s => (liveRunner s node dialogId, s.now)
  if existing.isSome then pure existing
  else
    let free ← Co.read (notHeldElsewhere cfg node [dialogId] readAt)
    match free with
    | [] => pure none
    | (_, seen) :: _ => do
        let b ← getOrCreateRunner node key (.background seen readAt)
        pure (some b)

/-- `promote_collection`; the promotion itself goes through the runner's inbox. -/
def promoteCollection (cfg : ManagerConfig) (node : NodeId) (key : Key) : Routine Unit := do
  let _ ← runnerForBackground cfg node key
  pure ()

/-- `wake`, with `ConversationRunner.wake`. -/
def wake (cfg : ManagerConfig) (node : NodeId) (key : Key) : Routine Unit := do
  match ← runnerForBackground cfg node key with
  | none => pure ()
  | some b =>
      let refused ← query (·.budgetRefused)
      if refused then pure ()
      else
        let free ← Co.read fun s =>
          decide (((s.runner b).map (·.processes.length)).getD 0 < cfg.maxProcesses)
        if free then
          Co.attempt fun s => if s.storeDown then (.error (), s) else (.ok (), startNewTask cfg b s)
        else pure ()

/-- `_adopt`: a failure is logged and the next dialog is tried. -/
def adopt (cfg : ManagerConfig) (node : NodeId) (readAt : Time)
    (candidate : DialogId × Option ClaimRow) : Routine Unit :=
  Co.tryCatch
    (do
      query fun _ => ()
      let _ ← getOrCreateRunner node (cfg.keyOf candidate.1) (.background candidate.2 readAt)
      pure ())
    fun () => pure ()

/-- A sweep of `recover_interrupted`, empty on a failure. -/
def sweep (f : Cluster → List DialogId) : Routine (List DialogId) :=
  Co.read fun s => if s.storeDown then [] else f s

/-- `recover_interrupted`. -/
def recoverInterrupted (cfg : ManagerConfig) (node : NodeId) : Routine Unit := do
  let stranded ← sweep (·.stranded)
  let orphaned ← sweep fun s => s.openTasks.map (·.1)
  let undelivered ← sweep (·.undelivered)
  let candidates := (stranded ++ orphaned ++ undelivered).eraseDups
  let readAt ← Co.read (·.now)
  let mine ← Co.read (notHeldElsewhere cfg node candidates readAt)
  Co.forEach mine (adopt cfg node readAt)

/-- A message of the user: whoever it lands on takes the dialog. -/
def incomingMessage (cfg : ManagerConfig) (node : NodeId) (key : Key) : Routine Unit := do
  Co.modify fun s =>
    { s with messaged := Function.update s.messaged (cfg.dialogOf key) true }
  let _ ← getOrCreateRunner node key .message
  pure ()

/-- `evict` after its first step. -/
def evictRest : EvictNext → Routine Unit
  | .returned => pure ()
  | .awaiting e b => do
      if ← Co.blockUntil (fun s => s.buildDone b) (evictAwaited e b) then stopEvicted e b
  | .stopping e b => stopEvicted e b
where
  /-- The runner is detached from its surface, stopped, and its claim is
  released. -/
  stopEvicted (e : Eviction) (b : BuildId) : Routine Unit := do
    pause
    stop b
    Co.modify fun s => evictReturn e (releaseClaim b s)

def evict (node : NodeId) (key : Key) : Routine Unit := do
  let next ← Co.atomic (evictCall node key)
  evictRest next

/-! ## The cluster as a system -/

inductive ManagerCall where
  | message (node : NodeId) (key : Key)
  | wake (node : NodeId) (key : Key)
  | promote (node : NodeId) (key : Key)
  | recover (node : NodeId)
  | beat (node : NodeId)
  | evict (node : NodeId) (key : Key)
  | build (b : BuildId)

/-- What happens without the manager: time, the database, other processes'
tasks, and the lives of the runners. -/
inductive ClusterEvent where
  | tick (seconds : Nat)
  | store (down : Bool)
  | budget (refused : Bool)
  | taskOpens (dialogId : DialogId) (task : TaskId)
  | taskCloses (task : TaskId)
  | strands (dialogId : DialogId)
  | undelivered (dialogId : DialogId)
  | claimDeleted (dialogId : DialogId)
  | processStarts (b : BuildId)
  | processEnds (b : BuildId) (task : TaskId)
  | actorEnds (b : BuildId)
  | preempts (b : BuildId)

/-- Time passes; a claim nobody refreshed in time has lapsed. -/
def Cluster.tick (cfg : ManagerConfig) (seconds : Nat) (s : Cluster) : Cluster :=
  { s with
    now := s.now + seconds
    lapses := fun dialogId =>
      s.lapses dialogId +
        if (s.claims dialogId).any fun row =>
          s.now ≤ row.heartbeatAt + cfg.staleAfter &&
            row.heartbeatAt + cfg.staleAfter < s.now + seconds
        then 1 else 0 }

/-- `claims.delete_for_dialog`, the last step of an administrator's deletion. -/
def Cluster.deleteClaim (dialogId : DialogId) (s : Cluster) : Cluster :=
  { s with
    claims := deleteForDialog s.claims dialogId
    lapses := Function.update s.lapses dialogId (s.lapses dialogId + 1) }

def clusterEvent (cfg : ManagerConfig) : ClusterEvent → Cluster → Cluster
  | .tick seconds, s => s.tick cfg seconds
  | .store down, s => { s with storeDown := down }
  | .budget refused, s => { s with budgetRefused := refused }
  | .taskOpens dialogId task, s => { s with openTasks := s.openTasks ++ [(dialogId, task)] }
  | .taskCloses task, s => { s with openTasks := s.openTasks.filter fun row => row.2 ≠ task }
  | .strands dialogId, s => { s with stranded := s.stranded ++ [dialogId] }
  | .undelivered dialogId, s => { s with undelivered := s.undelivered ++ [dialogId] }
  | .claimDeleted dialogId, s => s.deleteClaim dialogId
  | .processStarts b, s => startNewTask cfg b s
  | .processEnds b task, s =>
      s.updateRunner b fun r => { r with processes := r.processes.filter (· ≠ task) }
  | .actorEnds b, s => s.updateRunner b fun r => { r with actorRunning := false }
  | .preempts b, s => s.updateRunner b fun r => { r with preempted := true }

def managerBody (cfg : ManagerConfig) : ManagerCall → Routine Unit
  | .message node key => incomingMessage cfg node key
  | .wake node key => wake cfg node key
  | .promote node key => promoteCollection cfg node key
  | .recover node => recoverInterrupted cfg node
  | .beat node => beatOnce node
  | .evict node key => evict node key
  | .build b => buildRunner cfg b

/-- The managers of all processes over one database. -/
def managers (cfg : ManagerConfig) : System Cluster Unit where
  Call := ManagerCall
  body call _ := managerBody cfg call
  Event := ClusterEvent
  event e s := some (clusterEvent cfg e s)
  crash _ := none

/-- A cluster whose processes have just started: any clock, any claims and any
work left over by earlier ones, but no builds and no runners. -/
structure Cluster.Fresh (s : Cluster) : Prop where
  builds : s.builds = fun _ _ => none
  runners : s.runners = fun _ _ => none
  build : s.build = fun _ => none
  runner : s.runner = fun _ => none
  takeovers : s.takeovers = []
  restarts : s.restarts = []
  pops : s.pops = []
  finishes : s.finishes = []
  lateStarts : s.lateStarts = []
  evictions : s.evictions = []

/-- Processes named by their number, and a dialog per key; the configuration of
the concrete runs. -/
def plainConfig : ManagerConfig where
  owner := id
  dialogOf := id
  keyOf := id
  keyOf_dialogOf _ := rfl
  staleAfter := 30
  maxProcesses := 5

/-- Resume one coroutine several times in a row. -/
def resumes {cfg : ManagerConfig} (thread count : Nat) : List (System.Move (managers cfg)) :=
  List.replicate count (.resume thread)

end Ownership
end OctoForge
