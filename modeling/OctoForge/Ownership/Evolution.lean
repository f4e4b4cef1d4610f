import OctoForge.Ownership.Steps

/-!
# What a step leaves in place

Build tasks and runners only get older: a claim never changes, a runner that is
being stopped never starts again, a build that has ended stays ended.  From
this follows that a build without a living runner stays without one, which is
what an eviction relies on while it waits.
-/

namespace OctoForge
namespace Ownership

open Coop Cluster

/-- A build task later in its life. -/
structure BuildLater (x y : Build) : Prop where
  node : y.node = x.node
  key : y.key = x.key
  origin : y.origin = x.origin
  cancelled : x.cancelRequested = true → y.cancelRequested = true
  ended : x.stage.running = false → y.stage = x.stage
  unfinished : x.cancelRequested = true → x.stage ≠ .finished → y.stage ≠ .finished

/-- A runner later in its life.  While nobody starts a process on a runner that
is being stopped, such a runner only loses processes. -/
structure RunnerLater (quiet : Prop) (r r' : Runner) : Prop where
  claim : r'.claim = r.claim
  stopping : r.stopping = true → r'.stopping = true
  actor : r.actorRunning = false → r'.actorRunning = false
  retired : r.retired = true → r'.retired = true
  processes : quiet → r.stopping = true → r'.processes ⊆ r.processes

theorem BuildLater.refl (x : Build) : BuildLater x x :=
  ⟨rfl, rfl, rfl, id, fun _ => rfl, fun _ => id⟩

theorem RunnerLater.refl {quiet : Prop} (r : Runner) : RunnerLater quiet r r :=
  ⟨rfl, id, id, id, fun _ _ => List.Subset.refl _⟩

/-- Build tasks and runners only get older, new ones get new numbers, and only
a new runner is registered. -/
structure Evolves (cfg : ManagerConfig) (s s' : Cluster) : Prop where
  now : s.now ≤ s'.now
  messaged : ∀ dialogId, s.messaged dialogId = true → s'.messaged dialogId = true
  nextBuild : s.nextBuild ≤ s'.nextBuild
  quiet : s'.lateStarts = [] → s.lateStarts = []
  build : ∀ b x, s.build b = some x → ∃ y, s'.build b = some y ∧ BuildLater x y
  newBuild : ∀ b y, s'.build b = some y → s.build b = none →
    s.nextBuild ≤ b ∧ Licensed cfg y.node y.key y.origin s
  runner : ∀ b r, s.runner b = some r →
    ∃ r', s'.runner b = some r' ∧ RunnerLater (s'.lateStarts = []) r r'
  newRunner : ∀ b, s.runner b = none → s'.runner b = none ∨
    ∃ x, s.build b = some x ∧ x.stage.running = true ∧ x.cancelRequested = false
  registered : ∀ node dialogId b, s'.runners node dialogId = some b →
    s.runners node dialogId = some b ∨
      s.runner b = none ∧ ∃ y r', s'.build b = some y ∧ y.node = node ∧
        s'.runner b = some r' ∧ r'.claim.dialogId = dialogId

namespace Evolves

variable {cfg : ManagerConfig} {s s' : Cluster}

/-- Steps that touch neither heap. -/
theorem of_core (hBuild : s'.build = s.build) (hRunner : s'.runner = s.runner)
    (hNext : s'.nextBuild = s.nextBuild) (hLate : s'.lateStarts = s.lateStarts)
    (hRunners : ∀ node dialogId b, s'.runners node dialogId = some b →
      s.runners node dialogId = some b)
    (hNow : s.now ≤ s'.now)
    (hMessaged : ∀ dialogId, s.messaged dialogId = true → s'.messaged dialogId = true) :
    Evolves cfg s s' where
  now := hNow
  messaged := hMessaged
  nextBuild := Nat.le_of_eq hNext.symm
  quiet := by rw [hLate]; exact id
  build := fun b x hOld => ⟨x, by rw [hBuild]; exact hOld, BuildLater.refl x⟩
  newBuild := by
    intro b y hNew hOld
    rw [hBuild, hOld] at hNew
    exact absurd hNew (by simp)
  runner := fun b r hOld => ⟨r, by rw [hRunner]; exact hOld, RunnerLater.refl r⟩
  newRunner := fun b hOld => Or.inl (by rw [hRunner]; exact hOld)
  registered := fun node dialogId b hNew => Or.inl (hRunners node dialogId b hNew)

/-- `Evolves` reads seven fields of the later state. -/
theorem congr {t : Cluster} (hEvolves : Evolves cfg s t) (hNow : s'.now = t.now)
    (hMessaged : s'.messaged = t.messaged) (hNext : s'.nextBuild = t.nextBuild)
    (hLate : s'.lateStarts = t.lateStarts) (hBuild : s'.build = t.build)
    (hRunner : s'.runner = t.runner) (hRunners : s'.runners = t.runners) : Evolves cfg s s' where
  now := by rw [hNow]; exact hEvolves.now
  messaged := by rw [hMessaged]; exact hEvolves.messaged
  nextBuild := by rw [hNext]; exact hEvolves.nextBuild
  quiet := by rw [hLate]; exact hEvolves.quiet
  build := by rw [hBuild]; exact hEvolves.build
  newBuild := by rw [hBuild]; exact hEvolves.newBuild
  runner := by rw [hRunner, hLate]; exact hEvolves.runner
  newRunner := by rw [hRunner]; exact hEvolves.newRunner
  registered := by rw [hRunners, hBuild, hRunner]; exact hEvolves.registered

theorem refl (s : Cluster) : Evolves cfg s s :=
  of_core rfl rfl rfl rfl (fun _ _ _ => id) (Nat.le_refl _) (fun _ => id)

/-- Steps that make one runner older. -/
theorem updateRunner (b : BuildId) (f : Runner → Runner)
    (hRunner' : s'.runner = (s.updateRunner b f).runner) (hBuild : s'.build = s.build)
    (hNext : s'.nextBuild = s.nextBuild) (hLate : s'.lateStarts = [] → s.lateStarts = [])
    (hRunners : ∀ node dialogId b, s'.runners node dialogId = some b →
      s.runners node dialogId = some b)
    (hNow : s.now ≤ s'.now)
    (hMessaged : ∀ dialogId, s.messaged dialogId = true → s'.messaged dialogId = true)
    (hLater : ∀ r, s.runner b = some r → RunnerLater (s'.lateStarts = []) r (f r)) :
    Evolves cfg s s' where
  now := hNow
  messaged := hMessaged
  nextBuild := Nat.le_of_eq hNext.symm
  quiet := hLate
  build := fun b x hOld => ⟨x, by rw [hBuild]; exact hOld, BuildLater.refl x⟩
  newBuild := by
    intro b y hNew hOld
    rw [hBuild, hOld] at hNew
    exact absurd hNew (by simp)
  runner := by
    intro b' r hOld
    rw [hRunner']
    by_cases hSame : b' = b
    · subst hSame
      exact ⟨f r, by simp [hOld], hLater r hOld⟩
    · exact ⟨r, (updateRunner_runner_of_ne s f hSame).trans hOld, RunnerLater.refl r⟩
  newRunner := by
    intro b' hOld
    rw [hRunner']
    by_cases hSame : b' = b
    · subst hSame
      exact Or.inl (by simp [hOld])
    · exact Or.inl ((updateRunner_runner_of_ne s f hSame).trans hOld)
  registered := fun node dialogId b hNew => Or.inl (hRunners node dialogId b hNew)

/-- Steps that make one build task older. -/
theorem updateBuild (b : BuildId) (f : Build → Build)
    (hBuild' : s'.build = (s.updateBuild b f).build) (hRunner : s'.runner = s.runner)
    (hNext : s'.nextBuild = s.nextBuild) (hLate : s'.lateStarts = s.lateStarts)
    (hRunners : s'.runners = s.runners) (hNow : s'.now = s.now)
    (hMessaged : s'.messaged = s.messaged)
    (hLater : ∀ x, s.build b = some x → BuildLater x (f x)) : Evolves cfg s s' where
  now := Nat.le_of_eq hNow.symm
  messaged := by rw [hMessaged]; exact fun _ => id
  nextBuild := Nat.le_of_eq hNext.symm
  quiet := by rw [hLate]; exact id
  build := by
    intro b' x hOld
    rw [hBuild']
    by_cases hSame : b' = b
    · subst hSame
      exact ⟨f x, by simp [hOld], hLater x hOld⟩
    · exact ⟨x, (updateBuild_build_of_ne s f hSame).trans hOld, BuildLater.refl x⟩
  newBuild := by
    intro b' y hNew hOld
    rw [hBuild'] at hNew
    by_cases hSame : b' = b
    · subst hSame
      simp [hOld] at hNew
    · rw [updateBuild_build_of_ne s f hSame, hOld] at hNew
      exact absurd hNew (by simp)
  runner := fun b r hOld => ⟨r, by rw [hRunner]; exact hOld, RunnerLater.refl r⟩
  newRunner := fun b hOld => Or.inl (by rw [hRunner]; exact hOld)
  registered := by
    intro node dialogId b hNew
    rw [hRunners] at hNew
    exact Or.inl hNew

theorem setStage {b : BuildId} {x : Build} {stage : Stage} (hBuild : s.build b = some x)
    (hRunning : x.stage.running = true)
    (hUnfinished : x.cancelRequested = true → stage ≠ .finished) :
    Evolves cfg s (s.setStage b stage) := by
  refine Evolves.updateBuild b _ rfl rfl rfl rfl rfl rfl rfl ?_
  intro y hBuild'
  obtain rfl : x = y := Option.some.inj (hBuild.symm.trans hBuild')
  refine ⟨rfl, rfl, rfl, id, ?_, fun hCancel _ => hUnfinished hCancel⟩
  rw [hRunning]
  simp

theorem openBuild (hBase : Base cfg s) {node : NodeId} {key : Key} {origin : Origin}
    (hLicensed : Licensed cfg node key origin s) :
    Evolves cfg s (Cluster.openBuild node key origin s).2 := by
  cases hMemo : s.builds node key with
  | some b => simpa only [Cluster.openBuild, hMemo] using Evolves.refl s
  | none =>
      simp only [Cluster.openBuild, hMemo]
      refine ⟨Nat.le_refl _, fun _ => id, Nat.le_succ _, id, ?_, ?_,
        fun b r hOld => ⟨r, hOld, RunnerLater.refl r⟩, fun _ => Or.inl,
        fun _ _ _ => Or.inl⟩
      · intro b x hOld
        have hNe : b ≠ s.nextBuild := Nat.ne_of_lt (hBase.bound b x hOld)
        exact ⟨x, by simpa [Function.update_of_ne hNe] using hOld, BuildLater.refl x⟩
      · intro b y hNew hOld
        by_cases hSame : b = s.nextBuild
        · subst hSame
          simp only [Function.update_self, Option.some.injEq] at hNew
          subst hNew
          exact ⟨Nat.le_refl _, hLicensed⟩
        · simp only [Function.update_of_ne hSame, hOld] at hNew
          exact absurd hNew (by simp)

theorem startProcess (b : BuildId) (task : TaskId) : Evolves cfg s (Cluster.startProcess b task s) := by
  refine Evolves.updateRunner b _ rfl rfl rfl ?_ (fun _ _ _ => id) (Nat.le_refl _) (fun _ => id) ?_
  · intro hQuiet
    simp only [Cluster.startProcess] at hQuiet
    split at hQuiet
    · exact absurd hQuiet (by simp)
    · exact hQuiet
  · intro r hRunner
    refine ⟨rfl, id, id, id, ?_⟩
    intro hQuiet hStopping
    simp [Cluster.startProcess, hRunner, hStopping] at hQuiet

theorem startNewTask (b : BuildId) : Evolves cfg s (Cluster.startNewTask cfg b s) := by
  rcases startNewTask_cases s cfg b with hEq | ⟨_, -, hEq⟩ <;> rw [hEq]
  · exact Evolves.refl s
  · exact (Evolves.startProcess b s.nextTask).congr rfl rfl rfl rfl rfl rfl rfl

theorem buildRegister (hBase : Base cfg s) {b : BuildId} {c : DialogClaim}
    (hStage : s.stage b = some (.claimed c)) : Evolves cfg s (Cluster.buildRegister b c s).2 := by
  obtain ⟨x, hBuild, hClaimed⟩ := stage_eq_some hStage
  have hRunning : x.stage.running = true := by rw [hClaimed]; rfl
  -- A build that has only claimed has no runner yet.
  have hNone : s.runner b = none := by
    cases hRunner : s.runner b with
    | none => rfl
    | some r =>
        obtain ⟨y, hBuild', hStarted, _⟩ := hBase.runner b r hRunner
        obtain rfl : x = y := Option.some.inj (hBuild.symm.trans hBuild')
        rw [hClaimed] at hStarted
        exact absurd hStarted (by simp [Stage.started])
  rcases buildRegister_cases s c hBuild with hEq | ⟨hCancel, hEq⟩ <;> rw [hEq]
  · exact Evolves.setStage hBuild hRunning (by simp)
  · have hMoved : Evolves cfg s (s.setStage b .recovering) :=
      Evolves.setStage hBuild hRunning (by simp)
    obtain ⟨hNow, hMessaged, hNext, hQuiet, hBuilds, hNewBuild, _, _, _⟩ := hMoved
    refine ⟨hNow, hMessaged, hNext, hQuiet, hBuilds, hNewBuild, ?_, ?_, ?_⟩
    · intro b' r hOld
      have hNe : b' ≠ b := by
        rintro rfl
        rw [hNone] at hOld
        exact absurd hOld (by simp)
      exact ⟨r, by simpa [Function.update_of_ne hNe] using hOld, RunnerLater.refl r⟩
    · intro b' hOld
      by_cases hSame : b' = b
      · subst hSame
        exact Or.inr ⟨x, hBuild, hRunning, hCancel⟩
      · exact Or.inl (by simpa [Function.update_of_ne hSame] using hOld)
    · intro node dialogId b' hNew
      simp only [set2] at hNew
      split at hNew
      · rename_i hSlot
        obtain rfl := Option.some.inj hNew
        refine Or.inr ⟨hNone, { x with stage := .recovering }, { claim := c }, ?_, hSlot.1.symm,
          ?_, hSlot.2.symm⟩
        · simp [Cluster.setStage, hBuild]
        · simp
      · exact Or.inl hNew

end Evolves

theorem set2_none_sub {α : Type} {m : Nat → Nat → Option α} {x y x' y' : Nat} {v : α}
    (h : set2 m x y none x' y' = some v) : m x' y' = some v := by
  simp only [set2] at h
  split at h
  · exact absurd h (by simp)
  · exact h

namespace Evolves

variable {cfg : ManagerConfig} {s : Cluster}

/-- Nor does it read the memo of the earlier state. -/
theorem of_forgotten {s' : Cluster} {builds : NodeId → Key → Option BuildId}
    (hEvolves : Evolves cfg { s with builds := builds } s') : Evolves cfg s s' := by
  refine ⟨hEvolves.now, hEvolves.messaged, hEvolves.nextBuild, hEvolves.quiet, hEvolves.build,
    ?_, hEvolves.runner, hEvolves.newRunner, hEvolves.registered⟩
  intro b y hNew hOld
  obtain ⟨hLe, hLicensed⟩ := hEvolves.newBuild b y hNew hOld
  refine ⟨hLe, ?_⟩
  cases hOrigin : y.origin with
  | message => rw [hOrigin] at hLicensed; exact hLicensed
  | background seen readAt => rw [hOrigin] at hLicensed; exact hLicensed

theorem evictAwaited (e : Eviction) (b : BuildId) : Evolves cfg s (Cluster.evictAwaited e b s).2 := by
  rcases evictAwaited_cases s e b with hEq | ⟨_, -, hEq⟩ | hEq <;> rw [hEq]
  · exact Evolves.refl s
  · exact Evolves.of_core rfl rfl rfl rfl (fun _ _ _ => set2_none_sub) (Nat.le_refl _)
      (fun _ => id)
  · exact Evolves.of_core rfl rfl rfl rfl (fun _ _ _ => id) (Nat.le_refl _) (fun _ => id)

theorem evictCall (node : NodeId) (key : Key) : Evolves cfg s (Cluster.evictCall node key s).2 := by
  rcases evictCall_cases s node key with
    ⟨-, hEq⟩ | ⟨b, _, -, -, rfl, hEq⟩ | ⟨b, -, -, hEq⟩ <;> rw [hEq]
  · exact Evolves.of_core rfl rfl rfl rfl (fun _ _ _ => id) (Nat.le_refl _) (fun _ => id)
  · exact (Evolves.evictAwaited _ b).of_forgotten
  · exact Evolves.updateBuild b _ rfl rfl rfl rfl rfl rfl rfl
      fun x _ => ⟨rfl, rfl, rfl, fun _ => rfl, fun _ => rfl, fun _ => id⟩

theorem releaseClaim (b : BuildId) : Evolves cfg s (Cluster.releaseClaim b s) := by
  rcases releaseClaim_cases s b with hEq | ⟨_, hEq⟩ <;> rw [hEq]
  · exact Evolves.refl s
  · exact Evolves.of_core rfl rfl rfl rfl (fun _ _ _ => id) (Nat.le_refl _) (fun _ => id)

theorem runnerOnly (b : BuildId) (f : Runner → Runner)
    (hLater : ∀ r, RunnerLater (s.lateStarts = []) r (f r)) : Evolves cfg s (s.updateRunner b f) :=
  Evolves.updateRunner b f rfl rfl rfl id (fun _ _ _ => id) (Nat.le_refl _) (fun _ => id)
    fun r _ => hLater r

theorem event (event : ClusterEvent) : Evolves cfg s (clusterEvent cfg event s) := by
  cases event with
  | tick seconds =>
      exact Evolves.of_core rfl rfl rfl rfl (fun _ _ _ => id) (Nat.le_add_right _ _) (fun _ => id)
  | processStarts b => exact Evolves.startNewTask b
  | processEnds b task =>
      exact runnerOnly b _ fun r =>
        ⟨rfl, id, id, id, fun _ _ => List.filter_sublist.subset⟩
  | actorEnds b =>
      exact runnerOnly b _ fun r => ⟨rfl, id, fun _ => rfl, id, fun _ _ => List.Subset.refl _⟩
  | preempts b =>
      exact runnerOnly b _ fun r =>
        ⟨rfl, id, id, by simp [Runner.retired], fun _ _ => List.Subset.refl _⟩
  | _ => exact Evolves.of_core rfl rfl rfl rfl (fun _ _ _ => id) (Nat.le_refl _) (fun _ => id)

end Evolves

/-- Every step leaves in place what `Evolves` lists. -/
theorem Step.evolves {cfg : ManagerConfig} {s s' : Cluster} (hBase : Base cfg s)
    (hStep : Step cfg s s') : Evolves cfg s s' := by
  cases hStep with
  | idle => exact Evolves.refl s
  | message dialogId =>
      refine Evolves.of_core rfl rfl rfl rfl (fun _ _ _ => id) (Nat.le_refl _) ?_
      intro other hMessaged
      by_cases hSame : other = dialogId
      · subst hSame
        simp
      · simpa [Function.update_of_ne hSame] using hMessaged
  | openBuild node key origin hLicensed => exact Evolves.openBuild hBase hLicensed
  | awaitBuild node key b hDone =>
      rcases awaitBuild_cases s node key b with hEq | ⟨-, hEq⟩ <;> rw [hEq]
      · exact Evolves.refl s
      · exact Evolves.of_core rfl rfl rfl rfl (fun _ _ _ => id) (Nat.le_refl _) (fun _ => id)
  | drop b =>
      rcases dropRegistered_cases s b with hEq | ⟨_, _, -, -, hEq⟩ <;> rw [hEq]
      · exact Evolves.refl s
      · exact Evolves.updateRunner b _ rfl rfl rfl id (fun _ _ _ => set2_none_sub) (Nat.le_refl _)
          (fun _ => id) fun r _ => ⟨rfl, id, id, id, fun _ _ => List.Subset.refl _⟩
  | stopBegin b =>
      exact Evolves.runnerOnly b _ fun r =>
        ⟨rfl, fun _ => rfl, id, id, fun _ _ => List.Subset.refl _⟩
  | standDownBegin b =>
      rcases standDownBegin_cases s b with hEq | hEq <;> rw [hEq]
      · exact Evolves.refl s
      · exact Evolves.runnerOnly b _ fun r =>
          ⟨rfl, fun _ => rfl, id, by simp [Runner.retired], fun _ _ => List.Subset.refl _⟩
  -- Only a build that is running claims, so nothing that is over changes.
  | buildClaim b hStage =>
      obtain ⟨x, hBuild, hCreated⟩ := stage_eq_some hStage
      have hRunning : x.stage.running = true := by rw [hCreated]; rfl
      rcases buildClaim_cases s cfg hBuild with hEq | ⟨-, hEq⟩ <;> rw [hEq]
      · exact Evolves.setStage hBuild hRunning (by simp)
      · refine Evolves.updateBuild b _ rfl rfl rfl rfl rfl rfl rfl ?_
        intro y hBuild'
        obtain rfl : x = y := Option.some.inj (hBuild.symm.trans hBuild')
        refine ⟨rfl, rfl, rfl, id, ?_, by simp⟩
        rw [hRunning]
        simp
  | buildRegister b c hStage => exact Evolves.buildRegister hBase hStage
  | cancelled b hStage =>
      obtain ⟨x, hBuild, hRecovering⟩ := stage_eq_some hStage
      exact Evolves.setStage hBuild (by rw [hRecovering]; rfl) (by simp)
  | restartAdmit b task =>
      rcases restartAdmit_cases s cfg b task with hEq | hEq <;> rw [hEq]
      · exact Evolves.refl s
      · exact Evolves.of_core rfl rfl rfl rfl (fun _ _ _ => id) (Nat.le_refl _) (fun _ => id)
  | restartStart b task hStage =>
      rcases restartStart_cases s cfg b task with hEq | ⟨_, -, hEq⟩ <;> rw [hEq]
      · exact Evolves.refl s
      · exact (Evolves.startProcess b task).congr rfl rfl rfl rfl rfl rfl rfl
  | finish b hStage hCancel =>
      obtain ⟨x, hBuild, hRecovering⟩ := stage_eq_some hStage
      have hRunning : x.stage.running = true := by rw [hRecovering]; rfl
      have hMoved : Evolves cfg s (s.setStage b .finished) := by
        apply Evolves.setStage hBuild hRunning
        rw [cancelRequested_eq hBuild] at hCancel
        simp [hCancel]
      exact hMoved.congr rfl rfl rfl rfl rfl rfl rfl
  | startNewTask b => exact Evolves.startNewTask b
  | beat held =>
      rcases beat_cases s held with hEq | hEq <;> rw [hEq]
      · exact Evolves.refl s
      · exact Evolves.of_core rfl rfl rfl rfl (fun _ _ _ => id) (Nat.le_refl _) (fun _ => id)
  | evictCall node key => exact Evolves.evictCall node key
  | evictAwaited e b hUnfinished hKnows => exact Evolves.evictAwaited e b
  | evictEnd e b hKnows =>
      exact (Evolves.releaseClaim b).congr rfl rfl rfl rfl rfl rfl rfl
  | event event => exact Evolves.event event

/-! ## Builds that are over stay over -/

theorem gone_iff {s : Cluster} {b : BuildId} {x : Build} (hBuild : s.build b = some x) :
    s.gone b = true ↔ ∀ r, s.runner b = some r →
      r.stopping = true ∧ r.actorRunning = false ∧ r.processes = [] ∧
        s.runners x.node r.claim.dialogId ≠ some b := by
  cases hRunner : s.runner b with
  | none => simp [Cluster.gone, hBuild, hRunner]
  | some r => simp [Cluster.gone, hBuild, hRunner, and_assoc]

theorem Over.step {cfg : ManagerConfig} {s s' : Cluster} {b : BuildId} {x : Build}
    (hBase : Base cfg s) (hStep : Step cfg s s') (hQuiet : s'.lateStarts = [])
    (hBuild : s.build b = some x) (hOver : Over s b) : Over s' b := by
  have hEvolves := hStep.evolves hBase
  obtain ⟨hGone, hNever⟩ := hOver
  rw [gone_iff hBuild] at hGone
  rw [cancelRequested_eq hBuild, buildDone_iff hBuild] at hNever
  obtain ⟨y, hBuild', hLater⟩ := hEvolves.build b x hBuild
  cases hRunner : s.runner b with
  | none =>
      have hEnded := hNever hRunner
      -- A build that has been cancelled or has ended gets no runner any more.
      have hStill : s'.runner b = none := by
        rcases hEvolves.newRunner b hRunner with hNone | ⟨x', hBuild'', hRunning, hCancel⟩
        · exact hNone
        · obtain rfl : x = x' := Option.some.inj (hBuild.symm.trans hBuild'')
          rcases hEnded with hEnded | hEnded
          · rw [hCancel] at hEnded; exact absurd hEnded (by simp)
          · rw [hRunning] at hEnded; exact absurd hEnded (by simp)
      refine ⟨(gone_iff hBuild').mpr (by simp [hStill]), fun _ => ?_⟩
      rw [cancelRequested_eq hBuild', buildDone_iff hBuild']
      rcases hEnded with hEnded | hEnded
      · exact Or.inl (hLater.cancelled hEnded)
      · exact Or.inr (by rw [hLater.ended hEnded]; exact hEnded)
  | some r =>
      obtain ⟨hStopping, hActor, hProcesses, hUnregistered⟩ := hGone r hRunner
      obtain ⟨r', hRunner', hLaterR⟩ := hEvolves.runner b r hRunner
      constructor
      · rw [gone_iff hBuild']
        intro r'' hRunner''
        obtain rfl : r' = r'' := Option.some.inj (hRunner'.symm.trans hRunner'')
        refine ⟨hLaterR.stopping hStopping, hLaterR.actor hActor, ?_, ?_⟩
        -- A stopping runner starts no process unless a late start is recorded.
        · have hSub := hLaterR.processes hQuiet hStopping
          rw [hProcesses] at hSub
          exact List.subset_nil.mp hSub
        · rw [hLater.node, hLaterR.claim]
          intro hRegistered
          rcases hEvolves.registered _ _ _ hRegistered with hOld | ⟨hNone, _⟩
          · exact hUnregistered hOld
          · rw [hRunner] at hNone
            exact absurd hNone (by simp)
      · intro hNone
        rw [hRunner'] at hNone
        exact absurd hNone (by simp)

theorem EvictKnows.step {cfg : ManagerConfig} {s s' : Cluster} {e : Eviction}
    (hBase : Base cfg s) (hKnows : EvictKnows e s) (hStep : Step cfg s s') :
    EvictKnows e s' := by
  have hEvolves := hStep.evolves hBase
  obtain ⟨hBound, hAll⟩ := hKnows
  refine ⟨Nat.le_trans hBound hEvolves.nextBuild, ?_⟩
  intro hClean hQuiet b y hLt hBuild' hNode hKey
  cases hBuild : s.build b with
  | none =>
      have hNew := (hEvolves.newBuild b y hBuild' hBuild).1
      exact absurd (Nat.lt_of_lt_of_le hLt hBound) (Nat.not_lt.mpr hNew)
  | some x =>
      obtain ⟨y', hBuild'', hLater⟩ := hEvolves.build b x hBuild
      obtain rfl : y = y' := Option.some.inj (hBuild'.symm.trans hBuild'')
      have hOver := hAll hClean (hEvolves.quiet hQuiet) b x hLt hBuild
        (hLater.node ▸ hNode) (hLater.key ▸ hKey)
      exact hOver.step hBase hStep hQuiet hBuild

theorem Licensed.step {cfg : ManagerConfig} {s s' : Cluster} {node : NodeId} {key : Key}
    {origin : Origin} (hBase : Base cfg s) (hLicensed : Licensed cfg node key origin s)
    (hStep : Step cfg s s') : Licensed cfg node key origin s' := by
  have hEvolves := hStep.evolves hBase
  cases origin with
  | message => exact hEvolves.messaged _ hLicensed
  | background seen readAt => exact ⟨Nat.le_trans hLicensed.1 hEvolves.now, hLicensed.2⟩

end Ownership
end OctoForge
