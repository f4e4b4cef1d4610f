import OctoForge.Ownership.Manager

/-!
# What a step of the cluster can do

`Step` lists the atomic steps of the managers, each with what its coroutine
knows when it takes it, and `Base` is the bookkeeping every step keeps.  That
the coroutines only ever take such steps is shown in `Ownership.Protocol`; the
properties of whole runs are then proved over `Step` alone.
-/

namespace OctoForge
namespace Ownership

open Coop Cluster

/-- What entitles a build to claim the dialog: its message has arrived, or the
freshness lookup found nobody else holding the dialog. -/
def Licensed (cfg : ManagerConfig) (node : NodeId) (key : Key) : Origin → Cluster → Prop
  | .message, s => s.messaged (cfg.dialogOf key) = true
  | .background seen readAt, s =>
      readAt ≤ s.now ∧ ∀ row, seen = some row →
        row.owner = cfg.owner node ∨ row.heartbeatAt + cfg.staleAfter < readAt

/-- The build has no runner that lives or is registered, and never will. -/
def Over (s : Cluster) (b : BuildId) : Prop :=
  s.gone b = true ∧ (s.runner b = none → s.cancelRequested b = true ∨ s.buildDone b = true)

/-- All builds that had begun when the eviction was called are over. -/
def AllOver (s : Cluster) (e : Eviction) : Prop :=
  ∀ b x, b < e.bound → s.build b = some x → x.node = e.node → x.key = e.key → Over s b

/-- What an eviction knows once it has nothing left to wait for. -/
def EvictKnows (e : Eviction) (s : Cluster) : Prop :=
  e.bound ≤ s.nextBuild ∧ (e.clean = true → s.lateStarts = [] → AllOver s e)

/-- One atomic step of the cluster. -/
inductive Step (cfg : ManagerConfig) (s : Cluster) : Cluster → Prop
  | idle : Step cfg s s
  | message (dialogId : DialogId) :
      Step cfg s { s with messaged := Function.update s.messaged dialogId true }
  | openBuild (node : NodeId) (key : Key) (origin : Origin)
      (hLicensed : Licensed cfg node key origin s) : Step cfg s (openBuild node key origin s).2
  | awaitBuild (node : NodeId) (key : Key) (b : BuildId) (hDone : s.buildDone b = true) :
      Step cfg s (awaitBuild node key b s).2
  | drop (b : BuildId) : Step cfg s (dropRegistered b s)
  | stopBegin (b : BuildId) : Step cfg s (stopBegin b s).2
  | standDownBegin (b : BuildId) : Step cfg s (standDownBegin b s).2
  | buildClaim (b : BuildId) (hStage : s.stage b = some .created) :
      Step cfg s (buildClaim cfg b s).2
  | buildRegister (b : BuildId) (c : DialogClaim) (hStage : s.stage b = some (.claimed c)) :
      Step cfg s (buildRegister b c s).2
  | cancelled (b : BuildId) (hStage : s.stage b = some .recovering) :
      Step cfg s (s.setStage b .failed)
  | restartAdmit (b : BuildId) (task : TaskId) : Step cfg s (restartAdmit cfg b task s).2
  | restartStart (b : BuildId) (task : TaskId) (hStage : s.stage b = some .recovering) :
      Step cfg s (restartStart cfg b task s)
  | finish (b : BuildId) (hStage : s.stage b = some .recovering)
      (hCancel : s.cancelRequested b = false) : Step cfg s (finishBuild b s)
  | startNewTask (b : BuildId) : Step cfg s (startNewTask cfg b s)
  | beat (held : List DialogClaim) : Step cfg s (beat held s).2
  | evictCall (node : NodeId) (key : Key) : Step cfg s (evictCall node key s).2
  | evictAwaited (e : Eviction) (b : BuildId) (hUnfinished : s.finishedBuild b = false)
      (hKnows : EvictKnows e s) : Step cfg s (evictAwaited e b s).2
  | evictEnd (e : Eviction) (b : BuildId) (hKnows : EvictKnows e s) :
      Step cfg s (evictReturn e (releaseClaim b s))
  | event (event : ClusterEvent) : Step cfg s (clusterEvent cfg event s)

/-! ## The outcomes of the steps -/

section Outcomes

variable (s : Cluster)

theorem openBuild_cases (node : NodeId) (key : Key) (origin : Origin) :
    (openBuild node key origin s).2 = s ∨ s.builds node key = none ∧
      (openBuild node key origin s).2 =
        { s with
          builds := set2 s.builds node key (some s.nextBuild)
          build := Function.update s.build s.nextBuild
            (some { node := node, key := key, origin := origin })
          nextBuild := s.nextBuild + 1 } := by
  unfold openBuild
  split
  · exact .inl rfl
  · rename_i hMemo
    exact .inr ⟨hMemo, rfl⟩

theorem awaitBuild_cases (node : NodeId) (key : Key) (b : BuildId) :
    (awaitBuild node key b s).2 = s ∨ s.builds node key = some b ∧
      (awaitBuild node key b s).2 = { s with builds := set2 s.builds node key none } := by
  unfold awaitBuild
  split
  · exact .inl rfl
  · split
    · rename_i hMemo
      exact .inr ⟨hMemo, rfl⟩
    · exact .inl rfl

theorem dropRegistered_cases (b : BuildId) :
    dropRegistered b s = s ∨ ∃ x r, s.build b = some x ∧ s.runner b = some r ∧
      dropRegistered b s =
        { s.updateRunner b fun r => { r with dropped := true } with
          builds := fun node key =>
            if node = x.node ∧ s.builds node key = some b ∧ x.stage = .finished then none
            else s.builds node key
          runners := set2 s.runners x.node r.claim.dialogId none
          pops := { runner := b, found := s.runners x.node r.claim.dialogId } :: s.pops } := by
  unfold dropRegistered
  split
  · rename_i x r hBuild hRunner
    exact .inr ⟨x, r, hBuild, hRunner, rfl⟩
  · exact .inl rfl

theorem standDownBegin_cases (b : BuildId) :
    (standDownBegin b s).2 = s ∨
      (standDownBegin b s).2 =
        s.updateRunner b fun r => { r with stoodDown := true, stopping := true } := by
  unfold standDownBegin
  split
  · exact .inl rfl
  · exact .inr rfl

/-- A build that was cancelled, or that the database does not answer, fails where it is. -/
theorem buildClaim_cases (cfg : ManagerConfig) {b : BuildId} {x : Build}
    (hBuild : s.build b = some x) :
    (buildClaim cfg b s).2 = s.setStage b .failed ∨ x.cancelRequested = false ∧
      (buildClaim cfg b s).2 =
        { s.updateBuild b fun build =>
            { build with
              stage := .claimed (claim s.claims (cfg.dialogOf x.key) (cfg.owner x.node) s.now).1
              lapses := s.lapses (cfg.dialogOf x.key) } with
          claims := (claim s.claims (cfg.dialogOf x.key) (cfg.owner x.node) s.now).2
          takeovers :=
            { owner := cfg.owner x.node, dialogId := cfg.dialogOf x.key, origin := x.origin,
              replaced := s.claims (cfg.dialogOf x.key), claimedAt := s.now,
              lapses := s.lapses (cfg.dialogOf x.key) } :: s.takeovers } := by
  simp only [buildClaim, hBuild]
  split
  · exact .inl rfl
  · rename_i hGo
    simp only [Bool.or_eq_true, not_or, Bool.not_eq_true] at hGo
    exact .inr ⟨hGo.1, rfl⟩

theorem buildRegister_cases (c : DialogClaim) {b : BuildId} {x : Build}
    (hBuild : s.build b = some x) :
    (buildRegister b c s).2 = s.setStage b .failed ∨ x.cancelRequested = false ∧
      (buildRegister b c s).2 =
        { s.setStage b .recovering with
          runner := Function.update s.runner b (some { claim := c })
          runners := set2 s.runners x.node c.dialogId (some b) } := by
  simp only [buildRegister, hBuild]
  split
  · exact .inl rfl
  · rename_i hGo
    simp only [Bool.or_eq_true, not_or, Bool.not_eq_true] at hGo
    exact .inr ⟨hGo.1, rfl⟩

theorem restartAdmit_cases (cfg : ManagerConfig) (b : BuildId) (task : TaskId) :
    (restartAdmit cfg b task s).2 = s ∨
      (restartAdmit cfg b task s).2 =
        { s with openTasks := s.openTasks.filter fun row => row.2 ≠ task } := by
  unfold restartAdmit
  split
  · exact .inl rfl
  · split
    · exact .inl rfl
    · exact .inr rfl

theorem restartStart_cases (cfg : ManagerConfig) (b : BuildId) (task : TaskId) :
    restartStart cfg b task s = s ∨ ∃ x, s.build b = some x ∧
      restartStart cfg b task s =
        { startProcess b task s with
          restarts :=
            { owner := cfg.owner x.node, dialogId := cfg.dialogOf x.key, task := task,
              lapses := x.lapses } :: s.restarts } := by
  unfold restartStart
  split
  · exact .inl rfl
  · rename_i x hBuild
    exact .inr ⟨x, hBuild, rfl⟩

theorem startNewTask_cases (cfg : ManagerConfig) (b : BuildId) :
    startNewTask cfg b s = s ∨ ∃ x, s.build b = some x ∧
      startNewTask cfg b s =
        { startProcess b s.nextTask s with
          openTasks := s.openTasks ++ [(cfg.dialogOf x.key, s.nextTask)]
          nextTask := s.nextTask + 1 } := by
  unfold startNewTask
  split
  · exact .inl rfl
  · rename_i x hBuild
    exact .inr ⟨x, hBuild, rfl⟩

theorem beat_cases (held : List DialogClaim) :
    (beat held s).2 = s ∨
      (beat held s).2 = { s with claims := (heartbeat s.claims held s.now).2 } := by
  unfold beat
  split
  · exact .inl rfl
  · exact .inr rfl

theorem releaseClaim_cases (b : BuildId) :
    releaseClaim b s = s ∨ ∃ claims : ClaimTable,
      releaseClaim b s =
        { s with
          claims := claims
          lapses := fun dialogId =>
            s.lapses dialogId + if claims dialogId = s.claims dialogId then 0 else 1 } := by
  unfold releaseClaim
  split
  · exact .inl rfl
  · split
    · exact .inl rfl
    · exact .inr ⟨_, rfl⟩

/-- Awaiting a build either deregisters its runner or finds that it has none. -/
theorem evictAwaited_cases (e : Eviction) (b : BuildId) :
    (evictAwaited e b s).2 = s ∨
      (∃ r, s.runner b = some r ∧
        (evictAwaited e b s).2 =
          { s with runners := set2 s.runners e.node r.claim.dialogId none }) ∨
      evictAwaited e b s = (false, evictReturn e s) := by
  unfold evictAwaited
  split
  · split
    · exact .inl rfl
    · rename_i r hRunner
      exact .inr (.inl ⟨r, hRunner, rfl⟩)
  · exact .inr (.inr rfl)

/-- The memo of the key goes in any case; a build that has not ended is cancelled with it. -/
theorem evictCall_cases (node : NodeId) (key : Key) :
    s.builds node key = none ∧
        evictCall node key s = (.returned, evictReturn (s.evictionAt node key) s) ∨
      (∃ b awaited, s.builds node key = some b ∧ s.buildDone b = true ∧
        evictAwaited (s.evictionAt node key) b { s with builds := set2 s.builds node key none } =
          awaited ∧
        evictCall node key s =
          (if awaited.1 then .stopping (s.evictionAt node key) b else .returned, awaited.2)) ∨
      ∃ b, s.builds node key = some b ∧ s.buildDone b = false ∧
        evictCall node key s =
          (.awaiting (s.evictionAt node key) b,
            ({ s with builds := set2 s.builds node key none } : Cluster).updateBuild b
              fun build => { build with cancelRequested := true }) := by
  cases hMemo : s.builds node key with
  | none => exact .inl ⟨rfl, by simp only [evictCall, hMemo]⟩
  | some b =>
      cases hDone : s.buildDone b with
      | true => exact .inr (.inl ⟨b, _, rfl, hDone, rfl, by simp [evictCall, hMemo, hDone]⟩)
      | false => exact .inr (.inr ⟨b, rfl, hDone, by simp [evictCall, hMemo, hDone]⟩)

end Outcomes

/-! ## Bookkeeping -/

/-- The build task has not ended. -/
def Stage.running : Stage → Bool
  | .created | .claimed _ | .recovering => true
  | .finished | .failed => false

/-- The build task may have made its runner. -/
def Stage.started : Stage → Bool
  | .recovering | .finished | .failed => true
  | .created | .claimed _ => false

structure Base (cfg : ManagerConfig) (s : Cluster) : Prop where
  memo : ∀ node key b, s.builds node key = some b →
    ∃ x, s.build b = some x ∧ x.node = node ∧ x.key = key
  bound : ∀ b x, s.build b = some x → b < s.nextBuild
  running : ∀ b x, s.build b = some x → x.cancelRequested = false → x.stage.running = true →
    s.builds x.node x.key = some b
  runner : ∀ b r, s.runner b = some r →
    ∃ x, s.build b = some x ∧ x.stage.started = true ∧ r.claim.dialogId = cfg.dialogOf x.key
  recovered : ∀ b x, s.build b = some x → x.stage = .recovering ∨ x.stage = .finished →
    ∃ r, s.runner b = some r
  claimed : ∀ b x c, s.build b = some x → x.stage = .claimed c →
    c.dialogId = cfg.dialogOf x.key

namespace Base

variable {cfg : ManagerConfig} {s s' : Cluster}

/-- The bookkeeping reads the two heaps and the memo, nothing else. -/
theorem of_core (hBase : Base cfg s) (hBuilds : s'.builds = s.builds)
    (hBuild : s'.build = s.build) (hRunner : s'.runner = s.runner)
    (hNext : s'.nextBuild = s.nextBuild) : Base cfg s' where
  memo := by rw [hBuilds, hBuild]; exact hBase.memo
  bound := by rw [hBuild, hNext]; exact hBase.bound
  running := by rw [hBuilds, hBuild]; exact hBase.running
  runner := by rw [hRunner, hBuild]; exact hBase.runner
  recovered := by rw [hRunner, hBuild]; exact hBase.recovered
  claimed := by rw [hBuild]; exact hBase.claimed

theorem updateRunner (hBase : Base cfg s) (b : BuildId) {f : Runner → Runner}
    (hClaim : ∀ r, (f r).claim = r.claim) : Base cfg (s.updateRunner b f) where
  memo := hBase.memo
  bound := hBase.bound
  running := hBase.running
  runner := by
    intro b' r' hRunner'
    by_cases hSame : b' = b
    · subst hSame
      simp only [updateRunner_runner_self, Option.map_eq_some_iff] at hRunner'
      obtain ⟨r, hRunner, rfl⟩ := hRunner'
      rw [hClaim]
      exact hBase.runner b' r hRunner
    · rw [updateRunner_runner_of_ne s f hSame] at hRunner'
      exact hBase.runner b' r' hRunner'
  recovered := by
    intro b' x hBuild hStage
    obtain ⟨r, hRunner⟩ := hBase.recovered b' x hBuild hStage
    by_cases hSame : b' = b
    · subst hSame
      exact ⟨f r, by simp [hRunner]⟩
    · exact ⟨r, (updateRunner_runner_of_ne s f hSame).trans hRunner⟩
  claimed := hBase.claimed

/-- A build task moves on: it stays where it is, and what it becomes is in
order. -/
theorem updateBuild (hBase : Base cfg s) {b : BuildId} {x : Build} {f : Build → Build}
    (hBuild : s.build b = some x) (hNode : (f x).node = x.node) (hKey : (f x).key = x.key)
    (hRunning : (f x).cancelRequested = false → (f x).stage.running = true →
      x.cancelRequested = false ∧ x.stage.running = true)
    (hStarted : x.stage.started = true → (f x).stage.started = true)
    (hRecovered : (f x).stage = .recovering ∨ (f x).stage = .finished → ∃ r, s.runner b = some r)
    (hClaimed : ∀ c, (f x).stage = .claimed c → c.dialogId = cfg.dialogOf x.key) :
    Base cfg (s.updateBuild b f) := by
  have hSelf : (s.updateBuild b f).build b = some (f x) := by
    simp [hBuild]
  have hOther : ∀ b', b' ≠ b → (s.updateBuild b f).build b' = s.build b' :=
    fun _ hNe => updateBuild_build_of_ne s f hNe
  -- every other build is where it was
  refine ⟨?_, ?_, ?_, ?_, ?_, ?_⟩
  · intro node key b' hMemo
    obtain ⟨y, hBuild', hPlace⟩ := hBase.memo node key b' hMemo
    by_cases hSame : b' = b
    · subst hSame
      obtain rfl : x = y := Option.some.inj (hBuild.symm.trans hBuild')
      exact ⟨f x, hSelf, by rw [hNode, hKey]; exact hPlace⟩
    · exact ⟨y, by rw [hOther b' hSame]; exact hBuild', hPlace⟩
  · intro b' y hBuild'
    by_cases hSame : b' = b
    · subst hSame
      exact hBase.bound b' x hBuild
    · rw [hOther b' hSame] at hBuild'
      exact hBase.bound b' y hBuild'
  · intro b' y hBuild' hCancel hRun
    by_cases hSame : b' = b
    · subst hSame
      obtain rfl : f x = y := Option.some.inj (hSelf.symm.trans hBuild')
      obtain ⟨hCancel', hRun'⟩ := hRunning hCancel hRun
      rw [hNode, hKey]
      exact hBase.running b' x hBuild hCancel' hRun'
    · rw [hOther b' hSame] at hBuild'
      exact hBase.running b' y hBuild' hCancel hRun
  · intro b' r hRunner
    obtain ⟨y, hBuild', hStage, hDialog⟩ := hBase.runner b' r hRunner
    by_cases hSame : b' = b
    · subst hSame
      obtain rfl : x = y := Option.some.inj (hBuild.symm.trans hBuild')
      exact ⟨f x, hSelf, hStarted hStage, by rw [hKey]; exact hDialog⟩
    · exact ⟨y, by rw [hOther b' hSame]; exact hBuild', hStage, hDialog⟩
  · intro b' y hBuild' hStage
    by_cases hSame : b' = b
    · subst hSame
      obtain rfl : f x = y := Option.some.inj (hSelf.symm.trans hBuild')
      exact hRecovered hStage
    · rw [hOther b' hSame] at hBuild'
      exact hBase.recovered b' y hBuild' hStage
  · intro b' y c hBuild' hStage
    by_cases hSame : b' = b
    · subst hSame
      obtain rfl : f x = y := Option.some.inj (hSelf.symm.trans hBuild')
      rw [hKey]
      exact hClaimed c hStage
    · rw [hOther b' hSame] at hBuild'
      exact hBase.claimed b' y c hBuild' hStage

/-- Entries of the memo may go, as long as no build that still runs loses its
own. -/
theorem forget (hBase : Base cfg s) {builds : NodeId → Key → Option BuildId}
    (hSub : ∀ node key b, builds node key = some b → s.builds node key = some b)
    (hKeep : ∀ b x, s.build b = some x → x.cancelRequested = false → x.stage.running = true →
      builds x.node x.key = some b) : Base cfg { s with builds := builds } where
  memo := fun node key b hMemo => hBase.memo node key b (hSub node key b hMemo)
  bound := hBase.bound
  running := hKeep
  runner := hBase.runner
  recovered := hBase.recovered
  claimed := hBase.claimed

end Base

theorem stage_eq_some {s : Cluster} {b : BuildId} {stage : Stage}
    (hStage : s.stage b = some stage) : ∃ x, s.build b = some x ∧ x.stage = stage :=
  Option.map_eq_some_iff.mp hStage

theorem buildDone_iff {s : Cluster} {b : BuildId} {x : Build} (hBuild : s.build b = some x) :
    s.buildDone b = true ↔ x.stage.running = false := by
  cases hStage : x.stage <;>
    simp [buildDone, Cluster.stage, hBuild, hStage, Stage.running]

theorem cancelRequested_eq {s : Cluster} {b : BuildId} {x : Build} (hBuild : s.build b = some x) :
    s.cancelRequested b = x.cancelRequested := by
  simp [Cluster.cancelRequested, hBuild]

theorem Base.place_of_memo {cfg : ManagerConfig} {s : Cluster} (hBase : Base cfg s) {node : NodeId}
    {key : Key} {b : BuildId} {x : Build} (hMemo : s.builds node key = some b)
    (hBuild : s.build b = some x) : x.node = node ∧ x.key = key := by
  obtain ⟨y, hBuild', hPlace⟩ := hBase.memo node key b hMemo
  obtain rfl : x = y := Option.some.inj (hBuild.symm.trans hBuild')
  exact hPlace

theorem Base.dialog_of_memo {cfg : ManagerConfig} {s : Cluster} (hBase : Base cfg s) {node : NodeId}
    {key : Key} {b : BuildId} {r : Runner} (hMemo : s.builds node key = some b)
    (hRunner : s.runner b = some r) : r.claim.dialogId = cfg.dialogOf key := by
  obtain ⟨x, hBuild, -, hDialog⟩ := hBase.runner b r hRunner
  rw [hDialog, (hBase.place_of_memo hMemo hBuild).2]

/-- Removing the entry of one key from the memo, when its build is done or has
been cancelled. -/
theorem Base.forgetKey {cfg : ManagerConfig} {s : Cluster} (hBase : Base cfg s) {node : NodeId}
    {key : Key} {b : BuildId} {x : Build} (hMemo : s.builds node key = some b)
    (hBuild : s.build b = some x)
    (hEnded : x.cancelRequested = true ∨ x.stage.running = false) :
    Base cfg { s with builds := set2 s.builds node key none } := by
  apply hBase.forget
  · intro node' key' b' hMemo'
    simp only [set2] at hMemo'
    split at hMemo'
    · exact absurd hMemo' (by simp)
    · exact hMemo'
  · intro b' y hBuild' hCancel hRun
    have hOwn := hBase.running b' y hBuild' hCancel hRun
    simp only [set2]
    split
    · rename_i hSame
      rw [hSame.1, hSame.2, hMemo] at hOwn
      obtain rfl := Option.some.inj hOwn
      obtain rfl : x = y := Option.some.inj (hBuild.symm.trans hBuild')
      rcases hEnded with hEnded | hEnded
      · rw [hCancel] at hEnded; exact absurd hEnded (by simp)
      · rw [hRun] at hEnded; exact absurd hEnded (by simp)
    · exact hOwn

section BaseSteps

variable {cfg : ManagerConfig} {s : Cluster}

theorem Base.openBuild (hBase : Base cfg s) (node : NodeId) (key : Key) (origin : Origin) :
    Base cfg (Cluster.openBuild node key origin s).2 := by
  cases hMemo : s.builds node key with
  | some b => simpa only [Cluster.openBuild, hMemo] using hBase
  | none =>
      have hFresh : ∀ b x, s.build b = some x → b ≠ s.nextBuild := by
        intro b x hBuild
        exact Nat.ne_of_lt (hBase.bound b x hBuild)
      simp only [Cluster.openBuild, hMemo]
      -- the new build is the one of the highest number, and nobody has named it yet
      refine ⟨?_, ?_, ?_, ?_, ?_, ?_⟩
      · intro node' key' b hMemo'
        simp only [set2] at hMemo'
        split at hMemo'
        · rename_i hSame
          obtain rfl := Option.some.inj hMemo'
          exact ⟨_, Function.update_self .., hSame.1.symm, hSame.2.symm⟩
        · obtain ⟨x, hBuild, hPlace⟩ := hBase.memo node' key' b hMemo'
          exact ⟨x, by simpa [Function.update_of_ne (hFresh b x hBuild)] using hBuild, hPlace⟩
      · intro b x hBuild
        by_cases hNew : b = s.nextBuild
        · exact Nat.lt_succ_of_le (Nat.le_of_eq hNew)
        · simp only [Function.update_of_ne hNew] at hBuild
          exact Nat.lt_succ_of_lt (hBase.bound b x hBuild)
      · intro b x hBuild hCancel hRun
        by_cases hNew : b = s.nextBuild
        · subst hNew
          simp only [Function.update_self, Option.some.injEq] at hBuild
          subst hBuild
          simp [set2]
        · simp only [Function.update_of_ne hNew] at hBuild
          have hOwn := hBase.running b x hBuild hCancel hRun
          simp only [set2]
          split
          · rename_i hSame
            rw [hSame.1, hSame.2, hMemo] at hOwn
            exact absurd hOwn (by simp)
          · exact hOwn
      · intro b r hRunner
        obtain ⟨x, hBuild, hRest⟩ := hBase.runner b r hRunner
        exact ⟨x, by simpa [Function.update_of_ne (hFresh b x hBuild)] using hBuild, hRest⟩
      · intro b x hBuild hStage
        by_cases hNew : b = s.nextBuild
        · subst hNew
          simp only [Function.update_self, Option.some.injEq] at hBuild
          subst hBuild
          simp at hStage
        · simp only [Function.update_of_ne hNew] at hBuild
          exact hBase.recovered b x hBuild hStage
      · intro b x c hBuild hStage
        by_cases hNew : b = s.nextBuild
        · subst hNew
          simp only [Function.update_self, Option.some.injEq] at hBuild
          subst hBuild
          simp at hStage
        · simp only [Function.update_of_ne hNew] at hBuild
          exact hBase.claimed b x c hBuild hStage

theorem Base.awaitBuild (hBase : Base cfg s) (node : NodeId) (key : Key) {b : BuildId}
    (hDone : s.buildDone b = true) : Base cfg (Cluster.awaitBuild node key b s).2 := by
  rcases awaitBuild_cases s node key b with hEq | ⟨hMemo, hEq⟩ <;> rw [hEq]
  · exact hBase
  · obtain ⟨x, hBuild, _⟩ := hBase.memo node key b hMemo
    exact hBase.forgetKey hMemo hBuild (Or.inr ((buildDone_iff hBuild).mp hDone))

theorem Base.dropRegistered (hBase : Base cfg s) (b : BuildId) :
    Base cfg (Cluster.dropRegistered b s) := by
  rcases dropRegistered_cases s b with hEq | ⟨x, r, hBuild, hRunner, hEq⟩ <;> rw [hEq]
  · exact hBase
  · have hUpdated : Base cfg (s.updateRunner b fun r => { r with dropped := true }) :=
      hBase.updateRunner b fun _ => rfl
    have hForgot : Base cfg
        { s.updateRunner b fun r => { r with dropped := true } with
          builds := fun node key =>
            if node = x.node ∧ s.builds node key = some b ∧ x.stage = .finished then none
            else s.builds node key } := hUpdated.forget ?_ ?_
    · exact hForgot.of_core rfl rfl rfl rfl
    · intro node key b' hMemo
      split at hMemo
      · exact absurd hMemo (by simp)
      · exact hMemo
    · intro b' y hBuild' hCancel hRun
      have hOwn := hBase.running b' y hBuild' hCancel hRun
      split
      · rename_i hDropped
        obtain ⟨_, hMemo, hFinished⟩ := hDropped
        obtain rfl := Option.some.inj (hOwn.symm.trans hMemo)
        obtain rfl : x = y := Option.some.inj (hBuild.symm.trans hBuild')
        rw [hFinished] at hRun
        exact absurd hRun (by simp [Stage.running])
      · exact hOwn

/-- The end of a build task that had its runner or never will. -/
theorem Base.setStage_failed (hBase : Base cfg s) (b : BuildId) :
    Base cfg (s.setStage b .failed) := by
  cases hBuild : s.build b with
  | none =>
      rw [setStage, updateBuild_of_none _ hBuild]
      exact hBase
  | some x =>
      apply hBase.updateBuild hBuild rfl rfl <;> simp [Stage.running, Stage.started]

theorem Base.buildClaim (hBase : Base cfg s) {b : BuildId} (hStage : s.stage b = some .created) :
    Base cfg (Cluster.buildClaim cfg b s).2 := by
  obtain ⟨x, hBuild, hCreated⟩ := stage_eq_some hStage
  rcases buildClaim_cases s cfg hBuild with hEq | ⟨hCancel, hEq⟩ <;> rw [hEq]
  · exact hBase.setStage_failed b
  · have hMoved : Base cfg (s.updateBuild b fun build =>
        { build with
          stage := .claimed (claim s.claims (cfg.dialogOf x.key) (cfg.owner x.node) s.now).1
          lapses := s.lapses (cfg.dialogOf x.key) }) := by
      apply hBase.updateBuild hBuild rfl rfl
      · intro _ _
        exact ⟨hCancel, by rw [hCreated]; rfl⟩
      · rw [hCreated]
        simp [Stage.started]
      · simp
      · intro c hClaimed
        simp only [Stage.claimed.injEq] at hClaimed
        rw [← hClaimed]
        rfl
    exact hMoved.of_core rfl rfl rfl rfl

theorem Base.buildRegister (hBase : Base cfg s) {b : BuildId} {c : DialogClaim}
    (hStage : s.stage b = some (.claimed c)) : Base cfg (Cluster.buildRegister b c s).2 := by
  obtain ⟨x, hBuild, hClaimed⟩ := stage_eq_some hStage
  rcases buildRegister_cases s c hBuild with hEq | ⟨hCancel, hEq⟩ <;> rw [hEq]
  · exact hBase.setStage_failed b
  · -- first the runner appears, then the build is past its registration
    have hSelf : (s.setStage b .recovering).build b =
        some { x with stage := .recovering } := by
      simp [setStage, hBuild]
    have hOther : ∀ b', b' ≠ b → (s.setStage b .recovering).build b' = s.build b' :=
      fun _ hNe => updateBuild_build_of_ne s _ hNe
    refine ⟨?_, ?_, ?_, ?_, ?_, ?_⟩
    · intro node key b' hMemo
      obtain ⟨y, hBuild', hPlace⟩ := hBase.memo node key b' hMemo
      by_cases hSame : b' = b
      · subst hSame
        obtain rfl : x = y := Option.some.inj (hBuild.symm.trans hBuild')
        exact ⟨_, hSelf, hPlace⟩
      · exact ⟨y, (hOther b' hSame).trans hBuild', hPlace⟩
    · intro b' y hBuild'
      by_cases hSame : b' = b
      · subst hSame
        exact hBase.bound b' x hBuild
      · exact hBase.bound b' y ((hOther b' hSame).symm.trans hBuild')
    · intro b' y hBuild' hCancel' hRun
      by_cases hSame : b' = b
      · subst hSame
        obtain rfl := Option.some.inj (hSelf.symm.trans hBuild')
        exact hBase.running b' x hBuild hCancel (by rw [hClaimed]; rfl)
      · exact hBase.running b' y ((hOther b' hSame).symm.trans hBuild') hCancel' hRun
    · intro b' r hRunner
      by_cases hSame : b' = b
      · subst hSame
        simp only [Function.update_self, Option.some.injEq] at hRunner
        subst hRunner
        exact ⟨_, hSelf, rfl, hBase.claimed b' x c hBuild hClaimed⟩
      · simp only [Function.update_of_ne hSame] at hRunner
        obtain ⟨y, hBuild', hRest⟩ := hBase.runner b' r hRunner
        exact ⟨y, (hOther b' hSame).trans hBuild', hRest⟩
    · intro b' y hBuild' hStage'
      by_cases hSame : b' = b
      · subst hSame
        exact ⟨_, Function.update_self ..⟩
      · obtain ⟨r, hRunner⟩ :=
          hBase.recovered b' y ((hOther b' hSame).symm.trans hBuild') hStage'
        exact ⟨r, by simpa [Function.update_of_ne hSame] using hRunner⟩
    · intro b' y c' hBuild' hStage'
      by_cases hSame : b' = b
      · subst hSame
        obtain rfl := Option.some.inj (hSelf.symm.trans hBuild')
        simp at hStage'
      · exact hBase.claimed b' y c' ((hOther b' hSame).symm.trans hBuild') hStage'

theorem Base.startProcess (hBase : Base cfg s) (b : BuildId) (task : TaskId) :
    Base cfg (Cluster.startProcess b task s) := by
  have hUpdated : Base cfg (s.updateRunner b fun r => { r with processes := task :: r.processes }) :=
    hBase.updateRunner b fun _ => rfl
  exact hUpdated.of_core rfl rfl rfl rfl

theorem Base.startNewTask (hBase : Base cfg s) (b : BuildId) :
    Base cfg (Cluster.startNewTask cfg b s) := by
  rcases startNewTask_cases s cfg b with hEq | ⟨_, -, hEq⟩ <;> rw [hEq]
  · exact hBase
  · exact (hBase.startProcess b s.nextTask).of_core rfl rfl rfl rfl

theorem Base.finishBuild (hBase : Base cfg s) {b : BuildId}
    (hStage : s.stage b = some .recovering) : Base cfg (Cluster.finishBuild b s) := by
  obtain ⟨x, hBuild, hRecovering⟩ := stage_eq_some hStage
  have hMoved : Base cfg (s.setStage b .finished) := by
    apply hBase.updateBuild hBuild rfl rfl
    · simp [Stage.running]
    · simp [Stage.started]
    · intro _
      exact hBase.recovered b x hBuild (Or.inl hRecovering)
    · simp
  exact hMoved.of_core rfl rfl rfl rfl

theorem Base.evictAwaited (hBase : Base cfg s) (e : Eviction) (b : BuildId) :
    Base cfg (Cluster.evictAwaited e b s).2 := by
  rcases evictAwaited_cases s e b with hEq | ⟨_, -, hEq⟩ | hEq <;> rw [hEq]
  · exact hBase
  · exact hBase.of_core rfl rfl rfl rfl
  · exact hBase.of_core rfl rfl rfl rfl

theorem Base.evictCall (hBase : Base cfg s) (node : NodeId) (key : Key) :
    Base cfg (Cluster.evictCall node key s).2 := by
  rcases evictCall_cases s node key with
    ⟨-, hEq⟩ | ⟨b, _, hMemo, hDone, rfl, hEq⟩ | ⟨b, hMemo, -, hEq⟩ <;> rw [hEq]
  · exact hBase.of_core rfl rfl rfl rfl
  · obtain ⟨x, hBuild, _⟩ := hBase.memo node key b hMemo
    have hRunning : x.stage.running = false := (buildDone_iff hBuild).mp hDone
    exact (hBase.forgetKey hMemo hBuild (Or.inr hRunning)).evictAwaited _ b
  · -- the cancellation comes first: the build that is forgotten is not a live one
    obtain ⟨x, hBuild, _⟩ := hBase.memo node key b hMemo
    have hCancelled : Base cfg (s.updateBuild b fun build =>
        { build with cancelRequested := true }) := by
      apply hBase.updateBuild hBuild rfl rfl
      · simp
      · exact id
      · exact fun hStage => hBase.recovered b x hBuild hStage
      · exact fun c hClaimed => hBase.claimed b x c hBuild hClaimed
    have hSelf : (s.updateBuild b fun build => { build with cancelRequested := true }).build b =
        some { x with cancelRequested := true } := by
      simp [hBuild]
    exact (hCancelled.forgetKey hMemo hSelf (Or.inl rfl)).of_core rfl rfl rfl rfl

theorem Base.releaseClaim (hBase : Base cfg s) (b : BuildId) :
    Base cfg (Cluster.releaseClaim b s) := by
  rcases releaseClaim_cases s b with hEq | ⟨_, hEq⟩ <;> rw [hEq]
  · exact hBase
  · exact hBase.of_core rfl rfl rfl rfl

theorem Base.event (hBase : Base cfg s) (event : ClusterEvent) :
    Base cfg (clusterEvent cfg event s) := by
  cases event with
  | processStarts b => exact hBase.startNewTask b
  | processEnds b task => exact hBase.updateRunner b fun _ => rfl
  | actorEnds b => exact hBase.updateRunner b fun _ => rfl
  | preempts b => exact hBase.updateRunner b fun _ => rfl
  | _ => exact hBase.of_core rfl rfl rfl rfl

/-- Every step keeps the bookkeeping. -/
theorem Base.step {s' : Cluster} (hBase : Base cfg s) (hStep : Step cfg s s') : Base cfg s' := by
  cases hStep with
  | idle => exact hBase
  | message dialogId => exact hBase.of_core rfl rfl rfl rfl
  | openBuild node key origin hLicensed => exact hBase.openBuild node key origin
  | awaitBuild node key b hDone => exact hBase.awaitBuild node key hDone
  | drop b => exact hBase.dropRegistered b
  | stopBegin b => exact hBase.updateRunner b fun _ => rfl
  | standDownBegin b =>
      rcases standDownBegin_cases s b with hEq | hEq <;> rw [hEq]
      · exact hBase
      · exact hBase.updateRunner b fun _ => rfl
  | buildClaim b hStage => exact hBase.buildClaim hStage
  | buildRegister b c hStage => exact hBase.buildRegister hStage
  | cancelled b hStage => exact hBase.setStage_failed b
  | restartAdmit b task =>
      rcases restartAdmit_cases s cfg b task with hEq | hEq <;> rw [hEq]
      · exact hBase
      · exact hBase.of_core rfl rfl rfl rfl
  | restartStart b task hStage =>
      rcases restartStart_cases s cfg b task with hEq | ⟨_, -, hEq⟩ <;> rw [hEq]
      · exact hBase
      · exact (hBase.startProcess b task).of_core rfl rfl rfl rfl
  | finish b hStage hCancel => exact hBase.finishBuild hStage
  | startNewTask b => exact hBase.startNewTask b
  | beat held =>
      rcases beat_cases s held with hEq | hEq <;> rw [hEq]
      · exact hBase
      · exact hBase.of_core rfl rfl rfl rfl
  | evictCall node key => exact hBase.evictCall node key
  | evictAwaited e b hUnfinished hKnows => exact hBase.evictAwaited e b
  | evictEnd e b hKnows => exact (hBase.releaseClaim b).of_core rfl rfl rfl rfl
  | event event => exact hBase.event event

theorem Base.fresh (hFresh : s.Fresh) : Base cfg s where
  memo := by simp [hFresh.builds]
  bound := by simp [hFresh.build]
  running := by simp [hFresh.build]
  runner := by simp [hFresh.runner]
  recovered := by simp [hFresh.build]
  claimed := by simp [hFresh.build]

end BaseSteps

end Ownership
end OctoForge
