import OctoForge.Ownership.Protocol

/-!
# The registry of runners

A manager keeps its build tasks by user and channel and its runners by dialog.
The heartbeat refreshes what it finds in the second map, so a runner that the
first map hands out and the second one does not know will lose its claim.

`_drop_preempted` removes the dialog's entry whoever it belongs to, and it does
so for a runner that was read some awaits ago.  In every run in which it never
meets a successor, and in which no build finishes between the moment its runner
is dropped and the moment that runner stands down, the two maps agree: every
finished build in the memo whose runner is not retired has it registered.
-/

namespace OctoForge
namespace Ownership

open Coop Cluster

/-- Whoever was dropped so far, the dialog's entry was its own or was gone. -/
def PopsOwn (s : Cluster) : Prop :=
  ∀ pop ∈ s.pops, pop.found = none ∨ pop.found = some pop.runner

/-- No build has finished with a runner that was dropped and had not stood
down. -/
def FinishesSettled (s : Cluster) : Prop :=
  ∀ f ∈ s.finishes, f.dropped = true → f.retired = true

/-- Every finished build in the memo whose runner is not retired has that very
runner registered under its dialog. -/
def RegistryAgrees (s : Cluster) : Prop :=
  ∀ node key b x r, s.builds node key = some b → s.build b = some x → x.stage = .finished →
    s.runner b = some r → r.retired = false → s.runners node r.claim.dialogId = some b

/-- A runner of the memo is registered until it is dropped, and once its build
is finished it is only dropped when it is retired. -/
structure Tracked (s : Cluster) (b : BuildId) (x : Build) (r : Runner) : Prop where
  registered : r.dropped = false → s.runners x.node r.claim.dialogId = some b
  retired : x.stage = .finished → r.dropped = true → r.retired = true

def RegistryInv (s : Cluster) : Prop :=
  PopsOwn s → FinishesSettled s → ∀ node key b x r, s.builds node key = some b →
    s.build b = some x → s.runner b = some r → Tracked s b x r

section Steps

variable {cfg : ManagerConfig} {s s' : Cluster}

/-- Two builds of the memo never share a registry entry: a dialog has one key. -/
theorem memo_unique {node node' : NodeId} {key key' : Key} {b b' : BuildId}
    (hMemo : s.builds node key = some b) (hMemo' : s.builds node' key' = some b')
    (hNode : node' = node) (hDialog : cfg.dialogOf key' = cfg.dialogOf key) : b' = b := by
  have hKey : key' = key := by
    rw [← cfg.keyOf_dialogOf key', hDialog, cfg.keyOf_dialogOf]
  rw [hNode, hKey, hMemo] at hMemo'
  exact (Option.some.inj hMemo').symm

theorem RegistryInv.of_core (hInv : RegistryInv s) (hBuilds : s'.builds = s.builds)
    (hBuild : s'.build = s.build) (hRunner : s'.runner = s.runner)
    (hRunners : s'.runners = s.runners) (hPops : s'.pops = s.pops)
    (hFinishes : s'.finishes = s.finishes) : RegistryInv s' := by
  intro hOwn hSettled node key b x r hMemo hB hR
  rw [PopsOwn, hPops] at hOwn
  rw [FinishesSettled, hFinishes] at hSettled
  rw [hBuilds] at hMemo
  rw [hBuild] at hB
  rw [hRunner] at hR
  obtain ⟨hRegistered, hRetired⟩ := hInv hOwn hSettled node key b x r hMemo hB hR
  exact ⟨by rw [hRunners]; exact hRegistered, hRetired⟩

theorem RegistryInv.updateRunner (hInv : RegistryInv s) (b : BuildId) {f : Runner → Runner}
    (hClaim : ∀ r, (f r).claim = r.claim) (hDropped : ∀ r, (f r).dropped = r.dropped)
    (hRetired : ∀ r, r.retired = true → (f r).retired = true) :
    RegistryInv (s.updateRunner b f) := by
  intro hOwn hSettled node key b' x r' hMemo hBuild hRunner'
  by_cases hSame : b' = b
  · subst hSame
    simp only [updateRunner_runner_self, Option.map_eq_some_iff] at hRunner'
    obtain ⟨r, hRunner, rfl⟩ := hRunner'
    obtain ⟨hOld, hOldRetired⟩ := hInv hOwn hSettled node key b' x r hMemo hBuild hRunner
    refine ⟨?_, ?_⟩
    · rw [hDropped, hClaim]
      exact hOld
    · rw [hDropped]
      exact fun hStage hDrop => hRetired r (hOldRetired hStage hDrop)
  · rw [updateRunner_runner_of_ne s f hSame] at hRunner'
    obtain ⟨hOld, hOldRetired⟩ := hInv hOwn hSettled node key b' x r' hMemo hBuild hRunner'
    exact ⟨hOld, hOldRetired⟩

/-- A build task moves on without finishing. -/
theorem RegistryInv.updateBuild (hInv : RegistryInv s) (b : BuildId) {f : Build → Build}
    (hNode : ∀ x, (f x).node = x.node)
    (hStage : ∀ x, (f x).stage = .finished → x.stage = .finished) :
    RegistryInv (s.updateBuild b f) := by
  intro hOwn hSettled node key b' y r hMemo hBuild' hRunner
  by_cases hSame : b' = b
  · subst hSame
    simp only [updateBuild_build_self, Option.map_eq_some_iff] at hBuild'
    obtain ⟨x, hBuild, rfl⟩ := hBuild'
    obtain ⟨hOld, hOldRetired⟩ := hInv hOwn hSettled node key b' x r hMemo hBuild hRunner
    refine ⟨?_, fun hFinished => hOldRetired (hStage x hFinished)⟩
    rw [hNode]
    exact hOld
  · rw [updateBuild_build_of_ne s f hSame] at hBuild'
    obtain ⟨hOld, hOldRetired⟩ := hInv hOwn hSettled node key b' y r hMemo hBuild' hRunner
    exact ⟨hOld, hOldRetired⟩

theorem RegistryInv.forget (hInv : RegistryInv s) {builds : NodeId → Key → Option BuildId}
    (hSub : ∀ node key b, builds node key = some b → s.builds node key = some b) :
    RegistryInv { s with builds := builds } := by
  intro hOwn hSettled node key b x r hMemo hBuild hRunner
  obtain ⟨hOld, hOldRetired⟩ :=
    hInv hOwn hSettled node key b x r (hSub node key b hMemo) hBuild hRunner
  exact ⟨hOld, hOldRetired⟩

theorem RegistryInv.startProcess (hInv : RegistryInv s) (b : BuildId) (task : TaskId) :
    RegistryInv (Cluster.startProcess b task s) := by
  have hUpdated : RegistryInv
      (s.updateRunner b fun r => { r with processes := task :: r.processes }) :=
    hInv.updateRunner b (fun _ => rfl) (fun _ => rfl) (fun _ => id)
  exact hUpdated.of_core rfl rfl rfl rfl rfl rfl

theorem RegistryInv.startNewTask (hInv : RegistryInv s) (b : BuildId) :
    RegistryInv (Cluster.startNewTask cfg b s) := by
  rcases startNewTask_cases s cfg b with hEq | ⟨_, -, hEq⟩ <;> rw [hEq]
  · exact hInv
  · exact (hInv.startProcess b s.nextTask).of_core rfl rfl rfl rfl rfl rfl

theorem RegistryInv.openBuild (hBase : Base cfg s) (hInv : RegistryInv s) (node : NodeId)
    (key : Key) (origin : Origin) : RegistryInv (Cluster.openBuild node key origin s).2 := by
  rcases openBuild_cases s node key origin with hEq | ⟨-, hEq⟩ <;> rw [hEq]
  · exact hInv
  · intro hOwn hSettled node' key' b x r hMemo hBuild hRunner
    have hOld : b ≠ s.nextBuild := by
      obtain ⟨y, hBuild', _⟩ := hBase.runner b r hRunner
      exact Nat.ne_of_lt (hBase.bound b y hBuild')
    simp only [Function.update_of_ne hOld] at hBuild
    have hMemoOld : s.builds node' key' = some b := by
      simp only [set2] at hMemo
      split at hMemo
      · exact absurd (Option.some.inj hMemo).symm hOld
      · exact hMemo
    obtain ⟨hRegistered, hRetired⟩ := hInv hOwn hSettled node' key' b x r hMemoOld hBuild hRunner
    exact ⟨hRegistered, hRetired⟩

/-- Dropping a runner leaves the others registered, because the entry it removes
was its own. -/
theorem RegistryInv.dropRegistered (hBase : Base cfg s) (hInv : RegistryInv s) (b : BuildId) :
    RegistryInv (Cluster.dropRegistered b s) := by
  rcases dropRegistered_cases s b with hEq | ⟨x, r, hBuild, hRunner, hEq⟩ <;> rw [hEq]
  · exact hInv
  · intro hOwn hSettled node key b' y r' hMemo hBuild' hRunner'
    -- The entry that is removed was empty or the runner's own.
    have hFound : s.runners x.node r.claim.dialogId = none ∨
        s.runners x.node r.claim.dialogId = some b := hOwn _ List.mem_cons_self
    have hOwnOld : PopsOwn s := fun pop hMem => hOwn pop (List.mem_cons_of_mem _ hMem)
    simp only at hMemo
    split at hMemo
    · exact absurd hMemo (by simp)
    rename_i hKept
    by_cases hSame : b' = b
    · subst hSame
      obtain rfl : x = y := Option.some.inj (hBuild.symm.trans hBuild')
      have hNode : x.node = node := (hBase.place_of_memo hMemo hBuild).1
      simp only [updateRunner_runner_self, hRunner, Option.map_some, Option.some.injEq] at hRunner'
      subst hRunner'
      refine ⟨by simp, ?_⟩
      intro hFinished _
      exact absurd ⟨hNode.symm, hMemo, hFinished⟩ hKept
    · simp only [updateRunner_runner_of_ne s _ hSame] at hRunner'
      obtain ⟨hRegistered, hRetired⟩ := hInv hOwnOld hSettled node key b' y r' hMemo hBuild' hRunner'
      refine ⟨?_, hRetired⟩
      intro hDropped
      have hStill := hRegistered hDropped
      simp only [set2]
      split
      · rename_i hSlot
        rw [hSlot.1, hSlot.2] at hStill
        rw [hStill] at hFound
        rcases hFound with hFound | hFound
        · exact absurd hFound (by simp)
        · exact absurd (Option.some.inj hFound) hSame
      · exact hStill

theorem RegistryInv.buildRegister (hBase : Base cfg s) (hInv : RegistryInv s) {b : BuildId}
    {c : DialogClaim} (hStage : s.stage b = some (.claimed c)) :
    RegistryInv (Cluster.buildRegister b c s).2 := by
  obtain ⟨x, hBuild, hClaimed⟩ := stage_eq_some hStage
  rcases buildRegister_cases s c hBuild with hEq | ⟨hCancel, hEq⟩ <;> rw [hEq]
  · exact hInv.updateBuild b (fun _ => rfl) (by simp)
  · have hMemoB : s.builds x.node x.key = some b :=
      hBase.running b x hBuild hCancel (by rw [hClaimed]; rfl)
    have hDialog : c.dialogId = cfg.dialogOf x.key := hBase.claimed b x c hBuild hClaimed
    intro hOwn hSettled node key b' y r' hMemo hBuild' hRunner'
    by_cases hSame : b' = b
    · subst hSame
      simp only [setStage, updateBuild_build_self, hBuild, Option.map_some,
        Option.some.injEq] at hBuild'
      simp only [Function.update_self, Option.some.injEq] at hRunner'
      subst hBuild' hRunner'
      exact ⟨by simp [set2], by simp⟩
    · simp only [setStage, updateBuild_build_of_ne s _ hSame] at hBuild'
      simp only [Function.update_of_ne hSame] at hRunner'
      obtain ⟨hRegistered, hRetired⟩ := hInv hOwn hSettled node key b' y r' hMemo hBuild' hRunner'
      refine ⟨?_, hRetired⟩
      intro hDropped
      simp only [set2]
      split
      · -- the other build would be the memo of the same key
        rename_i hSlot
        have hNode : node = x.node := (hBase.place_of_memo hMemo hBuild').1.symm.trans hSlot.1
        have hKeys : cfg.dialogOf key = cfg.dialogOf x.key := by
          rw [← hBase.dialog_of_memo hMemo hRunner', hSlot.2, hDialog]
        exact absurd (memo_unique hMemoB hMemo hNode hKeys) hSame
      · exact hRegistered hDropped

theorem RegistryInv.finishBuild (hInv : RegistryInv s) (b : BuildId) :
    RegistryInv (Cluster.finishBuild b s) := by
  intro hOwn hSettled node key b' y r hMemo hBuild' hRunner
  have hSettledOld : FinishesSettled s := fun f hMem => hSettled f (List.mem_cons_of_mem _ hMem)
  by_cases hSame : b' = b
  · subst hSame
    simp only [Cluster.finishBuild, setStage, updateBuild_build_self,
      Option.map_eq_some_iff] at hBuild'
    obtain ⟨x, hBuild, rfl⟩ := hBuild'
    have hRunner' : s.runner b' = some r := hRunner
    obtain ⟨hRegistered, _⟩ := hInv hOwn hSettledOld node key b' x r hMemo hBuild hRunner'
    refine ⟨hRegistered, ?_⟩
    intro _ hDropped
    have hHead := hSettled _ List.mem_cons_self
    simp only [hRunner', Option.any_some] at hHead
    exact hHead hDropped
  · simp only [Cluster.finishBuild, setStage, updateBuild_build_of_ne s _ hSame] at hBuild'
    obtain ⟨hRegistered, hRetired⟩ := hInv hOwn hSettledOld node key b' y r hMemo hBuild' hRunner
    exact ⟨hRegistered, hRetired⟩

theorem RegistryInv.evictCall (hBase : Base cfg s) (hInv : RegistryInv s) (node : NodeId)
    (key : Key) : RegistryInv (Cluster.evictCall node key s).2 := by
  have hForgot : RegistryInv { s with builds := set2 s.builds node key none } :=
    hInv.forget fun _ _ _ => set2_none_sub
  rcases evictCall_cases s node key with
    ⟨-, hEq⟩ | ⟨b, _, hMemo, -, rfl, hEq⟩ | ⟨b, -, -, hEq⟩ <;> rw [hEq]
  · exact hInv.of_core rfl rfl rfl rfl rfl rfl
  · rcases evictAwaited_cases { s with builds := set2 s.builds node key none }
      (s.evictionAt node key) b with hAwaited | ⟨r, hRunner, hAwaited⟩ | hAwaited <;> rw [hAwaited]
    · exact hForgot
    · intro hOwn hSettled node' key' b' y r' hMemo' hBuild' hRunner'
      obtain ⟨hRegistered, hRetired⟩ :=
        hForgot hOwn hSettled node' key' b' y r' hMemo' hBuild' hRunner'
      refine ⟨?_, hRetired⟩
      intro hDropped
      simp only [set2]
      split
      · -- only the evicted key itself uses this entry
        rename_i hSlot
        have hMemoOld : s.builds node' key' = some b' := set2_none_sub hMemo'
        have hSameKey : key' = key := by
          rw [← cfg.keyOf_dialogOf key', ← hBase.dialog_of_memo hMemoOld hRunner', hSlot.2,
            hBase.dialog_of_memo hMemo hRunner, cfg.keyOf_dialogOf]
        have hSameNode : node' = node :=
          (hBase.place_of_memo hMemoOld hBuild').1.symm.trans hSlot.1
        rw [hSameKey, hSameNode] at hMemo'
        simp [set2] at hMemo'
      · exact hRegistered hDropped
    · exact hForgot.of_core rfl rfl rfl rfl rfl rfl
  · exact hForgot.updateBuild b (fun _ => rfl) (fun _ => id)

theorem RegistryInv.step (hBase : Base cfg s) (hInv : RegistryInv s) (hStep : Step cfg s s') :
    RegistryInv s' := by
  cases hStep with
  | idle => exact hInv
  | message dialogId => exact hInv.of_core rfl rfl rfl rfl rfl rfl
  | openBuild node key origin hLicensed => exact hInv.openBuild hBase node key origin
  | awaitBuild node key b hDone =>
      rcases awaitBuild_cases s node key b with hEq | ⟨-, hEq⟩ <;> rw [hEq]
      · exact hInv
      · exact hInv.forget fun _ _ _ => set2_none_sub
  | drop b => exact hInv.dropRegistered hBase b
  | stopBegin b => exact hInv.updateRunner b (fun _ => rfl) (fun _ => rfl) (fun _ => id)
  | standDownBegin b =>
      rcases standDownBegin_cases s b with hEq | hEq <;> rw [hEq]
      · exact hInv
      · exact hInv.updateRunner b (fun _ => rfl) (fun _ => rfl) (by simp [Runner.retired])
  | buildClaim b hStage =>
      obtain ⟨x, hBuild, _⟩ := stage_eq_some hStage
      rcases buildClaim_cases s cfg hBuild with hEq | ⟨-, hEq⟩ <;> rw [hEq]
      · exact hInv.updateBuild b (fun _ => rfl) (by simp)
      -- Of what the invariant reads, a claim changes only the stage of its build.
      · have hMoved : RegistryInv (s.updateBuild b fun build =>
            { build with
              stage := .claimed (claim s.claims (cfg.dialogOf x.key) (cfg.owner x.node) s.now).1
              lapses := s.lapses (cfg.dialogOf x.key) }) :=
          hInv.updateBuild b (fun _ => rfl) (by simp)
        exact hMoved.of_core rfl rfl rfl rfl rfl rfl
  | buildRegister b c hStage => exact hInv.buildRegister hBase hStage
  | cancelled b hStage => exact hInv.updateBuild b (fun _ => rfl) (by simp)
  | restartAdmit b task =>
      rcases restartAdmit_cases s cfg b task with hEq | hEq <;> rw [hEq]
      · exact hInv
      · exact hInv.of_core rfl rfl rfl rfl rfl rfl
  | restartStart b task hStage =>
      rcases restartStart_cases s cfg b task with hEq | ⟨_, -, hEq⟩ <;> rw [hEq]
      · exact hInv
      · exact (hInv.startProcess b task).of_core rfl rfl rfl rfl rfl rfl
  | finish b hStage hCancel => exact hInv.finishBuild b
  | startNewTask b => exact hInv.startNewTask b
  | beat held =>
      rcases beat_cases s held with hEq | hEq <;> rw [hEq]
      · exact hInv
      · exact hInv.of_core rfl rfl rfl rfl rfl rfl
  | evictCall node key => exact hInv.evictCall hBase node key
  | evictAwaited e b hUnfinished hKnows =>
      simp only [Cluster.evictAwaited, hUnfinished]
      exact hInv.of_core rfl rfl rfl rfl rfl rfl
  | evictEnd e b hKnows =>
      rcases releaseClaim_cases s b with hEq | ⟨_, hEq⟩ <;> rw [hEq]
      · exact hInv.of_core rfl rfl rfl rfl rfl rfl
      · exact hInv.of_core rfl rfl rfl rfl rfl rfl
  | event event =>
      cases event with
      | processStarts b => exact hInv.startNewTask b
      | processEnds b task => exact hInv.updateRunner b (fun _ => rfl) (fun _ => rfl) (fun _ => id)
      | actorEnds b => exact hInv.updateRunner b (fun _ => rfl) (fun _ => rfl) (fun _ => id)
      | preempts b =>
          exact hInv.updateRunner b (fun _ => rfl) (fun _ => rfl) (by simp [Runner.retired])
      | _ => exact hInv.of_core rfl rfl rfl rfl rfl rfl

end Steps

/-! ## Every run -/

/-- In every run of the managers in which `_drop_preempted` never removes a
successor's entry and no build finishes between the drop of its runner and that
runner's stand-down, the registry agrees with the memo in every state. -/
theorem registry_agrees (cfg : ManagerConfig) {s : Cluster} (hFresh : s.Fresh)
    {p : Pool Cluster Unit} (hRun : System.Run (managers cfg) { st := s } p)
    (hOwn : PopsOwn p.st) (hSettled : FinishesSettled p.st) : RegistryAgrees p.st := by
  have hInv : Base cfg p.st ∧ RegistryInv p.st := by
    refine managers_invariant (A := fun t => Base cfg t ∧ RegistryInv t) ?_ hFresh ?_ hRun
    · intro t t' hBase hBoth hStep
      exact ⟨hBase.step hStep, hBoth.2.step hBase hStep⟩
    · refine ⟨Base.fresh hFresh, ?_⟩
      intro _ _ node key b x r hMemo
      simp [hFresh.builds] at hMemo
  obtain ⟨hBase, hInv⟩ := hInv
  intro node key b x r hMemo hBuild hFinished hRunner hActive
  obtain ⟨hRegistered, hRetired⟩ := hInv hOwn hSettled node key b x r hMemo hBuild hRunner
  obtain ⟨y, hBuild', hNode, _⟩ := hBase.memo node key b hMemo
  obtain rfl : x = y := Option.some.inj (hBuild.symm.trans hBuild')
  rw [← hNode]
  apply hRegistered
  by_contra hDropped
  have hGone := hRetired hFinished (by simpa using hDropped)
  rw [hActive] at hGone
  exact absurd hGone (by simp)

/-- Process 0 builds the runner of dialog 0 for a message and its heartbeat
refreshes the claim. -/
def messageThenBeat : List (System.Move (managers plainConfig)) :=
  List.flatten [[.start (.message 0 0)], resumes 0 3, [.start (.build 0)], resumes 1 4,
    resumes 0 2, [.start (.beat 0)], resumes 2 2]

theorem registry_agrees_after_beat :
    ∃ p : Pool Cluster Unit, System.Run (managers plainConfig) { st := {} } p ∧
      p.st.builds 0 0 = some 0 ∧ p.st.stage 0 = some .finished ∧ RegistryAgrees p.st := by
  have hMoves : (System.moves messageThenBeat { st := {} }).map
      (fun p : Pool Cluster Unit => (p.st.builds 0 0, p.st.stage 0, p.st.pops, p.st.finishes)) =
        some (some 0, some .finished, [], [{ runner := 0, dropped := false, retired := false }]) := by
    decide +kernel
  obtain ⟨p, hRun, hValue⟩ := System.Run.exists_of_moves messageThenBeat hMoves
  simp only [Prod.mk.injEq] at hValue
  obtain ⟨hMemo, hStage, hPops, hFinishes⟩ := hValue
  refine ⟨p, hRun, hMemo, hStage, ?_⟩
  refine registry_agrees plainConfig ?_ hRun ?_ ?_
  · constructor <;> rfl
  · simp [PopsOwn, hPops]
  · simp [FinishesSettled, hFinishes]

/-- The heartbeat of process 0 reads its runners; process 1 takes dialog 0 for
a message; the user comes back to process 0, which retires its runner and
builds a new one; only then does the heartbeat go on, finds the claim of the
old runner gone, and drops the new one from the registry. -/
def staleSnapshot : List (System.Move (managers plainConfig)) :=
  List.flatten [[.start (.message 0 0)], resumes 0 3, [.start (.build 0)], resumes 1 4,
    resumes 0 2, [.start (.beat 0)], resumes 2 1, [.start (.message 1 0)], resumes 3 3,
    [.start (.build 1)], resumes 4 4, resumes 3 2, [.start (.message 0 0)], resumes 5 6,
    [.event (.actorEnds 0)], resumes 5 3, [.start (.build 2)], resumes 6 4, resumes 5 2,
    resumes 2 2]

theorem registry_loses_live_runner :
    ∃ p : Pool Cluster Unit, System.Run (managers plainConfig) { st := {} } p ∧
      ¬RegistryAgrees p.st := by
  have hMoves : (System.moves staleSnapshot { st := {} }).map
      (fun p : Pool Cluster Unit =>
        (p.st.builds 0 0, p.st.build 2, p.st.runner 2, p.st.runners 0 0)) =
        some (some 2, some { node := 0, key := 0, origin := .message, stage := .finished },
          some { claim := { dialogId := 0, owner := 0, generation := 3, heartbeatAt := 0 } },
          none) := by
    decide +kernel
  obtain ⟨p, hRun, hValue⟩ := System.Run.exists_of_moves staleSnapshot hMoves
  simp only [Prod.mk.injEq] at hValue
  obtain ⟨hMemo, hBuild, hRunner, hNone⟩ := hValue
  refine ⟨p, hRun, fun hAgrees => ?_⟩
  have hSome := hAgrees 0 0 2 _ _ hMemo hBuild rfl hRunner rfl
  rw [hNone] at hSome
  exact absurd hSome (by simp)

end Ownership
end OctoForge
