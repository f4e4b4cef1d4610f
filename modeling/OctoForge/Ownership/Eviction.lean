import OctoForge.Ownership.Protocol

/-!
# Evictions

`evict` takes the dialog's build out of the memo, cancels it if it is not done,
stops the runner of a finished one, and returns.  A build that is cancelled
while it recovers the dialog has registered and started its runner already and
ends without a result, so nobody stops that runner.  Nor does `evict` see a
runner that another coroutine has taken out of the memo and is still standing
down.

A dialog is found **clean** if there is no such runner: every runner of the key
but the finished one of the memo has been deregistered and has ended.  After an
eviction of a clean dialog, no runner of a build that had begun before the call
is registered, has a running actor or a running process, for the rest of the
run, as long as nobody starts a process on a runner that is being stopped.
-/

namespace OctoForge
namespace Ownership

open Coop Cluster

/-- After the eviction, nothing of a build that had begun before the call is
left: its runner is not registered, and neither its actor nor a process of it
runs. -/
def LeavesNothing (e : Eviction) (s : Cluster) : Prop :=
  ∀ b x r, b < e.bound → s.build b = some x → x.node = e.node → x.key = e.key →
    s.runner b = some r →
      (∀ node dialogId, s.runners node dialogId ≠ some b) ∧ r.actorRunning = false ∧
        r.processes = []

/-- The registry holds runners under their own process and dialog. -/
def RegistryPlaced (s : Cluster) : Prop :=
  ∀ node dialogId b, s.runners node dialogId = some b → ∃ x r, s.build b = some x ∧
    x.node = node ∧ s.runner b = some r ∧ r.claim.dialogId = dialogId

/-- Every eviction that has returned knows what it needs. -/
def EvictionsKnow (s : Cluster) : Prop :=
  ∀ e ∈ s.evictions, EvictKnows e s

section Steps

variable {cfg : ManagerConfig} {s s' : Cluster}

theorem RegistryPlaced.step (hBase : Base cfg s) (hPlaced : RegistryPlaced s)
    (hStep : Step cfg s s') : RegistryPlaced s' := by
  have hEvolves := hStep.evolves hBase
  intro node dialogId b hRegistered
  rcases hEvolves.registered node dialogId b hRegistered with hOld | ⟨_, hNew⟩
  · obtain ⟨x, r, hBuild, hNode, hRunner, hDialog⟩ := hPlaced node dialogId b hOld
    obtain ⟨y, hBuild', hLater⟩ := hEvolves.build b x hBuild
    obtain ⟨r', hRunner', hLaterR⟩ := hEvolves.runner b r hRunner
    exact ⟨y, r', hBuild', hLater.node.trans hNode, hRunner', by rw [hLaterR.claim]; exact hDialog⟩
  · exact hNew

/-- The first step of an eviction records it when it returns at once. -/
theorem evictCall_record (node : NodeId) (key : Key) (s : Cluster) :
    (Cluster.evictCall node key s).1 = .returned ∧
        (Cluster.evictCall node key s).2.evictions = s.evictionAt node key :: s.evictions ∨
      (Cluster.evictCall node key s).2.evictions = s.evictions := by
  rcases evictCall_cases s node key with
    ⟨-, hEq⟩ | ⟨b, awaited, -, -, rfl, hEq⟩ | ⟨b, -, -, hEq⟩ <;> rw [hEq]
  · exact Or.inl ⟨rfl, rfl⟩
  · rcases evictAwaited_cases { s with builds := set2 s.builds node key none }
      (s.evictionAt node key) b with hAwaited | ⟨_, -, hAwaited⟩ | hAwaited <;> rw [hAwaited]
    · exact Or.inr rfl
    · exact Or.inr rfl
    · exact Or.inl ⟨rfl, rfl⟩
  · exact Or.inr rfl

/-- The evictions a step adds to the record. -/
theorem Step.newEviction (hBase : Base cfg s) (hStep : Step cfg s s') :
    s'.evictions = s.evictions ∨
      ∃ e, s'.evictions = e :: s.evictions ∧ EvictKnows e s' := by
  cases hStep with
  | idle => exact Or.inl rfl
  | message dialogId => exact Or.inl rfl
  | openBuild node key origin hLicensed =>
      rcases openBuild_cases s node key origin with hEq | ⟨-, hEq⟩ <;> rw [hEq] <;>
        exact Or.inl rfl
  | awaitBuild node key b hDone =>
      rcases awaitBuild_cases s node key b with hEq | ⟨-, hEq⟩ <;> rw [hEq] <;>
        exact Or.inl rfl
  | drop b =>
      rcases dropRegistered_cases s b with hEq | ⟨_, _, -, -, hEq⟩ <;> rw [hEq] <;>
        exact Or.inl rfl
  | stopBegin b => exact Or.inl rfl
  | standDownBegin b =>
      rcases standDownBegin_cases s b with hEq | hEq <;> rw [hEq] <;>
        exact Or.inl rfl
  | buildClaim b hStage =>
      obtain ⟨x, hBuild, _⟩ := stage_eq_some hStage
      rcases buildClaim_cases s cfg hBuild with hEq | ⟨-, hEq⟩ <;> rw [hEq] <;>
        exact Or.inl rfl
  | buildRegister b c hStage =>
      obtain ⟨x, hBuild, _⟩ := stage_eq_some hStage
      rcases buildRegister_cases s c hBuild with hEq | ⟨-, hEq⟩ <;> rw [hEq] <;>
        exact Or.inl rfl
  | cancelled b hStage => exact Or.inl rfl
  | restartAdmit b task =>
      rcases restartAdmit_cases s cfg b task with hEq | hEq <;> rw [hEq] <;>
        exact Or.inl rfl
  | restartStart b task hStage =>
      rcases restartStart_cases s cfg b task with hEq | ⟨_, -, hEq⟩ <;> rw [hEq] <;>
        exact Or.inl rfl
  | finish b hStage hCancel => exact Or.inl rfl
  | startNewTask b =>
      rcases startNewTask_cases s cfg b with hEq | ⟨_, -, hEq⟩ <;> rw [hEq] <;>
        exact Or.inl rfl
  | beat held =>
      rcases beat_cases s held with hEq | hEq <;> rw [hEq] <;>
        exact Or.inl rfl
  -- Only the steps of an eviction add to the record.
  | evictCall node key =>
      have hKnows := evictCall_knows node key hBase
      rcases evictCall_record node key s with ⟨hNext, hNew⟩ | hOld
      · rw [hNext] at hKnows
        exact Or.inr ⟨s.evictionAt node key, hNew, hKnows⟩
      · exact Or.inl hOld
  | evictAwaited e b hUnfinished hKnows =>
      have hKnows' := hKnows.step hBase (Step.evictAwaited e b hUnfinished hKnows)
      refine Or.inr ⟨e, ?_, hKnows'⟩
      simp [Cluster.evictAwaited, hUnfinished, evictReturn]
  | evictEnd e b hKnows =>
      have hKnows' := hKnows.step hBase (Step.evictEnd e b hKnows)
      refine Or.inr ⟨e, ?_, hKnows'⟩
      rcases releaseClaim_cases s b with hEq | ⟨_, hEq⟩ <;> rw [hEq] <;> rfl
  | event event =>
      cases event with
      | processStarts b =>
          rcases startNewTask_cases s cfg b with hEq | ⟨_, -, hEq⟩ <;> rw [clusterEvent, hEq] <;>
            exact Or.inl rfl
      | _ => exact Or.inl rfl

theorem EvictionsKnow.step (hBase : Base cfg s) (hKnow : EvictionsKnow s)
    (hStep : Step cfg s s') : EvictionsKnow s' := by
  have hOldKnow : ∀ e ∈ s.evictions, EvictKnows e s' :=
    fun e hMem => (hKnow e hMem).step hBase hStep
  rcases hStep.newEviction hBase with hSame | ⟨e, hNew, hKnows⟩
  · rw [EvictionsKnow, hSame]
    exact hOldKnow
  · rw [EvictionsKnow, hNew]
    intro e' hMem
    rcases List.mem_cons.mp hMem with rfl | hOld
    · exact hKnows
    · exact hOldKnow e' hOld

end Steps

/-! ## Every run -/

/-- In every run of the managers in which no process is started on a runner
that is being stopped, an eviction that found its dialog clean has left nothing
alive once it has returned, and leaves it so. -/
theorem eviction_leaves_nothing (cfg : ManagerConfig) {s : Cluster} (hFresh : s.Fresh)
    {p : Pool Cluster Unit} (hRun : System.Run (managers cfg) { st := s } p)
    (hQuiet : p.st.lateStarts = []) :
    ∀ e ∈ p.st.evictions, e.clean = true → LeavesNothing e p.st := by
  have hInv : RegistryPlaced p.st ∧ EvictionsKnow p.st := by
    refine managers_invariant (A := fun t => RegistryPlaced t ∧ EvictionsKnow t) ?_ hFresh ?_ hRun
    · intro t t' hBase hBoth hStep
      exact ⟨hBoth.1.step hBase hStep, hBoth.2.step hBase hStep⟩
    · constructor
      · intro node dialogId b hRegistered
        simp [hFresh.runners] at hRegistered
      · intro e hMem
        simp [hFresh.evictions] at hMem
  obtain ⟨hPlaced, hKnow⟩ := hInv
  intro e hMem hClean b x r hBound hBuild hNode hKey hRunner
  have hOver := (hKnow e hMem).2 hClean hQuiet b x hBound hBuild hNode hKey
  obtain ⟨_, hActor, hProcesses, hUnregistered⟩ := (gone_iff hBuild).mp hOver.1 r hRunner
  refine ⟨?_, hActor, hProcesses⟩
  intro node dialogId hRegistered
  obtain ⟨x', r', hBuild', hNode', hRunner', hDialog'⟩ := hPlaced node dialogId b hRegistered
  obtain rfl : x = x' := Option.some.inj (hBuild.symm.trans hBuild')
  obtain rfl : r = r' := Option.some.inj (hRunner.symm.trans hRunner')
  rw [← hNode', ← hDialog'] at hRegistered
  exact hUnregistered hRegistered

/-- Process 0 builds the runner of dialog 0 for a message, and an administrator
evicts the dialog when the build is finished. -/
def evictFinished : List (System.Move (managers plainConfig)) :=
  List.flatten [[.start (.message 0 0)], resumes 0 3, [.start (.build 0)], resumes 1 4,
    resumes 0 2, [.start (.evict 0 0)], resumes 2 3, [.event (.actorEnds 0)], resumes 2 3]

theorem eviction_leaves_nothing_when_finished :
    ∃ p : Pool Cluster Unit, System.Run (managers plainConfig) { st := {} } p ∧
      (p.st.runner 0).isSome = true ∧
      LeavesNothing { node := 0, key := 0, bound := 1, clean := true } p.st := by
  have hMoves : (System.moves evictFinished { st := {} }).map
      (fun p : Pool Cluster Unit => ((p.st.runner 0).isSome, p.st.evictions, p.st.lateStarts)) =
        some (true, [{ node := 0, key := 0, bound := 1, clean := true }], []) := by
    decide +kernel
  obtain ⟨p, hRun, hValue⟩ := System.Run.exists_of_moves evictFinished hMoves
  simp only [Prod.mk.injEq] at hValue
  obtain ⟨hRunner, hEvictions, hLate⟩ := hValue
  refine ⟨p, hRun, hRunner, ?_⟩
  refine eviction_leaves_nothing plainConfig ?_ hRun hLate _ ?_ rfl
  · constructor <;> rfl
  · rw [hEvictions]
    exact List.mem_cons_self

/-- The build has registered and started its runner and is looking up the work
to recover when the eviction cancels it.  The eviction returns, and the runner
is registered and its actor runs. -/
def evictRecovering : List (System.Move (managers plainConfig)) :=
  List.flatten [[.start (.message 0 0)], resumes 0 3, [.start (.build 0)], resumes 1 2,
    [.start (.evict 0 0)], resumes 2 1, resumes 1 1, resumes 2 1]

theorem eviction_leaks_recovering_runner :
    ∃ p : Pool Cluster Unit, System.Run (managers plainConfig) { st := {} } p ∧
      p.st.lateStarts = [] ∧ ∃ e ∈ p.st.evictions, ¬LeavesNothing e p.st := by
  have hMoves : (System.moves evictRecovering { st := {} }).map
      (fun p : Pool Cluster Unit =>
        (p.st.lateStarts, p.st.evictions, p.st.build 0, p.st.runner 0)) =
        some ([], [{ node := 0, key := 0, bound := 1, clean := false }],
          some { node := 0, key := 0, origin := .message, stage := .failed,
                 cancelRequested := true },
          some { claim := { dialogId := 0, owner := 0, generation := 1, heartbeatAt := 0 } }) := by
    decide +kernel
  obtain ⟨p, hRun, hValue⟩ := System.Run.exists_of_moves evictRecovering hMoves
  simp only [Prod.mk.injEq] at hValue
  obtain ⟨hLate, hEvictions, hBuild, hRunner⟩ := hValue
  refine ⟨p, hRun, hLate, ?_⟩
  rw [hEvictions]
  refine ⟨_, List.mem_cons_self, fun hNothing => ?_⟩
  obtain ⟨_, hActor, _⟩ := hNothing 0 _ _ (by decide) hBuild rfl rfl hRunner
  exact absurd hActor (by decide)

end Ownership
end OctoForge
