import OctoForge.Ownership.Evolution

/-!
# The managers keep to their steps

Every coroutine of the managers only ever takes steps of `Step`.  Most of them
need no assertion for it.  Two do: a build that claims a dialog on behalf of
background work carries the licence its freshness lookup gave, and an eviction
carries what it knows about the builds that had begun when it was called.
-/

namespace OctoForge
namespace Ownership

open Coop Cluster

/-- The managers' protocol: the bookkeeping, and steps of `Step`. -/
def protocol (cfg : ManagerConfig) : Protocol Cluster :=
  Protocol.ofStep (Base cfg) (Step cfg)

section Atoms

variable {cfg : ManagerConfig} {me : Nat} {A : Cluster → Prop}

theorem atomOk_of_step {ready : Cluster → Bool} {act : Cluster → Cluster}
    (hStep : ∀ s, Base cfg s → A s → ready s = true → Step cfg s (act s)) :
    Co.AtomOk (protocol cfg) me A ready act :=
  Co.atomOk_ofStep (fun _ _ hBase hStep => hBase.step hStep) hStep

theorem atoms_look {α : Type} (f : Cluster → α) :
    Co.Atoms (protocol cfg) me A (Co.read f : Routine α) :=
  Co.atoms_read fun _ => Step.idle

theorem atoms_pause : Co.Atoms (protocol cfg) me A pause :=
  Co.atoms_modify (atomOk_of_step fun _ _ _ _ => Step.idle)

theorem atoms_query {α : Type} (f : Cluster → α) :
    Co.Atoms (protocol cfg) me A (query f) :=
  Co.atoms_attempt (atomOk_of_step fun _ _ _ _ => Step.idle)

theorem atoms_stopRest (b : BuildId) (captured : List TaskId) :
    Co.Atoms (protocol cfg) me A (stopRest b captured) := by
  apply Co.Atoms.bind
  · exact Co.atoms_blockUntil (atomOk_of_step fun _ _ _ _ => Step.idle)
  · intro _
    exact atoms_pause

theorem atoms_dropPreempted (b : BuildId) :
    Co.Atoms (protocol cfg) me A (dropPreempted b) := by
  apply Co.Atoms.bind
  · exact Co.atoms_modify (atomOk_of_step fun _ _ _ _ => Step.drop b)
  intro _
  apply Co.Atoms.bind atoms_pause
  intro _
  apply Co.Atoms.bind
  · exact Co.atoms_atomic (atomOk_of_step fun _ _ _ _ => Step.standDownBegin b)
  intro captured
  cases captured with
  | none => trivial
  | some captured => exact atoms_stopRest b captured

theorem atoms_replaceRetired (node : NodeId) (key : Key) :
    Co.Atoms (protocol cfg) me A (replaceRetired node key) := by
  apply Co.Atoms.bind (atoms_look _)
  intro cached
  cases cached with
  | none => trivial
  | some cached =>
      obtain ⟨b, r⟩ := cached
      simp only
      split
      · exact atoms_dropPreempted b
      · apply Co.Atoms.bind (atoms_look _)
        intro owns
        cases owns with
        | true => trivial
        | false => exact atoms_dropPreempted b

theorem atoms_getOrCreateRunner {node : NodeId} {key : Key} {origin : Origin}
    (hLicensed : ∀ s, A s → Licensed cfg node key origin s) :
    Co.Atoms (protocol cfg) me A (getOrCreateRunner node key origin) := by
  apply Co.Atoms.bind (atoms_replaceRetired node key)
  intro _
  apply Co.Atoms.bind
  · exact Co.atoms_atomic (atomOk_of_step fun s _ hA _ =>
      Step.openBuild node key origin (hLicensed s hA))
  intro opened
  obtain ⟨b, ours⟩ := opened
  apply Co.Atoms.bind
  · exact Co.atoms_attemptWhen (atomOk_of_step fun s _ _ hReady => Step.awaitBuild node key b hReady)
  intro _
  cases ours with
  | true => exact Co.Atoms.bind atoms_pause fun _ => trivial
  | false => trivial

theorem atoms_whileRecovering {α : Type} {b : BuildId} {f : Cluster → α × Cluster}
    (hStep : ∀ s, s.stage b = some .recovering → s.cancelRequested b = false →
      Step cfg s (f s).2) : Co.Atoms (protocol cfg) me A (whileRecovering b f) := by
  apply Co.atoms_attemptWhen
  apply atomOk_of_step
  intro s _ _ hReady
  have hStage : s.stage b = some .recovering := by simpa using hReady
  simp only [recovering]
  split
  · exact Step.cancelled b hStage
  · rename_i hCancel
    exact hStep s hStage (by simpa using hCancel)

theorem atoms_buildRunner (b : BuildId) : Co.Atoms (protocol cfg) me A (buildRunner cfg b) := by
  apply Co.Atoms.bind
  · exact Co.atoms_attemptWhen (atomOk_of_step fun s _ _ hReady =>
      Step.buildClaim b (by simpa using hReady))
  intro c
  apply Co.Atoms.bind
  · exact Co.atoms_attemptWhen (atomOk_of_step fun s _ _ hReady =>
      Step.buildRegister b c (by simpa using hReady))
  intro _
  apply Co.Atoms.bind
  · apply Co.Atoms.bind (atoms_whileRecovering fun _ _ _ => Step.idle)
    intro work
    obtain ⟨orphaned, stranded⟩ := work
    apply Co.Atoms.bind
    · apply Co.Atoms.forEach
      intro task _
      apply Co.Atoms.bind (atoms_whileRecovering fun s _ _ => Step.restartAdmit b task)
      intro admitted
      cases admitted with
      | true => exact atoms_whileRecovering fun s hStage _ => Step.restartStart b task hStage
      | false => trivial
    · intro _
      cases stranded with
      | true => exact atoms_whileRecovering fun _ _ _ => Step.idle
      | false => trivial
  · intro _
    exact atoms_whileRecovering fun s hStage hCancel => Step.finish b hStage hCancel

theorem atoms_beatOnce (node : NodeId) : Co.Atoms (protocol cfg) me A (beatOnce node) := by
  apply Co.Atoms.bind (atoms_look _)
  intro runners
  simp only
  split
  · trivial
  · apply Co.Atoms.bind
    · exact Co.atoms_attempt (atomOk_of_step fun _ _ _ _ => Step.beat _)
    intro kept
    apply Co.Atoms.forEach
    intro runner _
    obtain ⟨b, c⟩ := runner
    simp only
    split
    · trivial
    · exact atoms_dropPreempted b

end Atoms

section Safe

variable {cfg : ManagerConfig} {me : Nat} {s : Cluster}

theorem kept_true : (protocol cfg).Kept fun _ => True :=
  Protocol.Kept.true _

theorem kept_readAt (readAt : Time) : (protocol cfg).Kept fun s => readAt ≤ s.now :=
  Protocol.kept_ofStep fun _ _ hBase hRead hStep =>
    Nat.le_trans hRead (hStep.evolves hBase).now

theorem kept_licensed (node : NodeId) (key : Key) (origin : Origin) :
    (protocol cfg).Kept (Licensed cfg node key origin) :=
  Protocol.kept_ofStep fun _ _ hBase hLicensed hStep => hLicensed.step hBase hStep

theorem kept_evictKnows (e : Eviction) : (protocol cfg).Kept (EvictKnows e) :=
  Protocol.kept_ofStep fun _ _ hBase hKnows hStep => hKnows.step hBase hStep

/-- A coroutine of steps only, after which nothing is known but the
bookkeeping. -/
theorem safe_of_atoms {α : Type} {c : Routine α} {A : Cluster → Prop}
    (hKept : (protocol cfg).Kept A) (hAtoms : Co.Atoms (protocol cfg) me A c)
    (hBase : Base cfg s) (hA : A s) :
    Co.Safe (protocol cfg) me (fun _ t => Base cfg t) c s :=
  (hAtoms.safe hKept hBase hA).mono fun _ _ h => h.1

theorem safe_look {α : Type} {f : Cluster → α} {A : Cluster → Prop}
    {post : Except Unit α → Cluster → Prop} (hKept : (protocol cfg).Kept A) (hBase : Base cfg s)
    (hA : A s) (hPost : ∀ t, Base cfg t → A t → post (.ok (f t)) t) :
    Co.Safe (protocol cfg) me post (Co.read f) s :=
  Co.safe_await_kept hKept hBase hA fun t hBase' hA' _ =>
    ⟨hBase', Step.idle, hPost t hBase' hA'⟩

theorem safe_query {α : Type} {f : Cluster → α} {post : Except Unit α → Cluster → Prop}
    (hBase : Base cfg s) (hOk : ∀ t, Base cfg t → post (.ok (f t)) t)
    (hError : ∀ t, Base cfg t → post (.error ()) t) :
    Co.Safe (protocol cfg) me post (query f) s := by
  apply Co.safe_await_kept kept_true hBase trivial
  intro t hBase' _ _
  refine ⟨hBase', Step.idle, ?_⟩
  cases hDown : t.storeDown with
  | true => simpa [hDown] using hError t hBase'
  | false => simpa [hDown] using hOk t hBase'

/-- What the freshness lookup lets through is a licence. -/
theorem mem_notHeldElsewhere {node : NodeId} {dialogIds : List DialogId} {readAt : Time}
    {candidate : DialogId × Option ClaimRow}
    (hMem : candidate ∈ notHeldElsewhere cfg node dialogIds readAt s) :
    ∀ row, candidate.2 = some row →
      row.owner = cfg.owner node ∨ row.heartbeatAt + cfg.staleAfter < readAt := by
  unfold notHeldElsewhere at hMem
  split at hMem
  · exact absurd hMem (by simp)
  · simp only [List.mem_map, List.mem_filter] at hMem
    obtain ⟨dialogId, ⟨hCandidate, hNotHeld⟩, rfl⟩ := hMem
    intro row hRow
    by_contra hFresh
    simp only [not_or, Nat.not_lt] at hFresh
    have hHeld : dialogId ∈ heldElsewhere s.claims dialogIds (cfg.owner node)
        (readAt - cfg.staleAfter) := by
      simp only [heldElsewhere, List.mem_filter]
      refine ⟨hCandidate, ?_⟩
      have hStale : readAt - cfg.staleAfter ≤ row.heartbeatAt :=
        Nat.sub_le_of_le_add hFresh.2
      have hRow' : s.claims dialogId = some row := hRow
      simp [hRow', hFresh.1, hStale]
    simp [hHeld] at hNotHeld

theorem safe_runnerForBackground (node : NodeId) (key : Key) (hBase : Base cfg s) :
    Co.Safe (protocol cfg) me (fun _ t => Base cfg t) (runnerForBackground cfg node key) s := by
  apply Co.safe_bind.mpr
  apply safe_query hBase _ (fun _ h => h)
  intro t hBase'
  simp only [Co.continuePost_ok]
  split
  · exact hBase'
  · apply Co.safe_bind.mpr
    apply safe_look (kept_readAt t.now) hBase' (Nat.le_refl _)
    intro u hBase'' hRead
    simp only [Co.continuePost_ok]
    generalize hFree : notHeldElsewhere cfg node [cfg.dialogOf key] t.now u = free
    cases free with
    | nil => exact hBase''
    | cons candidate rest =>
        obtain ⟨dialogId, seen⟩ := candidate
        have hLicensed : Licensed cfg node key (.background seen t.now) u := by
          refine ⟨hRead, ?_⟩
          exact mem_notHeldElsewhere (hFree ▸ List.mem_cons_self)
        apply safe_of_atoms (kept_licensed node key _) _ hBase'' hLicensed
        exact Co.Atoms.bind (atoms_getOrCreateRunner fun _ h => h) fun _ => trivial

theorem safe_promoteCollection (node : NodeId) (key : Key) (hBase : Base cfg s) :
    Co.Safe (protocol cfg) me (fun _ t => Base cfg t) (promoteCollection cfg node key) s := by
  apply Co.safe_bind.mpr
  apply (safe_runnerForBackground node key hBase).mono
  intro result t hBase'
  cases result with
  | ok runner => exact hBase'
  | error _ => exact hBase'

theorem safe_wake (node : NodeId) (key : Key) (hBase : Base cfg s) :
    Co.Safe (protocol cfg) me (fun _ t => Base cfg t) (wake cfg node key) s := by
  apply Co.safe_bind.mpr
  apply (safe_runnerForBackground node key hBase).mono
  intro result t hBase'
  cases result with
  | error _ => exact hBase'
  | ok runner =>
      cases runner with
      | none => exact hBase'
      | some b =>
          apply safe_of_atoms kept_true _ hBase' trivial
          apply Co.Atoms.bind (atoms_query _)
          intro refused
          split
          · trivial
          · apply Co.Atoms.bind (atoms_look _)
            intro free
            split
            · apply Co.atoms_attempt
              apply atomOk_of_step
              intro u _ _ _
              split
              · exact Step.idle
              · exact Step.startNewTask b
            · trivial

theorem safe_recoverInterrupted (node : NodeId) (hBase : Base cfg s) :
    Co.Safe (protocol cfg) me (fun _ t => Base cfg t) (recoverInterrupted cfg node) s := by
  apply Co.safe_bind.mpr
  apply safe_look kept_true hBase trivial
  intro s1 hBase1 _
  apply Co.safe_bind.mpr
  apply safe_look kept_true hBase1 trivial
  intro s2 hBase2 _
  apply Co.safe_bind.mpr
  apply safe_look kept_true hBase2 trivial
  intro s3 hBase3 _
  apply Co.safe_bind.mpr
  apply safe_look kept_true hBase3 trivial
  intro s4 hBase4 _
  apply Co.safe_bind.mpr
  apply safe_look (kept_readAt s4.now) hBase4 (Nat.le_refl _)
  intro s5 hBase5 hRead
  -- from here on the candidates are fixed, and each of them is a licence
  apply safe_of_atoms (kept_readAt s4.now) _ hBase5 hRead
  apply Co.Atoms.forEach
  intro candidate hMem
  apply Co.Atoms.tryCatch
  · apply Co.Atoms.bind (atoms_query _)
    intro _
    apply Co.Atoms.bind
    · apply atoms_getOrCreateRunner
      intro t hRead'
      exact ⟨hRead', mem_notHeldElsewhere hMem⟩
    · intro _
      trivial
  · intro _
    trivial

theorem safe_incomingMessage (node : NodeId) (key : Key) (hBase : Base cfg s) :
    Co.Safe (protocol cfg) me (fun _ t => Base cfg t) (incomingMessage cfg node key) s := by
  apply Co.safe_bind.mpr
  apply Co.safe_await_kept kept_true hBase trivial
  intro t hBase' _ _
  have hStep : Step cfg t
      { t with messaged := Function.update t.messaged (cfg.dialogOf key) true } :=
    Step.message (cfg.dialogOf key)
  refine ⟨hBase'.step hStep, hStep, ?_⟩
  apply safe_of_atoms (kept_licensed node key .message) _ (hBase'.step hStep)
  · simp [Licensed]
  · exact Co.Atoms.bind (atoms_getOrCreateRunner fun _ h => h) fun _ => trivial

end Safe

/-! ## Evictions -/

section Evict

variable {cfg : ManagerConfig} {me : Nat} {s s' : Cluster}

/-- An eviction on its way to stop the runner of a finished build: that runner
is deregistered, and all other builds are over. -/
structure StopKnows (e : Eviction) (b : BuildId) (s : Cluster) : Prop where
  bound : e.bound ≤ s.nextBuild
  target : ∃ x r, s.build b = some x ∧ s.runner b = some r ∧
    s.runners x.node r.claim.dialogId ≠ some b
  others : e.clean = true → s.lateStarts = [] → ∀ c x, c < e.bound → c ≠ b →
    s.build c = some x → x.node = e.node → x.key = e.key → Over s c

/-- The builds of the key that were over stay over. -/
theorem others_step {e : Eviction} {b : BuildId} (hBase : Base cfg s) (hStep : Step cfg s s')
    (hBound : e.bound ≤ s.nextBuild)
    (hOthers : ∀ c x, c < e.bound → c ≠ b → s.build c = some x → x.node = e.node →
      x.key = e.key → Over s c)
    (hQuiet : s'.lateStarts = []) :
    ∀ c x, c < e.bound → c ≠ b → s'.build c = some x → x.node = e.node → x.key = e.key →
      Over s' c := by
  have hEvolves := hStep.evolves hBase
  intro c y hLt hNe hBuild' hNode hKey
  cases hBuild : s.build c with
  | none =>
      have hNew := (hEvolves.newBuild c y hBuild' hBuild).1
      exact absurd (Nat.lt_of_lt_of_le hLt hBound) (Nat.not_lt.mpr hNew)
  | some x =>
      obtain ⟨y', hBuild'', hLater⟩ := hEvolves.build c x hBuild
      obtain rfl : y = y' := Option.some.inj (hBuild'.symm.trans hBuild'')
      have hOver := hOthers c x hLt hNe hBuild (hLater.node ▸ hNode) (hLater.key ▸ hKey)
      exact hOver.step hBase hStep hQuiet hBuild

theorem StopKnows.step {e : Eviction} {b : BuildId} (hBase : Base cfg s)
    (hKnows : StopKnows e b s) (hStep : Step cfg s s') : StopKnows e b s' := by
  have hEvolves := hStep.evolves hBase
  refine ⟨Nat.le_trans hKnows.bound hEvolves.nextBuild, ?_, ?_⟩
  · obtain ⟨x, r, hBuild, hRunner, hUnregistered⟩ := hKnows.target
    obtain ⟨y, hBuild', hLater⟩ := hEvolves.build b x hBuild
    obtain ⟨r', hRunner', hLaterR⟩ := hEvolves.runner b r hRunner
    refine ⟨y, r', hBuild', hRunner', ?_⟩
    rw [hLater.node, hLaterR.claim]
    intro hRegistered
    rcases hEvolves.registered _ _ _ hRegistered with hOld | ⟨hNone, _⟩
    · exact hUnregistered hOld
    · rw [hRunner] at hNone
      exact absurd hNone (by simp)
  · intro hClean hQuiet
    exact others_step hBase hStep hKnows.bound (hKnows.others hClean (hEvolves.quiet hQuiet)) hQuiet

/-- The same eviction once `stop` has told everything to end: what still runs
is among the processes it waits for. -/
structure WaitKnows (e : Eviction) (b : BuildId) (captured : List TaskId) (s : Cluster) : Prop
    extends StopKnows e b s where
  waits : ∀ r, s.runner b = some r → r.stopping = true ∧
    (s.lateStarts = [] → r.processes ⊆ captured)

theorem WaitKnows.step {e : Eviction} {b : BuildId} {captured : List TaskId}
    (hBase : Base cfg s) (hKnows : WaitKnows e b captured s) (hStep : Step cfg s s') :
    WaitKnows e b captured s' := by
  have hEvolves := hStep.evolves hBase
  refine ⟨hKnows.toStopKnows.step hBase hStep, ?_⟩
  intro r'' hRunner''
  obtain ⟨_, r, _, hRunner, _⟩ := hKnows.target
  obtain ⟨r', hRunner', hLater⟩ := hEvolves.runner b r hRunner
  obtain rfl : r' = r'' := Option.some.inj (hRunner'.symm.trans hRunner'')
  obtain ⟨hStopping, hSub⟩ := hKnows.waits r hRunner
  refine ⟨hLater.stopping hStopping, fun hQuiet => ?_⟩
  exact List.Subset.trans (hLater.processes hQuiet hStopping) (hSub (hEvolves.quiet hQuiet))

/-- When everything `stop` waited for has ended, the evicted build is over too. -/
theorem WaitKnows.stopped {e : Eviction} {b : BuildId} {captured : List TaskId}
    (hKnows : WaitKnows e b captured s) (hStopped : Cluster.stopped b captured s = true) :
    EvictKnows e s := by
  refine ⟨hKnows.bound, ?_⟩
  intro hClean hQuiet c y hLt hBuild' hNode hKey
  by_cases hSame : c = b
  · subst hSame
    obtain ⟨x, r, hBuild, hRunner, hUnregistered⟩ := hKnows.target
    obtain rfl : x = y := Option.some.inj (hBuild.symm.trans hBuild')
    obtain ⟨hStopping, hSub⟩ := hKnows.waits r hRunner
    simp only [Cluster.stopped, hRunner, Bool.and_eq_true, Bool.not_eq_true', List.all_eq_true,
      List.contains_eq_mem, decide_eq_false_iff_not] at hStopped
    obtain ⟨hActor, hEnded⟩ := hStopped
    have hProcesses : r.processes = [] := by
      apply List.eq_nil_iff_forall_not_mem.mpr
      intro task hTask
      exact hEnded task (hSub hQuiet hTask) hTask
    constructor
    · rw [gone_iff hBuild]
      intro r' hRunner'
      obtain rfl : r = r' := Option.some.inj (hRunner.symm.trans hRunner')
      exact ⟨hStopping, hActor, hProcesses, hUnregistered⟩
    · intro hNone
      rw [hRunner] at hNone
      exact absurd hNone (by simp)
  · exact hKnows.others hClean hQuiet c y hLt hSame hBuild' hNode hKey

theorem StopKnows.stopBegin {e : Eviction} {b : BuildId} (hBase : Base cfg s)
    (hKnows : StopKnows e b s) :
    WaitKnows e b (Cluster.stopBegin b s).1 (Cluster.stopBegin b s).2 := by
  refine ⟨hKnows.step hBase (Step.stopBegin b), ?_⟩
  intro r' hRunner'
  simp only [Cluster.stopBegin, updateRunner_runner_self, Option.map_eq_some_iff] at hRunner'
  obtain ⟨r, hRunner, rfl⟩ := hRunner'
  refine ⟨rfl, fun _ => ?_⟩
  simp [Cluster.stopBegin, hRunner]

/-- In a dialog found clean, only the finished runner of the memoized build
still lives. -/
theorem gone_of_callClean {node : NodeId} {key : Key} {c : BuildId} {x : Build}
    (hBase : Base cfg s) (hClean : s.callClean node key = true) (hBuild : s.build c = some x)
    (hNode : x.node = node) (hKey : x.key = key)
    (hNot : ¬(s.builds node key = some c ∧ x.stage = .finished)) : s.gone c = true := by
  have hBound : c < s.nextBuild := hBase.bound c x hBuild
  simp only [Cluster.callClean, List.all_eq_true, List.mem_range] at hClean
  have hFound := hClean c hBound
  simp only [hBuild, hNode, hKey, and_self, if_true, Bool.or_eq_true, Bool.and_eq_true,
    beq_iff_eq] at hFound
  rcases hFound with hMemo | hGone
  · exact absurd hMemo hNot
  · exact hGone

theorem over_of_callClean {node : NodeId} {key : Key} {c : BuildId} {x : Build}
    (hBase : Base cfg s) (hClean : s.callClean node key = true) (hBuild : s.build c = some x)
    (hNode : x.node = node) (hKey : x.key = key)
    (hNot : ¬(s.builds node key = some c ∧ x.stage = .finished))
    (hEnded : s.builds node key = some c → x.stage.running = false) : Over s c := by
  refine ⟨gone_of_callClean hBase hClean hBuild hNode hKey hNot, fun _ => ?_⟩
  rw [cancelRequested_eq hBuild, buildDone_iff hBuild]
  by_contra hAlive
  simp only [not_or, Bool.not_eq_true, Bool.not_eq_false] at hAlive
  have hOwn := hBase.running c x hBuild hAlive.1 hAlive.2
  rw [hNode, hKey] at hOwn
  rw [hEnded hOwn] at hAlive
  exact absurd hAlive.2 (by simp)

/-- A build of the key that is not in the memo is over. -/
theorem over_of_other {node : NodeId} {key : Key} {b c : BuildId} {x : Build} (hBase : Base cfg s)
    (hClean : s.callClean node key = true) (hMemo : s.builds node key = some b) (hNe : c ≠ b)
    (hBuild : s.build c = some x) (hNode : x.node = node) (hKey : x.key = key) : Over s c := by
  have hNot : s.builds node key ≠ some c := by
    rw [hMemo]
    exact fun hEq => hNe (Option.some.inj hEq).symm
  exact over_of_callClean hBase hClean hBuild hNode hKey (fun hBoth => hNot hBoth.1)
    fun hEq => absurd hEq hNot

/-- A build task that was told to end before it finished. -/
def CutShort (b : BuildId) (s : Cluster) : Prop :=
  ∃ x, s.build b = some x ∧ x.cancelRequested = true ∧ x.stage ≠ .finished

theorem CutShort.step {b : BuildId} (hBase : Base cfg s) (hCut : CutShort b s)
    (hStep : Step cfg s s') : CutShort b s' := by
  obtain ⟨x, hBuild, hCancel, hStage⟩ := hCut
  obtain ⟨y, hBuild', hLater⟩ := (hStep.evolves hBase).build b x hBuild
  exact ⟨y, hBuild', hLater.cancelled hCancel, hLater.unfinished hCancel hStage⟩

/-- What an eviction knows after its first step. -/
def NextKnows (e : Eviction) (s : Cluster) : EvictNext → Prop
  | .returned => EvictKnows e s
  | .awaiting e' b => e' = e ∧ EvictKnows e s ∧ CutShort b s
  | .stopping e' b => e' = e ∧ StopKnows e b s

theorem evictCall_knows (node : NodeId) (key : Key) (hBase : Base cfg s) :
    NextKnows (s.evictionAt node key) (Cluster.evictCall node key s).2
      (Cluster.evictCall node key s).1 := by
  cases hMemo : s.builds node key with
  | none =>
      simp only [Cluster.evictCall, hMemo]
      refine ⟨Nat.le_refl _, ?_⟩
      intro hClean _ c x _ hBuild hNode hKey
      have hOver : Over s c :=
        over_of_callClean hBase hClean hBuild hNode hKey (by simp [hMemo]) (by simp [hMemo])
      exact hOver
  | some b =>
      obtain ⟨x, hBuild, hNode, hKey⟩ := hBase.memo node key b hMemo
      by_cases hDone : s.buildDone b = true
      · have hEnded : x.stage.running = false := (buildDone_iff hBuild).mp hDone
        by_cases hFinished : x.stage = .finished
        · -- the runner is deregistered at once, the other builds are over
          obtain ⟨r, hRunner⟩ := hBase.recovered b x hBuild (Or.inr hFinished)
          have hCall : Cluster.evictCall node key s =
              (.stopping (s.evictionAt node key) b,
                { s with
                  builds := set2 s.builds node key none
                  runners := set2 s.runners node r.claim.dialogId none }) := by
            simp [Cluster.evictCall, hMemo, hDone, Cluster.evictAwaited, Cluster.finishedBuild,
              Cluster.stage, hBuild, hFinished, hRunner, evictionAt]
          rw [hCall]
          refine ⟨rfl, Nat.le_refl _, ⟨x, r, hBuild, hRunner, ?_⟩, ?_⟩
          · simp [set2, hNode]
          · intro hClean hQuiet c y hLt hNe hBuild' hNode' hKey'
            have hOver : Over s c := over_of_other hBase hClean hMemo hNe hBuild' hNode' hKey'
            have hStep : Step cfg s (Cluster.evictCall node key s).2 := Step.evictCall node key
            rw [hCall] at hStep
            exact hOver.step hBase hStep hQuiet hBuild'
        · have hCall : Cluster.evictCall node key s =
              (.returned, evictReturn (s.evictionAt node key)
                { s with builds := set2 s.builds node key none }) := by
            simp [Cluster.evictCall, hMemo, hDone, Cluster.evictAwaited, Cluster.finishedBuild,
              Cluster.stage, hBuild, hFinished]
          rw [hCall]
          refine ⟨Nat.le_refl _, ?_⟩
          intro hClean _ c y _ hBuild' hNode' hKey'
          have hSame : s.builds node key = some c → y = x := by
            rw [hMemo]
            intro hEq
            obtain rfl := Option.some.inj hEq
            exact Option.some.inj (hBuild'.symm.trans hBuild)
          have hOver : Over s c := by
            apply over_of_callClean hBase hClean hBuild' hNode' hKey'
            · rintro ⟨hEq, hStage⟩
              rw [hSame hEq] at hStage
              exact hFinished hStage
            · intro hEq
              rw [hSame hEq]
              exact hEnded
          exact hOver
      · -- a cancelled build that has no runner yet will never have one
        have hRunning : x.stage.running = true := by
          by_contra hNot
          exact hDone ((buildDone_iff hBuild).mpr (by simpa using hNot))
        have hCall : Cluster.evictCall node key s =
            (.awaiting (s.evictionAt node key) b,
              ({ s with builds := set2 s.builds node key none } : Cluster).updateBuild b
                fun build => { build with cancelRequested := true }) := by
          simp only [Cluster.evictCall, hMemo]
          rw [if_neg hDone]
        rw [hCall]
        refine ⟨rfl, ⟨Nat.le_refl _, ?_⟩, ⟨{ x with cancelRequested := true }, ?_, rfl, ?_⟩⟩
        rotate_left
        · simp [hBuild]
        · intro hStage
          rw [show x.stage = .finished from hStage] at hRunning
          exact absurd hRunning (by simp [Stage.running])
        intro hClean hQuiet c y _ hBuild' hNode' hKey'
        by_cases hSame : c = b
        · subst hSame
          have hSelf : y = { x with cancelRequested := true } := by
            simp only [updateBuild_build_self, hBuild, Option.map_some, Option.some.injEq] at hBuild'
            exact hBuild'.symm
          have hGone : s.gone c = true := by
            apply gone_of_callClean hBase hClean hBuild hNode hKey
            rintro ⟨_, hStage⟩
            rw [hStage] at hRunning
            exact absurd hRunning (by simp [Stage.running])
          constructor
          · rw [gone_iff hBuild', hSelf]
            exact (gone_iff hBuild).mp hGone
          · intro _
            rw [cancelRequested_eq hBuild', hSelf]
            exact Or.inl rfl
        · rw [updateBuild_build_of_ne _ _ hSame] at hBuild'
          have hOver : Over s c := over_of_other hBase hClean hMemo hSame hBuild' hNode' hKey'
          have hStep : Step cfg s (Cluster.evictCall node key s).2 := Step.evictCall node key
          rw [hCall] at hStep
          exact hOver.step hBase hStep hQuiet hBuild'

theorem atoms_stopEvicted {e : Eviction} {A : Cluster → Prop} (b : BuildId)
    (hKnows : ∀ s, A s → EvictKnows e s) :
    Co.Atoms (protocol cfg) me A (evictRest.stopEvicted e b) := by
  apply Co.Atoms.bind atoms_pause
  intro _
  apply Co.Atoms.bind
  · apply Co.Atoms.bind
    · exact Co.atoms_atomic (atomOk_of_step fun _ _ _ _ => Step.stopBegin b)
    · intro captured
      exact atoms_stopRest b captured
  · intro _
    exact Co.atoms_modify (atomOk_of_step fun s _ hA _ => Step.evictEnd e b (hKnows s hA))

theorem safe_stopEvicted {e : Eviction} {b : BuildId} (hBase : Base cfg s)
    (hKnows : StopKnows e b s) :
    Co.Safe (protocol cfg) me (fun _ t => Base cfg t) (evictRest.stopEvicted e b) s := by
  have hKept : (protocol cfg).Kept (StopKnows e b) :=
    Protocol.kept_ofStep fun _ _ hBase hKnows hStep => hKnows.step hBase hStep
  apply Co.safe_bind.mpr
  apply Co.safe_await_kept hKept hBase hKnows
  intro s1 hBase1 hKnows1 _
  refine ⟨hBase1, Step.idle, ?_⟩
  apply Co.safe_bind.mpr
  apply Co.safe_bind.mpr
  apply Co.safe_await_kept hKept hBase1 hKnows1
  intro s2 hBase2 hKnows2 _
  have hStop : Step cfg s2 (Cluster.stopBegin b s2).2 := Step.stopBegin b
  refine ⟨hBase2.step hStop, hStop, ?_⟩
  have hWait := hKnows2.stopBegin hBase2
  generalize (Cluster.stopBegin b s2).1 = captured at hWait ⊢
  have hKeptWait : (protocol cfg).Kept (WaitKnows e b captured) :=
    Protocol.kept_ofStep fun _ _ hBase hKnows hStep => hKnows.step hBase hStep
  apply Co.safe_bind.mpr
  apply Co.safe_await_kept hKeptWait (hBase2.step hStop) hWait
  intro s3 hBase3 hWait3 hStopped
  refine ⟨hBase3, Step.idle, ?_⟩
  -- everything has ended: from here on the eviction only has to return
  have hDone : EvictKnows e s3 := hWait3.stopped hStopped
  apply Co.safe_await_kept (kept_evictKnows e) hBase3 hDone
  intro s4 hBase4 hDone4 _
  refine ⟨hBase4, Step.idle, ?_⟩
  apply Co.safe_await_kept (kept_evictKnows e) hBase4 hDone4
  intro s5 hBase5 hDone5 _
  have hEnd : Step cfg s5 (evictReturn e (releaseClaim b s5)) := Step.evictEnd e b hDone5
  exact ⟨hBase5.step hEnd, hEnd, hBase5.step hEnd⟩

theorem safe_evict (node : NodeId) (key : Key) (hBase : Base cfg s) :
    Co.Safe (protocol cfg) me (fun _ t => Base cfg t) (evict node key) s := by
  apply Co.safe_bind.mpr
  apply Co.safe_await_kept kept_true hBase trivial
  intro t hBase' _ _
  have hStep : Step cfg t (Cluster.evictCall node key t).2 := Step.evictCall node key
  have hNext := evictCall_knows node key hBase'
  refine ⟨hBase'.step hStep, hStep, ?_⟩
  have hBase'' := hBase'.step hStep
  show Co.Safe (protocol cfg) me (fun _ t => Base cfg t)
    (evictRest (Cluster.evictCall node key t).1) (Cluster.evictCall node key t).2
  generalize Cluster.evictCall node key t = call at hNext hBase'' ⊢
  obtain ⟨next, u⟩ := call
  cases next with
  | returned => exact hBase''
  | awaiting e b =>
      obtain ⟨rfl, hKnows⟩ := hNext
      have hKept : (protocol cfg).Kept fun s => EvictKnows (t.evictionAt node key) s ∧ CutShort b s :=
        Protocol.kept_ofStep fun _ _ hBase hBoth hStep =>
          ⟨hBoth.1.step hBase hStep, hBoth.2.step hBase hStep⟩
      apply safe_of_atoms hKept _ hBase'' hKnows
      apply Co.Atoms.bind
      · apply Co.atoms_blockUntil
        apply atomOk_of_step
        rintro v _ ⟨hKnows', x, hBuild, _, hStage⟩ _
        refine Step.evictAwaited _ b ?_ hKnows'
        simp [Cluster.finishedBuild, Cluster.stage, hBuild, hStage]
      · intro awaited
        cases awaited with
        | false => trivial
        | true => exact atoms_stopEvicted b fun _ hBoth => hBoth.1
  | stopping e b =>
      obtain ⟨rfl, hKnows⟩ := hNext
      exact safe_stopEvicted hBase'' hKnows

end Evict

/-- The managers only ever take steps of `Step`. -/
theorem managers_follow (cfg : ManagerConfig) :
    System.Follows (managers cfg) (protocol cfg) where
  body_safe := by
    intro call me s hBase
    have hSafe : Co.Safe (protocol cfg) me (fun _ t => Base cfg t) (managerBody cfg call) s := by
      cases call with
      | message node key => exact safe_incomingMessage node key hBase
      | wake node key => exact safe_wake node key hBase
      | promote node key => exact safe_promoteCollection node key hBase
      | recover node => exact safe_recoverInterrupted node hBase
      | beat node => exact safe_of_atoms kept_true (atoms_beatOnce node) hBase trivial
      | evict node key => exact safe_evict node key hBase
      | build b => exact safe_of_atoms kept_true (atoms_buildRunner b) hBase trivial
    exact hSafe.mono fun _ _ _ => trivial
  event_env := by
    intro event s s' hBase hEvent
    obtain rfl := Option.some.inj hEvent
    exact ⟨hBase.step (Step.event event), Step.event event⟩
  crash_inv := by
    intro s s' _ hCrash
    exact absurd hCrash (by simp [managers])

/-- An assertion that holds of a fresh cluster and that no step breaks holds in
every state of every run. -/
theorem managers_invariant {cfg : ManagerConfig} {A : Cluster → Prop}
    (hStep : ∀ s s', Base cfg s → A s → Step cfg s s' → A s') {s : Cluster} (hFresh : s.Fresh)
    (hA : A s) {p : Pool Cluster Unit}
    (hRun : System.Run (managers cfg) { st := s } p) : A p.st := by
  have hSafe : System.PoolSafe (protocol cfg) ({ st := s } : Pool Cluster Unit) :=
    System.PoolSafe.initial (Base.fresh hFresh)
  refine System.Run.preserves (managers_follow cfg) ?_ hRun hSafe hA
  intro t t' hBase hAt hPromised
  cases hPromised with
  | idle hEq => rw [hEq]; exact hAt
  | guarantee me hGuarantee => exact hStep t t' hBase hAt hGuarantee
  | env hEnv => exact hStep t t' hBase hAt hEnv
  | crash hCrash => exact absurd hCrash (by simp [managers])

end Ownership
end OctoForge
