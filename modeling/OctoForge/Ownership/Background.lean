import OctoForge.Ownership.Protocol

/-!
# Background work and held dialogs

Recovery and background work look a dialog's claim up before they build its
runner, and the build claims with an unconditional upsert some steps later.
Between the two another process may claim the dialog or refresh its claim.

A takeover is **undisturbed** if nothing of the kind happened: the row it
replaced is the one the lookup saw, or is gone, or is the process's own.  In
every run, an undisturbed takeover on behalf of background work replaces no
fresh claim of a peer; and where all of them are undisturbed, a dialog without
messages has its tasks restarted by one process only, as long as that process's
claim has not lapsed in between.
-/

namespace OctoForge
namespace Ownership

open Coop Cluster

/-- The row a background takeover replaced is the one its lookup saw, or is
gone, or is the claimant's own. -/
def Takeover.Undisturbed (t : Takeover) : Prop :=
  match t.origin with
  | .message => True
  | .background seen _ =>
      t.replaced = none ∨ t.replaced.map (·.owner) = some t.owner ∨ t.replaced = seen

/-- A takeover on behalf of recovery or background work that replaces a fresh
claim of a different owner. -/
def Takeover.TakesHeld (cfg : ManagerConfig) (t : Takeover) : Prop :=
  t.origin ≠ .message ∧ ∃ row, t.replaced = some row ∧ row.owner ≠ t.owner ∧
    t.claimedAt ≤ row.heartbeatAt + cfg.staleAfter

/-! ## What a step can do to the claims -/

/-- The takeover a build makes. -/
def takeoverOf (cfg : ManagerConfig) (s : Cluster) (x : Build) : Takeover :=
  { owner := cfg.owner x.node, dialogId := cfg.dialogOf x.key, origin := x.origin,
    replaced := s.claims (cfg.dialogOf x.key), claimedAt := s.now,
    lapses := s.lapses (cfg.dialogOf x.key) }

/-- The claim table, the clock and the record of takeovers are left alone. -/
structure SameClaims (s s' : Cluster) : Prop where
  claims : s'.claims = s.claims
  now : s'.now = s.now
  lapses : s'.lapses = s.lapses
  takeovers : s'.takeovers = s.takeovers

/-- The ways the claim table, the clock and the record of takeovers change. -/
inductive ClaimChange (cfg : ManagerConfig) (s s' : Cluster) : Prop
  | same (hSame : SameClaims s s')
  | claimed (b : BuildId) (x : Build) (hBuild : s.build b = some x)
      (hClaims : s'.claims =
        (claim s.claims (cfg.dialogOf x.key) (cfg.owner x.node) s.now).2)
      (hNow : s'.now = s.now) (hLapses : s'.lapses = s.lapses)
      (hTakeovers : s'.takeovers = takeoverOf cfg s x :: s.takeovers)
  | refreshed (held : List DialogClaim) (hClaims : s'.claims = (heartbeat s.claims held s.now).2)
      (hNow : s'.now = s.now) (hLapses : s'.lapses = s.lapses)
      (hTakeovers : s'.takeovers = s.takeovers)
  | removed (hClaims : ∀ dialogId, s'.claims dialogId = s.claims dialogId ∧
        s'.lapses dialogId = s.lapses dialogId ∨ s'.lapses dialogId = s.lapses dialogId + 1)
      (hNow : s'.now = s.now) (hTakeovers : s'.takeovers = s.takeovers)
  | ticked (seconds : Nat) (hEq : s' = s.tick cfg seconds)

section Changes

variable {cfg : ManagerConfig} {s s' : Cluster}

theorem sameClaims_startNewTask (b : BuildId) : SameClaims s (startNewTask cfg b s) := by
  rcases startNewTask_cases s cfg b with hEq | ⟨_, -, hEq⟩ <;> rw [hEq]
  · exact ⟨rfl, rfl, rfl, rfl⟩
  · exact ⟨rfl, rfl, rfl, rfl⟩

theorem sameClaims_evictAwaited (e : Eviction) (b : BuildId) :
    SameClaims s (evictAwaited e b s).2 := by
  rcases evictAwaited_cases s e b with hEq | ⟨_, -, hEq⟩ | hEq <;> rw [hEq]
  · exact ⟨rfl, rfl, rfl, rfl⟩
  · exact ⟨rfl, rfl, rfl, rfl⟩
  · exact ⟨rfl, rfl, rfl, rfl⟩

theorem sameClaims_evictCall (node : NodeId) (key : Key) :
    SameClaims s (evictCall node key s).2 := by
  rcases evictCall_cases s node key with
    ⟨-, hEq⟩ | ⟨b, _, -, -, rfl, hEq⟩ | ⟨b, -, -, hEq⟩ <;> rw [hEq]
  · exact ⟨rfl, rfl, rfl, rfl⟩
  · obtain ⟨hClaims, hNow, hLapses, hTakeovers⟩ :=
      sameClaims_evictAwaited (s := { s with builds := set2 s.builds node key none })
        (s.evictionAt node key) b
    exact ⟨hClaims, hNow, hLapses, hTakeovers⟩
  · exact ⟨rfl, rfl, rfl, rfl⟩

theorem claimChange_release (e : Eviction) (b : BuildId) :
    ClaimChange cfg s (evictReturn e (releaseClaim b s)) := by
  rcases releaseClaim_cases s b with hEq | ⟨_, hEq⟩ <;> rw [hEq]
  · exact .same ⟨rfl, rfl, rfl, rfl⟩
  · refine .removed ?_ rfl rfl
    intro dialogId
    simp only [evictReturn]
    split
    · rename_i hKept
      exact Or.inl ⟨hKept, rfl⟩
    · exact Or.inr rfl

theorem claimChange_event (event : ClusterEvent) :
    ClaimChange cfg s (clusterEvent cfg event s) := by
  cases event with
  | tick seconds => exact .ticked seconds rfl
  | claimDeleted dialogId =>
      refine .removed ?_ rfl rfl
      intro other
      by_cases hSame : other = dialogId
      · subst hSame
        exact Or.inr (by simp [clusterEvent, deleteClaim])
      · refine Or.inl ⟨?_, ?_⟩
        · simp [clusterEvent, deleteClaim, deleteForDialog, Function.update_of_ne hSame]
        · simp [clusterEvent, deleteClaim, Function.update_of_ne hSame]
  | processStarts b => exact .same (sameClaims_startNewTask b)
  | _ => exact .same ⟨rfl, rfl, rfl, rfl⟩

/-- Every step changes the claims in one of these ways. -/
theorem Step.claimChange (hStep : Step cfg s s') : ClaimChange cfg s s' := by
  cases hStep with
  | idle => exact .same ⟨rfl, rfl, rfl, rfl⟩
  | message dialogId => exact .same ⟨rfl, rfl, rfl, rfl⟩
  | openBuild node key origin hLicensed =>
      rcases openBuild_cases s node key origin with hEq | ⟨-, hEq⟩ <;> rw [hEq] <;>
        exact .same ⟨rfl, rfl, rfl, rfl⟩
  | awaitBuild node key b hDone =>
      rcases awaitBuild_cases s node key b with hEq | ⟨-, hEq⟩ <;> rw [hEq] <;>
        exact .same ⟨rfl, rfl, rfl, rfl⟩
  | drop b =>
      rcases dropRegistered_cases s b with hEq | ⟨_, _, -, -, hEq⟩ <;> rw [hEq] <;>
        exact .same ⟨rfl, rfl, rfl, rfl⟩
  | stopBegin b => exact .same ⟨rfl, rfl, rfl, rfl⟩
  | standDownBegin b =>
      rcases standDownBegin_cases s b with hEq | hEq <;> rw [hEq] <;>
        exact .same ⟨rfl, rfl, rfl, rfl⟩
  | buildClaim b hStage =>
      obtain ⟨x, hBuild, _⟩ := stage_eq_some hStage
      rcases buildClaim_cases s cfg hBuild with hEq | ⟨-, hEq⟩ <;> rw [hEq]
      · exact .same ⟨rfl, rfl, rfl, rfl⟩
      · exact .claimed b x hBuild rfl rfl rfl rfl
  | buildRegister b c hStage =>
      obtain ⟨x, hBuild, _⟩ := stage_eq_some hStage
      rcases buildRegister_cases s c hBuild with hEq | ⟨-, hEq⟩ <;> rw [hEq] <;>
        exact .same ⟨rfl, rfl, rfl, rfl⟩
  | cancelled b hStage => exact .same ⟨rfl, rfl, rfl, rfl⟩
  | restartAdmit b task =>
      rcases restartAdmit_cases s cfg b task with hEq | hEq <;> rw [hEq] <;>
        exact .same ⟨rfl, rfl, rfl, rfl⟩
  | restartStart b task hStage =>
      rcases restartStart_cases s cfg b task with hEq | ⟨_, -, hEq⟩ <;> rw [hEq] <;>
        exact .same ⟨rfl, rfl, rfl, rfl⟩
  | finish b hStage hCancel => exact .same ⟨rfl, rfl, rfl, rfl⟩
  | startNewTask b => exact .same (sameClaims_startNewTask b)
  | beat held =>
      rcases beat_cases s held with hEq | hEq <;> rw [hEq]
      · exact .same ⟨rfl, rfl, rfl, rfl⟩
      · exact .refreshed held rfl rfl rfl rfl
  | evictCall node key => exact .same (sameClaims_evictCall node key)
  | evictAwaited e b hUnfinished hKnows => exact .same (sameClaims_evictAwaited e b)
  | evictEnd e b hKnows => exact claimChange_release e b
  | event event => exact claimChange_event event

end Changes

/-! ## Who claims, and what a claim is worth -/

/-- Every build holds the licence it was opened with. -/
def BuildsLicensed (cfg : ManagerConfig) (s : Cluster) : Prop :=
  ∀ b x, s.build b = some x → Licensed cfg x.node x.key x.origin s

/-- An undisturbed takeover on behalf of background work replaced no fresh claim
of a peer. -/
def TakeoversHonest (cfg : ManagerConfig) (s : Cluster) : Prop :=
  ∀ t ∈ s.takeovers, t.Undisturbed → ¬t.TakesHeld cfg

/-- In a dialog without messages, and with no disturbed takeover so far, the
takeovers between two lapses are all by one owner, and as long as the claim has
not lapsed since, that owner's claim is in the table and is fresh. -/
def OwnersAgree (cfg : ManagerConfig) (s : Cluster) : Prop :=
  (∀ t ∈ s.takeovers, t.Undisturbed) → ∀ t ∈ s.takeovers, s.messaged t.dialogId = false →
    t.lapses ≤ s.lapses t.dialogId ∧
    (t.lapses = s.lapses t.dialogId → ∃ row, s.claims t.dialogId = some row ∧
      row.owner = t.owner ∧ s.now ≤ row.heartbeatAt + cfg.staleAfter) ∧
    ∀ u ∈ s.takeovers, u.dialogId = t.dialogId → u.lapses = t.lapses → u.owner = t.owner

section Invariants

variable {cfg : ManagerConfig} {s s' : Cluster}

theorem BuildsLicensed.step (hBase : Base cfg s) (hLicensed : BuildsLicensed cfg s)
    (hStep : Step cfg s s') : BuildsLicensed cfg s' := by
  have hEvolves := hStep.evolves hBase
  intro b y hBuild'
  cases hBuild : s.build b with
  | none => exact (hEvolves.newBuild b y hBuild' hBuild).2.step hBase hStep
  | some x =>
      obtain ⟨y', hBuild'', hLater⟩ := hEvolves.build b x hBuild
      obtain rfl : y = y' := Option.some.inj (hBuild'.symm.trans hBuild'')
      rw [hLater.node, hLater.key, hLater.origin]
      exact (hLicensed b x hBuild).step hBase hStep

/-- The heart of the matter: a licensed and undisturbed takeover meets no fresh
claim of a peer. -/
theorem not_fresh_foreign {x : Build} {row : ClaimRow}
    (hLicensed : Licensed cfg x.node x.key x.origin s)
    (hUndisturbed : (takeoverOf cfg s x).Undisturbed) (hBackground : x.origin ≠ .message)
    (hRow : s.claims (cfg.dialogOf x.key) = some row)
    (hFresh : s.now ≤ row.heartbeatAt + cfg.staleAfter) : row.owner = cfg.owner x.node := by
  cases hOrigin : x.origin with
  | message => exact absurd hOrigin hBackground
  | background seen readAt =>
      rw [hOrigin] at hLicensed
      obtain ⟨hRead, hSeen⟩ := hLicensed
      simp only [Takeover.Undisturbed, takeoverOf, hOrigin, hRow, reduceCtorEq, Option.map_some,
        Option.some.injEq, false_or] at hUndisturbed
      rcases hUndisturbed with hOwn | hSame
      · exact hOwn
      · rcases hSeen row hSame.symm with hOwn | hStale
        · exact hOwn
        · exact absurd (Nat.lt_of_lt_of_le hStale (Nat.le_trans hRead hFresh)) (Nat.lt_irrefl _)

theorem TakeoversHonest.step (hLicensed : BuildsLicensed cfg s) (hHonest : TakeoversHonest cfg s)
    (hStep : Step cfg s s') : TakeoversHonest cfg s' := by
  cases hStep.claimChange with
  | same hSame => rw [TakeoversHonest, hSame.takeovers]; exact hHonest
  | claimed b x hBuild _ _ _ hTakeovers =>
      rw [TakeoversHonest, hTakeovers]
      intro t hMem hUndisturbed
      rcases List.mem_cons.mp hMem with rfl | hOld
      · rintro ⟨hBackground, row, hRow, hForeign, hFresh⟩
        exact hForeign (not_fresh_foreign (hLicensed b x hBuild) hUndisturbed hBackground hRow hFresh)
      · exact hHonest t hOld hUndisturbed
  | refreshed held _ _ _ hTakeovers => rw [TakeoversHonest, hTakeovers]; exact hHonest
  | removed _ _ hTakeovers => rw [TakeoversHonest, hTakeovers]; exact hHonest
  | ticked seconds hEq => rw [hEq]; exact hHonest

theorem heartbeat_row {table : ClaimTable} (held : List DialogClaim) (now : Time)
    {dialogId : DialogId} {row : ClaimRow} (hRow : table dialogId = some row) :
    ∃ row', (heartbeat table held now).2 dialogId = some row' ∧ row'.owner = row.owner ∧
      (row'.heartbeatAt = row.heartbeatAt ∨ row'.heartbeatAt = now) := by
  simp only [heartbeat]
  split
  · exact ⟨{ row with heartbeatAt := now }, by simp [hRow], rfl, Or.inr rfl⟩
  · exact ⟨row, hRow, rfl, Or.inl rfl⟩

/-- A dialog that still has no message is claimed for background work only. -/
theorem background_of_quiet {x : Build} (hLicensed : Licensed cfg x.node x.key x.origin s)
    (hQuiet : s.messaged (cfg.dialogOf x.key) = false) : x.origin ≠ .message := by
  intro hOrigin
  rw [hOrigin] at hLicensed
  exact absurd hLicensed (by simp [Licensed, hQuiet])

/-- Where a takeover is recorded since the last lapse, its owner is the next claimant. -/
theorem OwnersAgree.owner_of_old {x : Build} {t : Takeover} (hAgree : OwnersAgree cfg s)
    (hLicensed : Licensed cfg x.node x.key x.origin s)
    (hUndisturbed : ∀ u ∈ takeoverOf cfg s x :: s.takeovers, u.Undisturbed)
    (hQuiet : s.messaged (cfg.dialogOf x.key) = false) (hOld : t ∈ s.takeovers)
    (hDialog : t.dialogId = cfg.dialogOf x.key)
    (hTag : t.lapses = s.lapses (cfg.dialogOf x.key)) : t.owner = cfg.owner x.node := by
  obtain ⟨-, hCurrent, -⟩ := hAgree (fun u hMem => hUndisturbed u (List.mem_cons_of_mem _ hMem)) t
    hOld (hDialog ▸ hQuiet)
  rw [hDialog] at hCurrent
  obtain ⟨row, hRow, hOwner, hFresh⟩ := hCurrent hTag
  rw [← hOwner]
  exact not_fresh_foreign hLicensed (hUndisturbed _ List.mem_cons_self)
    (background_of_quiet hLicensed hQuiet) hRow hFresh

theorem OwnersAgree.claimed {x : Build} (hAgree : OwnersAgree cfg s)
    (hLicensed : Licensed cfg x.node x.key x.origin s)
    (hMessaged : ∀ dialogId, s'.messaged dialogId = false → s.messaged dialogId = false)
    (hClaims : s'.claims = (claim s.claims (cfg.dialogOf x.key) (cfg.owner x.node) s.now).2)
    (hNow : s'.now = s.now) (hLapses : s'.lapses = s.lapses)
    (hTakeovers : s'.takeovers = takeoverOf cfg s x :: s.takeovers) : OwnersAgree cfg s' := by
  rw [OwnersAgree, hTakeovers, hClaims, hNow, hLapses]
  intro hUndisturbed t hMem hQuiet
  have hNewRow : ∃ row, (claim s.claims (cfg.dialogOf x.key) (cfg.owner x.node) s.now).2
      (cfg.dialogOf x.key) = some row ∧ row.owner = cfg.owner x.node ∧
        s.now ≤ row.heartbeatAt + cfg.staleAfter := by
    refine ⟨claimUpsert (s.claims (cfg.dialogOf x.key)) (cfg.owner x.node) s.now, ?_, ?_, ?_⟩
    · simp [claim]
    · exact claimUpsert_owner ..
    · rw [claimUpsert_heartbeatAt]
      exact Nat.le_add_right _ _
  have hOldOwner : t.dialogId = cfg.dialogOf x.key → ∀ u ∈ s.takeovers,
      u.dialogId = cfg.dialogOf x.key → u.lapses = s.lapses (cfg.dialogOf x.key) →
        u.owner = cfg.owner x.node := by
    intro hDialog u hOld hSame hTag
    exact hAgree.owner_of_old hLicensed hUndisturbed (hDialog ▸ hMessaged t.dialogId hQuiet) hOld
      hSame hTag
  -- The takeover that is new, and those before it.
  rcases List.mem_cons.mp hMem with rfl | hOld
  · refine ⟨Nat.le_refl _, fun _ => hNewRow, ?_⟩
    intro u hMemU hDialog hTag
    rcases List.mem_cons.mp hMemU with rfl | hOldU
    · rfl
    · exact hOldOwner rfl u hOldU hDialog hTag
  · obtain ⟨hLe, hCurrent, hSameTag⟩ := hAgree
      (fun u hOldU => hUndisturbed u (List.mem_cons_of_mem _ hOldU)) t hOld
      (hMessaged t.dialogId hQuiet)
    refine ⟨hLe, ?_, ?_⟩
    · intro hTag
      by_cases hDialog : t.dialogId = cfg.dialogOf x.key
      · rw [hDialog] at hTag ⊢
        rw [hOldOwner hDialog t hOld hDialog hTag]
        exact hNewRow
      · obtain ⟨row, hRow, hRest⟩ := hCurrent hTag
        exact ⟨row, by simpa [claim, Function.update_of_ne hDialog] using hRow, hRest⟩
    · intro u hMemU hDialog hTag
      rcases List.mem_cons.mp hMemU with rfl | hOldU
      · exact (hOldOwner hDialog.symm t hOld hDialog.symm hTag.symm).symm
      · exact hSameTag u hOldU hDialog hTag

theorem OwnersAgree.step (hBase : Base cfg s) (hLicensed : BuildsLicensed cfg s)
    (hAgree : OwnersAgree cfg s) (hStep : Step cfg s s') : OwnersAgree cfg s' := by
  have hMessaged : ∀ dialogId, s'.messaged dialogId = false → s.messaged dialogId = false := by
    intro dialogId hNone
    by_contra hSome
    have := (hStep.evolves hBase).messaged dialogId (by simpa using hSome)
    rw [hNone] at this
    exact absurd this (by simp)
  cases hStep.claimChange with
  | same hSame =>
      rw [OwnersAgree, hSame.takeovers, hSame.claims, hSame.now, hSame.lapses]
      intro hUndisturbed t hMem hQuiet
      exact hAgree hUndisturbed t hMem (hMessaged t.dialogId hQuiet)
  | refreshed held hClaims hNow hLapses hTakeovers =>
      rw [OwnersAgree, hTakeovers, hClaims, hNow, hLapses]
      intro hUndisturbed t hMem hQuiet
      obtain ⟨hLe, hCurrent, hSameTag⟩ := hAgree hUndisturbed t hMem (hMessaged t.dialogId hQuiet)
      refine ⟨hLe, ?_, hSameTag⟩
      intro hTag
      obtain ⟨row, hRow, hOwner, hFresh⟩ := hCurrent hTag
      obtain ⟨row', hRow', hOwner', hBeat⟩ := heartbeat_row held s.now hRow
      refine ⟨row', hRow', hOwner'.trans hOwner, ?_⟩
      rcases hBeat with hBeat | hBeat
      · rw [hBeat]; exact hFresh
      · rw [hBeat]; exact Nat.le_add_right _ _
  | removed hClaims hNow hTakeovers =>
      rw [OwnersAgree, hTakeovers, hNow]
      intro hUndisturbed t hMem hQuiet
      obtain ⟨hLe, hCurrent, hSameTag⟩ := hAgree hUndisturbed t hMem (hMessaged t.dialogId hQuiet)
      rcases hClaims t.dialogId with ⟨hRow, hLapses⟩ | hLapses
      · rw [hRow, hLapses]
        exact ⟨hLe, hCurrent, hSameTag⟩
      · rw [hLapses]
        refine ⟨Nat.le_succ_of_le hLe, ?_, hSameTag⟩
        intro hTag
        exact absurd hLe (by rw [hTag]; exact Nat.not_succ_le_self _)
  | ticked seconds hEq =>
      subst hEq
      intro hUndisturbed t hMem hQuiet
      obtain ⟨hLe, hCurrent, hSameTag⟩ := hAgree hUndisturbed t hMem (hMessaged t.dialogId hQuiet)
      refine ⟨Nat.le_trans hLe (Nat.le_add_right _ _), ?_, hSameTag⟩
      intro hTag
      -- a claim that goes stale in this tick counts as one more lapse
      simp only [Cluster.tick] at hTag ⊢
      split at hTag
      · exact absurd hLe (by rw [hTag]; exact Nat.not_succ_le_self _)
      · rename_i hNot
        obtain ⟨row, hRow, hOwner, hFresh⟩ := hCurrent hTag
        refine ⟨row, hRow, hOwner, ?_⟩
        simp only [hRow, Option.any_some, Bool.and_eq_true, decide_eq_true_eq, not_and,
          Nat.not_lt] at hNot
        exact hNot hFresh
  | claimed b x hBuild hClaims hNow hLapses hTakeovers =>
      exact hAgree.claimed (hLicensed b x hBuild) hMessaged hClaims hNow hLapses hTakeovers

/-! ### Restarts -/

/-- The build holds the claim it made and has not ended. -/
def Stage.holding : Stage → Bool
  | .claimed _ | .recovering => true
  | .created | .finished | .failed => false

/-- The takeover behind a build that holds its claim, and behind a restart. -/
structure Traced (cfg : ManagerConfig) (s : Cluster) : Prop where
  builds : ∀ b x, s.build b = some x → x.stage.holding = true → ∃ t ∈ s.takeovers,
    t.dialogId = cfg.dialogOf x.key ∧ t.owner = cfg.owner x.node ∧ t.lapses = x.lapses
  restarts : ∀ r ∈ s.restarts, ∃ t ∈ s.takeovers,
    t.dialogId = r.dialogId ∧ t.owner = r.owner ∧ t.lapses = r.lapses

theorem Traced.of_core (hTraced : Traced cfg s) (hBuild : s'.build = s.build)
    (hTakeovers : s'.takeovers = s.takeovers) (hRestarts : s'.restarts = s.restarts) :
    Traced cfg s' where
  builds := by rw [hBuild, hTakeovers]; exact hTraced.builds
  restarts := by rw [hRestarts, hTakeovers]; exact hTraced.restarts

/-- A build that moves on without claiming keeps the takeover it had. -/
theorem Traced.updateBuild (hTraced : Traced cfg s) (b : BuildId) {f : Build → Build}
    (hBuild : s'.build = (s.updateBuild b f).build) (hTakeovers : s'.takeovers = s.takeovers)
    (hRestarts : s'.restarts = s.restarts)
    (hKeeps : ∀ x, s.build b = some x → (f x).stage.holding = true →
      x.stage.holding = true ∧ (f x).key = x.key ∧ (f x).node = x.node ∧
        (f x).lapses = x.lapses) : Traced cfg s' where
  builds := by
    rw [hBuild, hTakeovers]
    intro b' y hBuild' hHolding
    by_cases hSame : b' = b
    · subst hSame
      simp only [updateBuild_build_self, Option.map_eq_some_iff] at hBuild'
      obtain ⟨x, hOld, rfl⟩ := hBuild'
      obtain ⟨hHeld, hKey, hNode, hLapses⟩ := hKeeps x hOld hHolding
      rw [hKey, hNode, hLapses]
      exact hTraced.builds b' x hOld hHeld
    · rw [updateBuild_build_of_ne s f hSame] at hBuild'
      exact hTraced.builds b' y hBuild' hHolding
  restarts := by rw [hRestarts, hTakeovers]; exact hTraced.restarts

theorem Traced.openBuild (hTraced : Traced cfg s) (node : NodeId) (key : Key)
    (origin : Origin) : Traced cfg (Cluster.openBuild node key origin s).2 := by
  rcases openBuild_cases s node key origin with hEq | ⟨-, hEq⟩ <;> rw [hEq]
  · exact hTraced
  · refine ⟨?_, hTraced.restarts⟩
    intro b x hBuild hHolding
    by_cases hNew : b = s.nextBuild
    · subst hNew
      simp only [Function.update_self, Option.some.injEq] at hBuild
      subst hBuild
      exact absurd hHolding (by simp [Stage.holding])
    · simp only [Function.update_of_ne hNew] at hBuild
      exact hTraced.builds b x hBuild hHolding

theorem Traced.buildClaim (hTraced : Traced cfg s) {b : BuildId}
    (hStage : s.stage b = some .created) : Traced cfg (Cluster.buildClaim cfg b s).2 := by
  obtain ⟨x, hBuild, _⟩ := stage_eq_some hStage
  rcases buildClaim_cases s cfg hBuild with hEq | ⟨-, hEq⟩ <;> rw [hEq]
  · exact hTraced.updateBuild b rfl rfl rfl (by simp [Stage.holding])
  · refine ⟨?_, ?_⟩
    · intro b' y hBuild' hHolding
      by_cases hSame : b' = b
      · subst hSame
        simp only [updateBuild_build_self, hBuild, Option.map_some, Option.some.injEq] at hBuild'
        subst hBuild'
        exact ⟨_, List.mem_cons_self, rfl, rfl, rfl⟩
      · simp only [updateBuild_build_of_ne s _ hSame] at hBuild'
        obtain ⟨t, hMem, hRest⟩ := hTraced.builds b' y hBuild' hHolding
        exact ⟨t, List.mem_cons_of_mem _ hMem, hRest⟩
    · intro r hMem
      obtain ⟨t, hOld, hRest⟩ := hTraced.restarts r hMem
      exact ⟨t, List.mem_cons_of_mem _ hOld, hRest⟩

theorem Traced.evictAwaited (hTraced : Traced cfg s) (e : Eviction) (b : BuildId) :
    Traced cfg (Cluster.evictAwaited e b s).2 := by
  rcases evictAwaited_cases s e b with hEq | ⟨_, -, hEq⟩ | hEq <;> rw [hEq]
  · exact hTraced
  · exact hTraced.of_core rfl rfl rfl
  · exact hTraced.of_core rfl rfl rfl

theorem Traced.startNewTask (hTraced : Traced cfg s) (b : BuildId) :
    Traced cfg (Cluster.startNewTask cfg b s) := by
  rcases startNewTask_cases s cfg b with hEq | ⟨_, -, hEq⟩ <;> rw [hEq]
  · exact hTraced
  · exact hTraced.of_core rfl rfl rfl

theorem Traced.step (hTraced : Traced cfg s) (hStep : Step cfg s s') :
    Traced cfg s' := by
  cases hStep with
  | idle => exact hTraced
  | message dialogId => exact hTraced.of_core rfl rfl rfl
  | openBuild node key origin hLicensed => exact hTraced.openBuild node key origin
  | awaitBuild node key b hDone =>
      rcases awaitBuild_cases s node key b with hEq | ⟨-, hEq⟩ <;> rw [hEq]
      · exact hTraced
      · exact hTraced.of_core rfl rfl rfl
  | drop b =>
      rcases dropRegistered_cases s b with hEq | ⟨_, _, -, -, hEq⟩ <;> rw [hEq]
      · exact hTraced
      · exact hTraced.of_core rfl rfl rfl
  | stopBegin b => exact hTraced.of_core rfl rfl rfl
  | standDownBegin b =>
      rcases standDownBegin_cases s b with hEq | hEq <;> rw [hEq]
      · exact hTraced
      · exact hTraced.of_core rfl rfl rfl
  | buildClaim b hStage => exact hTraced.buildClaim hStage
  | buildRegister b c hStage =>
      obtain ⟨x, hBuild, hClaimed⟩ := stage_eq_some hStage
      rcases buildRegister_cases s c hBuild with hEq | ⟨-, hEq⟩ <;> rw [hEq]
      · exact hTraced.updateBuild b rfl rfl rfl (by simp [Stage.holding])
      · refine hTraced.updateBuild b rfl rfl rfl ?_
        intro y hBuild' _
        obtain rfl : x = y := Option.some.inj (hBuild.symm.trans hBuild')
        exact ⟨by rw [hClaimed]; rfl, rfl, rfl, rfl⟩
  | cancelled b hStage => exact hTraced.updateBuild b rfl rfl rfl (by simp [Stage.holding])
  | restartAdmit b task =>
      rcases restartAdmit_cases s cfg b task with hEq | hEq <;> rw [hEq]
      · exact hTraced
      · exact hTraced.of_core rfl rfl rfl
  -- A restart is recorded under the claim that its build holds.
  | restartStart b task hStage =>
      obtain ⟨x, hBuild, hRecovering⟩ := stage_eq_some hStage
      simp only [Cluster.restartStart, hBuild]
      refine ⟨hTraced.builds, ?_⟩
      intro r hMem
      rcases List.mem_cons.mp hMem with rfl | hOld
      · exact hTraced.builds b x hBuild (by rw [hRecovering]; rfl)
      · exact hTraced.restarts r hOld
  | finish b hStage hCancel =>
      exact hTraced.updateBuild b rfl rfl rfl (by simp [Stage.holding])
  | startNewTask b => exact hTraced.startNewTask b
  | beat held =>
      rcases beat_cases s held with hEq | hEq <;> rw [hEq]
      · exact hTraced
      · exact hTraced.of_core rfl rfl rfl
  | evictCall node key =>
      rcases evictCall_cases s node key with
        ⟨-, hEq⟩ | ⟨b, _, -, -, rfl, hEq⟩ | ⟨b, -, -, hEq⟩ <;> rw [hEq]
      · exact hTraced.of_core rfl rfl rfl
      · have hForgot : Traced cfg { s with builds := set2 s.builds node key none } :=
          hTraced.of_core rfl rfl rfl
        exact hForgot.evictAwaited _ _
      · refine hTraced.updateBuild _ rfl rfl rfl ?_
        exact fun _ _ hHolding => ⟨hHolding, rfl, rfl, rfl⟩
  | evictAwaited e b hUnfinished hKnows => exact hTraced.evictAwaited e b
  | evictEnd e b hKnows =>
      rcases releaseClaim_cases s b with hEq | ⟨_, hEq⟩ <;> rw [hEq]
      · exact hTraced.of_core rfl rfl rfl
      · exact hTraced.of_core rfl rfl rfl
  | event event =>
      cases event with
      | processStarts b => exact hTraced.startNewTask b
      | _ => exact hTraced.of_core rfl rfl rfl

end Invariants

/-! ## Every run -/

/-- What a run of the managers keeps about background work. -/
structure BackgroundInv (cfg : ManagerConfig) (s : Cluster) : Prop where
  licensed : BuildsLicensed cfg s
  honest : TakeoversHonest cfg s
  agree : OwnersAgree cfg s
  traced : Traced cfg s

theorem BackgroundInv.step {cfg : ManagerConfig} {s s' : Cluster} (hBase : Base cfg s)
    (hInv : BackgroundInv cfg s) (hStep : Step cfg s s') : BackgroundInv cfg s' where
  licensed := hInv.licensed.step hBase hStep
  honest := hInv.honest.step hInv.licensed hStep
  agree := hInv.agree.step hBase hInv.licensed hStep
  traced := hInv.traced.step hStep

theorem BackgroundInv.fresh {cfg : ManagerConfig} {s : Cluster} (hFresh : s.Fresh) :
    BackgroundInv cfg s where
  licensed := by intro b x hBuild; simp [hFresh.build] at hBuild
  honest := by intro t hMem; simp [hFresh.takeovers] at hMem
  agree := by intro _ t hMem; simp [hFresh.takeovers] at hMem
  traced :=
    ⟨by intro b x hBuild; simp [hFresh.build] at hBuild,
      by intro r hMem; simp [hFresh.restarts] at hMem⟩

/-- In every run of the managers in which no other process claims the dialog or
refreshes its claim between a background lookup and the claim it licenses:

* no claim on behalf of recovery or background work replaces a fresh claim of a
  different owner;
* of a dialog that received no message, no orphaned task is restarted by two
  owners, unless the dialog's claim lapsed between the claims they restarted it
  under. -/
theorem background_work_respects_holders (cfg : ManagerConfig) {s : Cluster} (hFresh : s.Fresh)
    {p : Pool Cluster Unit} (hRun : System.Run (managers cfg) { st := s } p)
    (hUndisturbed : ∀ t ∈ p.st.takeovers, t.Undisturbed) :
    (∀ t ∈ p.st.takeovers, ¬t.TakesHeld cfg) ∧
      ∀ x ∈ p.st.restarts, ∀ y ∈ p.st.restarts, x.dialogId = y.dialogId → x.task = y.task →
        p.st.messaged x.dialogId = false → x.lapses = y.lapses → x.owner = y.owner := by
  have hInv : BackgroundInv cfg p.st :=
    managers_invariant (fun _ _ hBase hInv hStep => hInv.step hBase hStep) hFresh
      (BackgroundInv.fresh hFresh) hRun
  constructor
  · intro t hMem
    exact hInv.honest t hMem (hUndisturbed t hMem)
  · intro x hMemX y hMemY hDialog _ hQuiet hLapses
    obtain ⟨t, hMemT, hDialogT, hOwnerT, hLapsesT⟩ := hInv.traced.restarts x hMemX
    obtain ⟨u, hMemU, hDialogU, hOwnerU, hLapsesU⟩ := hInv.traced.restarts y hMemY
    have hQuietT : p.st.messaged t.dialogId = false := by rw [hDialogT]; exact hQuiet
    obtain ⟨_, _, hSame⟩ := hInv.agree hUndisturbed t hMemT hQuietT
    have hEq : u.owner = t.owner := by
      apply hSame u hMemU
      · rw [hDialogU, hDialogT, hDialog]
      · rw [hLapsesU, hLapsesT, hLapses]
    rw [← hOwnerT, ← hOwnerU, hEq]

/-- Process 0 recovers dialog 0 and its task 7 alone, and process 1 recovers
after it: the claim of process 0 is fresh by then and process 1 leaves the
dialog alone. -/
def recoverInTurn : List (System.Move (managers plainConfig)) :=
  List.flatten [[.start (.recover 0)], resumes 0 8, [.start (.build 0)], resumes 1 6,
    [.start (.recover 1)], resumes 2 5]

theorem background_work_respects_holders_in_turn :
    ∃ p : Pool Cluster Unit,
      System.Run (managers plainConfig) { st := { openTasks := [(0, 7)] } } p ∧
        p.st.restarts = [{ owner := 0, dialogId := 0, task := 7, lapses := 0 }] ∧
        ∀ t ∈ p.st.takeovers, ¬t.TakesHeld plainConfig := by
  have hMoves : (System.moves recoverInTurn { st := { openTasks := [(0, 7)] } }).map
      (fun p : Pool Cluster Unit => (p.st.takeovers, p.st.restarts)) =
        some ([{ owner := 0, dialogId := 0, origin := .background none 0, replaced := none,
                 claimedAt := 0, lapses := 0 }],
          [{ owner := 0, dialogId := 0, task := 7, lapses := 0 }]) := by
    decide +kernel
  obtain ⟨p, hRun, hValue⟩ := System.Run.exists_of_moves recoverInTurn hMoves
  simp only [Prod.mk.injEq] at hValue
  refine ⟨p, hRun, hValue.2, ?_⟩
  refine (background_work_respects_holders plainConfig ?_ hRun ?_).1
  · constructor <;> rfl
  · rw [hValue.1]
    simp [Takeover.Undisturbed]

/-- Two processes start up together.  Both find dialog 0 unclaimed, both build
its runner, and both restart its task 7; the claim of process 1 replaces the
claim process 0 has just made. -/
def recoverTogether : List (System.Move (managers plainConfig)) :=
  List.flatten [[.start (.recover 0), .start (.recover 1)], resumes 0 8, resumes 1 8,
    [.start (.build 0), .start (.build 1)], resumes 2 5, resumes 3 5]

theorem background_claims_race :
    ∃ p : Pool Cluster Unit,
      System.Run (managers plainConfig) { st := { openTasks := [(0, 7)] } } p ∧
        (∃ t ∈ p.st.takeovers, t.TakesHeld plainConfig) ∧
        ∃ x ∈ p.st.restarts, ∃ y ∈ p.st.restarts, x.dialogId = y.dialogId ∧ x.task = y.task ∧
          p.st.messaged x.dialogId = false ∧ x.lapses = y.lapses ∧ x.owner ≠ y.owner := by
  have hMoves : (System.moves recoverTogether { st := { openTasks := [(0, 7)] } }).map
      (fun p : Pool Cluster Unit => (p.st.takeovers.head?, p.st.restarts, p.st.messaged 0)) =
        some (some { owner := 1, dialogId := 0, origin := .background none 0,
                     replaced := some { owner := 0, generation := 1, heartbeatAt := 0 },
                     claimedAt := 0, lapses := 0 },
          [{ owner := 1, dialogId := 0, task := 7, lapses := 0 },
           { owner := 0, dialogId := 0, task := 7, lapses := 0 }], false) := by
    decide +kernel
  obtain ⟨p, hRun, hValue⟩ := System.Run.exists_of_moves recoverTogether hMoves
  simp only [Prod.mk.injEq] at hValue
  obtain ⟨hHead, hRestarts, hMessaged⟩ := hValue
  refine ⟨p, hRun, ⟨_, List.mem_of_mem_head? hHead, ?_⟩, ?_⟩
  · exact ⟨by simp, _, rfl, by decide, by decide⟩
  · rw [hRestarts]
    exact ⟨_, List.mem_cons_self, _, List.mem_cons_of_mem _ List.mem_cons_self, rfl, rfl,
      hMessaged, rfl, by decide⟩

end Ownership
end OctoForge
