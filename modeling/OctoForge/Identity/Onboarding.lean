import OctoForge.Coop.Machine
import OctoForge.Identity.Store
import OctoForge.Sequence.Places

/-!
# First contact

`resolve_or_create` looks the account up, mints a person and links the account to it, and
commits each of the three by itself.  Calls for one account may overlap in any way.  The
unique constraint decides whose person gets the account; a call that loses goes home with
the winner's, and leaves the person it has minted behind.

`missed` is read by nothing: it counts the calls whose first look-up found nobody.
-/

namespace OctoForge
namespace Identity

open Coop

/-- The `await` a call of `resolve_or_create` is at. -/
inductive Stage where
  /-- `resolve`, for the first time. -/
  | resolving
  /-- `create_user`. -/
  | creating
  /-- `_find` in `link`, with the person it has minted. -/
  | finding (user : UserId)
  /-- The commit of the insert in `link`. -/
  | inserting (user : UserId)
  /-- The commit in `link` where the person has had the account before. -/
  | reviving (user : UserId)
  /-- `IdentityTakenError`: `resolve`, for the second time. -/
  | rereading
  | returned (user : UserId)
  | raised
  deriving DecidableEq, Repr

structure Onboarding where
  store : Store
  account : Account
  calls : List Stage := []
  missed : Nat := 0

/-- A call has found nobody and has not linked anybody yet. -/
def Stage.onTheWay : Stage → Bool
  | .creating | .finding _ | .inserting _ | .reviving _ => true
  | _ => false

def Stage.hasEnded : Stage → Bool
  | .returned _ | .raised => true
  | _ => false

/-- Where a call can be as long as nobody has the account. -/
def Stage.Early : Stage → Prop
  | .resolving | .creating | .finding _ | .inserting _ => True
  | _ => False

/-- A call that has ended, or is about to, does so with the owner of the account. -/
def Stage.Heads (owner : UserId) : Stage → Prop
  | .reviving user | .returned user => user = owner
  | .raised => False
  | _ => True

namespace Onboarding

variable (s : Onboarding)

def goTo (k : Nat) (stage : Stage) : Onboarding := { s with calls := s.calls.set k stage }

/-- The next step of a call.  An id that `uuid4` draws is nobody's yet. -/
def resume (k : Nat) (uuid : UserId) : Stage → Option Onboarding
  | .resolving =>
      match s.store.resolve s.account with
      | some found => some (s.goTo k (.returned found))
      | none => some { s.goTo k .creating with missed := s.missed + 1 }
  | .creating =>
      if hFresh : uuid ∉ s.store.users.map (·.id) then
        some { s.goTo k (.finding uuid) with store := s.store.createUser uuid hFresh }
      else none
  | .finding user =>
      match s.store.find s.account with
      | some existing =>
          if existing.userId ≠ user then some (s.goTo k .rereading)
          else some (s.goTo k (.reviving user))
      | none => some (s.goTo k (.inserting user))
  | .inserting user =>
      match s.store.insertIdentity { userId := user, account := s.account } with
      | some store => some { s.goTo k (.returned user) with store }
      | none => some (s.goTo k .rereading)
  | .reviving user =>
      some { s.goTo k (.returned user) with store := s.store.revive s.account }
  | .rereading =>
      match s.store.resolve s.account with
      | some owner => some (s.goTo k (.returned owner))
      | none => some (s.goTo k .raised)
  | .returned _ => none
  | .raised => none

inductive Move where
  | call
  | resume (k : Nat) (uuid : UserId)
  deriving DecidableEq, Repr

def machine : Machine Onboarding Move where
  step s
    | .call => some { s with calls := s.calls ++ [.resolving] }
    | .resume k uuid => s.calls[k]?.bind (s.resume k uuid)

/-- The account is looked up for the first time only where nobody who has found it without
a person is still on the way. -/
def oneAtATime (s : Onboarding) : Move → Bool
  | .call => true
  | .resume k _ => s.calls[k]?.all fun stage =>
      stage ≠ .resolving || s.calls.countP Stage.onTheWay = 0

/-! ## The invariant -/

/-- `base` are the users from before the first call. -/
structure Inv (base : List UserRow) (s : Onboarding) : Prop where
  minted : ∃ new, s.store.users = base ++ new ∧
    new.length + s.calls.countP (· = .creating) = s.missed
  nobody : s.store.find s.account = none →
    s.calls.countP Stage.onTheWay = s.missed ∧ ∀ stage ∈ s.calls, stage.Early
  owned : ∀ row, s.store.find s.account = some row → row.active = true ∧
    s.calls.countP Stage.onTheWay < s.missed ∧ ∀ stage ∈ s.calls, stage.Heads row.userId

variable {s : Onboarding} {base : List UserRow} {k : Nat} {stage stage' : Stage}

theorem countP_set (p : Stage → Bool) (stage' : Stage) {calls : List Stage}
    (hStage : calls[k]? = some stage) :
    (calls.set k stage').countP p + (if p stage then 1 else 0) =
      calls.countP p + if p stage' then 1 else 0 := by
  obtain ⟨hLt, rfl⟩ := List.getElem?_eq_some_iff.mp hStage
  have hPositive : p calls[k] = true → 0 < calls.countP p := fun hThere =>
    List.countP_pos_iff.mpr ⟨calls[k], List.getElem_mem hLt, hThere⟩
  rw [List.countP_set hLt]
  split
  · rename_i hThere
    have hSome := hPositive hThere
    omega
  · omega

/-- The account has an owner, and a call goes on without touching the store. -/
theorem Inv.goTo_owned (hInv : Inv base s) {row : UserIdentityRow}
    (hRow : s.store.find s.account = some row) (hStage : s.calls[k]? = some stage)
    (hHeads : stage'.Heads row.userId) (hWay : stage'.onTheWay = true → stage.onTheWay = true)
    (hOld : stage ≠ .creating) (hNew : stage' ≠ .creating) : Inv base (s.goTo k stage') := by
  obtain ⟨new, hUsers, hCount⟩ := hInv.minted
  obtain ⟨hActive, hFew, hAll⟩ := hInv.owned row hRow
  refine ⟨⟨new, hUsers, ?_⟩, ?_, ?_⟩
  · have hSet := countP_set (· = .creating) stage' hStage
    simp only [hOld, hNew, decide_false, Bool.false_eq_true, if_false, Nat.add_zero] at hSet
    simp only [goTo, hSet, hCount]
  · intro hNone
    exact absurd (hRow.symm.trans hNone) (by simp)
  · intro row' hRow'
    obtain rfl := Option.some.inj (hRow.symm.trans hRow')
    refine ⟨hActive, ?_, Sequence.forall_mem_set hAll hHeads⟩
    have hSet := countP_set Stage.onTheWay stage' hStage
    have hNoMore : (if stage'.onTheWay then 1 else 0) ≤ if stage.onTheWay then 1 else 0 := by
      split
      · rename_i hThere
        simp [hWay hThere]
      · exact Nat.zero_le _
    simp only [goTo]
    omega

/-- Nobody has the account, and a call goes on without touching the store. -/
theorem Inv.goTo_nobody (hInv : Inv base s) (hNone : s.store.find s.account = none)
    (hStage : s.calls[k]? = some stage) (hEarly : stage'.Early)
    (hWay : stage'.onTheWay = stage.onTheWay) (hOld : stage ≠ .creating)
    (hNew : stage' ≠ .creating) : Inv base (s.goTo k stage') := by
  obtain ⟨new, hUsers, hCount⟩ := hInv.minted
  obtain ⟨hMissed, hAll⟩ := hInv.nobody hNone
  refine ⟨⟨new, hUsers, ?_⟩, fun _ => ⟨?_, Sequence.forall_mem_set hAll hEarly⟩, ?_⟩
  · have hSet := countP_set (· = .creating) stage' hStage
    simp only [hOld, hNew, decide_false, Bool.false_eq_true, if_false, Nat.add_zero] at hSet
    simp only [goTo, hSet, hCount]
  · have hSet := countP_set Stage.onTheWay stage' hStage
    rw [hWay] at hSet
    simp only [goTo]
    omega
  · intro row hRow
    exact absurd (hNone.symm.trans hRow) (by simp)

/-- `create_user`: a person more. -/
theorem Inv.create (hInv : Inv base s) (hStage : s.calls[k]? = some .creating) {uuid : UserId}
    (hFresh : uuid ∉ s.store.users.map (·.id)) :
    Inv base { s.goTo k (.finding uuid) with store := s.store.createUser uuid hFresh } := by
  obtain ⟨new, hUsers, hCount⟩ := hInv.minted
  have hCreating := countP_set (· = .creating) (.finding uuid) hStage
  have hWay := countP_set Stage.onTheWay (.finding uuid) hStage
  simp only [Stage.onTheWay, if_true] at hWay
  refine ⟨⟨new ++ [{ id := uuid }], ?_, ?_⟩, fun hNone => ?_, fun row hRow => ?_⟩
  · simp only [Store.createUser, hUsers, List.append_assoc]
  · simp only [decide_true, if_true, reduceCtorEq, decide_false, Bool.false_eq_true, if_false,
      Nat.add_zero] at hCreating
    simp only [goTo, List.length_append, List.length_singleton]
    omega
  · obtain ⟨hMissed, hAll⟩ := hInv.nobody hNone
    refine ⟨?_, Sequence.forall_mem_set hAll trivial⟩
    simp only [goTo]
    omega
  · obtain ⟨hActive, hFew, hAll⟩ := hInv.owned row hRow
    refine ⟨hActive, ?_, Sequence.forall_mem_set hAll trivial⟩
    simp only [goTo]
    omega

/-- The insert of `link`: the account has an owner now. -/
theorem Inv.insert (hInv : Inv base s) (hNone : s.store.find s.account = none) {user : UserId}
    (hStage : s.calls[k]? = some (.inserting user)) {store : Store}
    (hFind : store.find s.account = some { userId := user, account := s.account })
    (hUsers' : store.users = s.store.users) :
    Inv base { s.goTo k (.returned user) with store } := by
  obtain ⟨new, hUsers, hCount⟩ := hInv.minted
  obtain ⟨hMissed, hAll⟩ := hInv.nobody hNone
  refine ⟨⟨new, hUsers'.trans hUsers, ?_⟩, fun hNone' => ?_, fun row hRow => ?_⟩
  · have hSet := countP_set (· = .creating) (.returned user) hStage
    simp only [reduceCtorEq, decide_false, Bool.false_eq_true, if_false, Nat.add_zero] at hSet
    simp only [goTo, hSet, hCount]
  · exact absurd (hFind.symm.trans hNone') (by simp)
  · obtain rfl := Option.some.inj (hFind.symm.trans hRow)
    have hSet := countP_set Stage.onTheWay (.returned user) hStage
    simp only [Stage.onTheWay, if_true, Bool.false_eq_true, if_false] at hSet
    refine ⟨rfl, ?_, Sequence.forall_mem_set (fun stage hStage => ?_) rfl⟩
    · simp only [goTo]
      omega
    · have hEarly := hAll stage hStage
      cases stage <;> trivial

/-- The first look-up finds nobody. -/
theorem Inv.miss (hInv : Inv base s) (hNone : s.store.find s.account = none)
    (hStage : s.calls[k]? = some .resolving) :
    Inv base { s.goTo k .creating with missed := s.missed + 1 } := by
  obtain ⟨new, hUsers, hCount⟩ := hInv.minted
  obtain ⟨hMissed, hAll⟩ := hInv.nobody hNone
  refine ⟨⟨new, hUsers, ?_⟩, fun _ => ⟨?_, Sequence.forall_mem_set hAll trivial⟩, fun row hRow => ?_⟩
  · have hSet := countP_set (· = .creating) .creating hStage
    simp only [reduceCtorEq, decide_false, decide_true, Bool.false_eq_true, if_false, if_true,
      Nat.add_zero] at hSet
    simp only [goTo]
    omega
  · have hSet := countP_set Stage.onTheWay .creating hStage
    simp only [Stage.onTheWay, if_true, Bool.false_eq_true, if_false] at hSet
    simp only [goTo]
    omega
  · exact absurd (hNone.symm.trans hRow) (by simp)

theorem Inv.revive (hInv : Inv base s) {row : UserIdentityRow}
    (hRow : s.store.find s.account = some row) {user : UserId}
    (hStage : s.calls[k]? = some (.reviving user)) :
    Inv base { s.goTo k (.returned user) with store := s.store.revive s.account } := by
  have hActive := (hInv.owned row hRow).1
  have hHeads := (hInv.owned row hRow).2.2 _ (List.mem_of_getElem? hStage)
  have hGone : Inv base (s.goTo k (.returned user)) :=
    hInv.goTo_owned hRow hStage hHeads (fun _ => rfl) (by simp) (by simp)
  have hSame : (s.store.revive s.account).find s.account = s.store.find s.account := by
    rw [Store.find_revive hRow, hRow, ← hActive]
  refine ⟨hGone.minted, fun hNone => ?_, fun row' hRow' => ?_⟩
  · exact hGone.nobody (hSame.symm.trans hNone)
  · exact hGone.owned row' (hSame.symm.trans hRow')

theorem resolve_of_nobody (hNone : s.store.find s.account = none) :
    s.store.resolve s.account = none := by
  rw [Store.resolve_eq, hNone, Option.bind_none]

theorem resolve_of_owned (hInv : Inv base s) {row : UserIdentityRow}
    (hRow : s.store.find s.account = some row) : s.store.resolve s.account = some row.userId := by
  rw [Store.resolve_eq, hRow, Option.bind_some, if_pos (hInv.owned row hRow).1]

/-- A call goes on, and the account has an owner. -/
theorem Inv.resume_owned (hInv : Inv base s) {row : UserIdentityRow} {uuid : UserId}
    (hRow : s.store.find s.account = some row) (hStage : s.calls[k]? = some stage)
    {s' : Onboarding} (hStep : s.resume k uuid stage = some s') : Inv base s' := by
  have hResolve := resolve_of_owned hInv hRow
  cases stage with
  | resolving =>
      simp only [resume, hResolve, Option.some.injEq] at hStep
      subst hStep
      exact hInv.goTo_owned hRow hStage rfl (fun hNo => hNo) (by simp) (by simp)
  | creating =>
      simp only [resume] at hStep
      split at hStep
      · rename_i hFresh
        obtain rfl := Option.some.inj hStep
        exact hInv.create hStage hFresh
      · exact absurd hStep (by simp)
  | finding user =>
      simp only [resume, hRow] at hStep
      split at hStep
      · obtain rfl := Option.some.inj hStep
        exact hInv.goTo_owned hRow hStage trivial (fun _ => rfl) (by simp) (by simp)
      · rename_i hOwn
        obtain rfl := Option.some.inj hStep
        exact hInv.goTo_owned hRow hStage (not_not.mp hOwn).symm (fun _ => rfl) (by simp) (by simp)
  | inserting user =>
      -- The account is taken, and the insertion is refused.
      have hTaken : s.store.insertIdentity { userId := user, account := s.account } = none :=
        Store.insertIdentity_of_some hRow
      simp only [resume, hTaken, Option.some.injEq] at hStep
      subst hStep
      exact hInv.goTo_owned hRow hStage trivial (fun _ => rfl) (by simp) (by simp)
  | reviving user =>
      simp only [resume, Option.some.injEq] at hStep
      subst hStep
      exact hInv.revive hRow hStage
  | rereading =>
      simp only [resume, hResolve, Option.some.injEq] at hStep
      subst hStep
      exact hInv.goTo_owned hRow hStage rfl (fun hNo => hNo) (by simp) (by simp)
  | returned user => simp [resume] at hStep
  | raised => simp [resume] at hStep

/-- A call goes on, and nobody has the account. -/
theorem Inv.resume_nobody (hInv : Inv base s) {uuid : UserId}
    (hNone : s.store.find s.account = none) (hStage : s.calls[k]? = some stage)
    {s' : Onboarding} (hStep : s.resume k uuid stage = some s') : Inv base s' := by
  have hEarly := (hInv.nobody hNone).2 stage (List.mem_of_getElem? hStage)
  cases stage with
  | resolving =>
      simp only [resume, resolve_of_nobody hNone, Option.some.injEq] at hStep
      subst hStep
      exact hInv.miss hNone hStage
  | creating =>
      simp only [resume] at hStep
      split at hStep
      · rename_i hFresh
        obtain rfl := Option.some.inj hStep
        exact hInv.create hStage hFresh
      · exact absurd hStep (by simp)
  | finding user =>
      simp only [resume, hNone, Option.some.injEq] at hStep
      subst hStep
      exact hInv.goTo_nobody hNone hStage trivial rfl (by simp) (by simp)
  | inserting user =>
      obtain ⟨store, hInsert, hFind, hUsers⟩ :=
        @Store.insertIdentity_of_none s.store { userId := user, account := s.account } hNone
      simp only [resume, hInsert, Option.some.injEq] at hStep
      subst hStep
      exact hInv.insert hNone hStage hFind hUsers
  | reviving user => exact absurd hEarly id
  | rereading => exact absurd hEarly id
  | returned user => exact absurd hEarly id
  | raised => exact absurd hEarly id

theorem Inv.call (hInv : Inv base s) : Inv base { s with calls := s.calls ++ [.resolving] } := by
  obtain ⟨new, hUsers, hCount⟩ := hInv.minted
  have hMore : ∀ {P : Stage → Prop}, (∀ stage ∈ s.calls, P stage) → P .resolving →
      ∀ stage ∈ s.calls ++ [.resolving], P stage := by
    intro P hAll hNew stage hStage
    rcases List.mem_append.mp hStage with hOld | hLast
    · exact hAll stage hOld
    · exact List.mem_singleton.mp hLast ▸ hNew
  refine ⟨⟨new, hUsers, ?_⟩, fun hNone => ?_, fun row hRow => ?_⟩
  · simpa [List.countP_append] using hCount
  · obtain ⟨hMissed, hAll⟩ := hInv.nobody hNone
    exact ⟨by simpa [List.countP_append, Stage.onTheWay] using hMissed, hMore hAll trivial⟩
  · obtain ⟨hActive, hFew, hAll⟩ := hInv.owned row hRow
    exact ⟨hActive, by simpa [List.countP_append, Stage.onTheWay] using hFew, hMore hAll trivial⟩

theorem keeps_step (m : Move) {s' : Onboarding} (hInv : Inv base s)
    (hStep : machine.step s m = some s') : Inv base s' := by
  cases m with
  | call =>
      obtain rfl := Option.some.inj hStep
      exact hInv.call
  | resume k uuid =>
      obtain ⟨stage, hStage, hResume⟩ := Option.bind_eq_some_iff.mp hStep
      cases hFind : s.store.find s.account with
      | none => exact hInv.resume_nobody hFind hStage hResume
      | some row => exact hInv.resume_owned hFind hStage hResume

/-! ## How many people are minted -/

theorem missed_resume {uuid : UserId} {s' : Onboarding} (hStage : stage ≠ .resolving)
    (hStep : s.resume k uuid stage = some s') : s'.missed = s.missed := by
  cases stage with
  | resolving => exact absurd rfl hStage
  | creating =>
      simp only [resume, Option.dite_none_right_eq_some] at hStep
      obtain ⟨hFresh, hStep⟩ := hStep
      obtain rfl := Option.some.inj hStep
      rfl
  | finding user =>
      simp only [resume] at hStep
      split at hStep
      · split at hStep <;> (obtain rfl := Option.some.inj hStep; rfl)
      · obtain rfl := Option.some.inj hStep
        rfl
  | inserting user =>
      simp only [resume] at hStep
      split at hStep <;> (obtain rfl := Option.some.inj hStep; rfl)
  | reviving user =>
      obtain rfl := Option.some.inj hStep
      rfl
  | rereading =>
      simp only [resume] at hStep
      split at hStep <;> (obtain rfl := Option.some.inj hStep; rfl)
  | returned user => simp [resume] at hStep
  | raised => simp [resume] at hStep

/-- Nobody is minted, or a call has found nobody. -/
theorem missed_step {m : Move} {s' : Onboarding} (hInv : Inv base s)
    (hStep : machine.step s m = some s') :
    s'.missed = s.missed ∨ s'.missed = s.missed + 1 ∧ s.store.find s.account = none ∧
      ∃ k uuid, m = .resume k uuid ∧ s.calls[k]? = some .resolving := by
  cases m with
  | call =>
      obtain rfl := Option.some.inj hStep
      exact .inl rfl
  | resume k uuid =>
      obtain ⟨stage, hStage, hResume⟩ := Option.bind_eq_some_iff.mp hStep
      by_cases hFirst : stage = .resolving
      · subst hFirst
        cases hFind : s.store.find s.account with
        | none =>
            simp only [resume, resolve_of_nobody hFind, Option.some.injEq] at hResume
            subst hResume
            exact .inr ⟨rfl, rfl, k, uuid, rfl, hStage⟩
        | some row =>
            simp only [resume, resolve_of_owned hInv hFind, Option.some.injEq] at hResume
            subst hResume
            exact .inl rfl
      · exact .inl (missed_resume hFirst hResume)

/-- One at a time, the calls mint one person at most. -/
theorem missed_le_one {m : Move} {s' : Onboarding} (hInv : Inv base s) (hFew : s.missed ≤ 1)
    (hOne : s.oneAtATime m = true) (hStep : machine.step s m = some s') : s'.missed ≤ 1 := by
  rcases missed_step hInv hStep with hSame | ⟨hMore, hNone, k, uuid, rfl, hStage⟩
  · omega
  · have hMissed := (hInv.nobody hNone).1
    simp only [oneAtATime, hStage, Option.all_some, ne_eq, not_true_eq_false, decide_false,
      Bool.false_or, decide_eq_true_iff] at hOne
    omega

/-- Otherwise two are minted. -/
theorem two_le_missed {m : Move} {s' : Onboarding} (hInv : Inv base s)
    (hNotOne : s.oneAtATime m = false) (hStep : machine.step s m = some s') : 2 ≤ s'.missed := by
  cases m with
  | call => exact absurd hNotOne (by simp [oneAtATime])
  | resume k uuid =>
      obtain ⟨stage, hStage, hResume⟩ := Option.bind_eq_some_iff.mp hStep
      simp only [oneAtATime, hStage, Option.all_some, ne_eq, Bool.or_eq_false_iff,
        decide_eq_false_iff_not, not_not] at hNotOne
      obtain ⟨rfl, hWay⟩ := hNotOne
      cases hFind : s.store.find s.account with
      | none =>
          have hMissed := (hInv.nobody hFind).1
          simp only [resume, resolve_of_nobody hFind, Option.some.injEq] at hResume
          subst hResume
          change 2 ≤ s.missed + 1
          omega
      | some row =>
          have hFew := (hInv.owned row hFind).2.1
          simp only [resume, resolve_of_owned hInv hFind, Option.some.injEq] at hResume
          subst hResume
          change 2 ≤ s.missed
          omega

section Runs

variable {store : Store} {account : Account} {moves : List Move}

theorem inv_initial (hNew : store.find account = none) : Inv store.users { store, account } := by
  refine ⟨⟨[], by simp, rfl⟩, fun _ => ⟨rfl, by simp⟩, fun row hRow => ?_⟩
  exact absurd (hNew.symm.trans hRow) (by simp)

theorem inv_run (hNew : store.find account = none)
    (hRun : machine.run moves { store, account } = some s) : Inv store.users s :=
  Machine.run_keeps (fun _ m _ hInv hStep => keeps_step m hInv hStep) (inv_initial hNew) hRun

theorem missed_run {s' : Onboarding} (hInv : Inv base s) (hRun : machine.run moves s = some s') :
    s.missed ≤ s'.missed := by
  have hBoth : Inv base s' ∧ s.missed ≤ s'.missed := by
    refine Machine.run_keeps (I := fun t => Inv base t ∧ s.missed ≤ t.missed) ?_
      ⟨hInv, Nat.le_refl _⟩ hRun
    rintro t m t' ⟨hInvT, hLe⟩ hStep
    refine ⟨keeps_step m hInvT hStep, ?_⟩
    rcases missed_step hInvT hStep with hSame | ⟨hMore, -⟩ <;> omega
  exact hBoth.2

/-- One person is minted in exactly those runs in which the calls come one at a time. -/
theorem missed_le_one_iff (hNew : store.find account = none)
    (hRun : machine.run moves { store, account } = some s) :
    s.missed ≤ 1 ↔ machine.always oneAtATime moves { store, account } = true := by
  constructor
  · intro hFew
    by_contra hNot
    obtain ⟨before, m, after, s₁, s₂, -, hBefore, hStep, hCond, hAfter⟩ :=
      Machine.exists_of_not_always hRun (by simpa using hNot)
    have hInv := inv_run hNew hBefore
    have hTwo := two_le_missed hInv hCond hStep
    have hGrow := missed_run (keeps_step m hInv hStep) hAfter
    omega
  · intro hAlways
    refine (Machine.run_keeps_of_always (I := fun t => Inv store.users t ∧ t.missed ≤ 1) ?_
      ⟨inv_initial hNew, Nat.zero_le 1⟩ hAlways hRun).2
    rintro t m t' ⟨hInv, hFew⟩ hOne hStep
    exact ⟨keeps_step m hInv hStep, missed_le_one hInv hFew hOne hStep⟩

/-- All calls come home with one person, however they overlap. -/
theorem same_person (hNew : store.find account = none)
    (hRun : machine.run moves { store, account } = some s) (hSome : s.calls ≠ [])
    (hEnded : ∀ stage ∈ s.calls, stage.hasEnded = true) :
    (∃ user, ∀ stage ∈ s.calls, stage = .returned user) ∧
      ∃ new, s.store.users = store.users ++ new ∧ new.length = s.missed ∧ 1 ≤ s.missed := by
  have hInv := inv_run hNew hRun
  obtain ⟨new, hUsers, hCount⟩ := hInv.minted
  have hCreating : s.calls.countP (· = .creating) = 0 := by
    rw [List.countP_eq_zero]
    intro stage hStage hIs
    have hEnd := hEnded stage hStage
    rw [of_decide_eq_true hIs] at hEnd
    exact absurd hEnd (by decide)
  cases hFind : s.store.find s.account with
  | none =>
      obtain ⟨stage, rest, hCalls⟩ := List.exists_cons_of_ne_nil hSome
      have hMem : stage ∈ s.calls := hCalls ▸ List.mem_cons_self
      have hEarly := (hInv.nobody hFind).2 stage hMem
      have hEnd := hEnded stage hMem
      cases stage <;> first | exact absurd hEarly id | exact absurd hEnd (by simp [Stage.hasEnded])
  | some row =>
      obtain ⟨-, hFew, hAll⟩ := hInv.owned row hFind
      refine ⟨⟨row.userId, fun stage hStage => ?_⟩, new, hUsers, by omega, by omega⟩
      have hHeads := hAll stage hStage
      have hEnd := hEnded stage hStage
      cases stage with
      | returned user => exact congrArg Stage.returned hHeads
      | raised => exact absurd hHeads id
      | _ => exact absurd hEnd (by simp [Stage.hasEnded])

/-- The calls make one person in exactly those runs in which none of them looks the account
up while another one that has found nobody is still on the way. -/
theorem one_person_iff (hNew : store.find account = none)
    (hRun : machine.run moves { store, account } = some s) (hSome : s.calls ≠ [])
    (hEnded : ∀ stage ∈ s.calls, stage.hasEnded = true) :
    ((∃ user, ∀ stage ∈ s.calls, stage = .returned user) ∧
        ∃ row, s.store.users = store.users ++ [row]) ↔
      machine.always oneAtATime moves { store, account } = true := by
  obtain ⟨hSame, new, hUsers, hLength, hOne⟩ := same_person hNew hRun hSome hEnded
  rw [← missed_le_one_iff hNew hRun]
  constructor
  · rintro ⟨-, row, hRow⟩
    have hNewRow : new = [row] := List.append_cancel_left (hUsers.symm.trans hRow)
    simp [← hLength, hNewRow]
  · intro hFew
    obtain ⟨row, hRow⟩ := List.length_eq_one_iff.mp (hLength.trans (Nat.le_antisymm hFew hOne))
    exact ⟨hSame, row, hRow ▸ hUsers⟩

/-- A first message, and nothing else. -/
def firstContact : List Move :=
  [.call, .resume 0 "", .resume 0 "u1", .resume 0 "", .resume 0 ""]

def telegramAccount : Account := { surface := "telegram", externalId := "42" }

theorem one_person_of_firstContact :
    ∃ s, machine.run firstContact { store := {}, account := telegramAccount } = some s ∧
      (∃ user, ∀ stage ∈ s.calls, stage = .returned user) ∧
        ∃ row, s.store.users = [] ++ [row] := by
  have hRuns : (machine.run firstContact { store := {}, account := telegramAccount }).map
      (·.calls) = some [.returned "u1"] := by decide +kernel
  obtain ⟨s, hRun, hCalls⟩ := Option.map_eq_some_iff.mp hRuns
  refine ⟨s, hRun, (one_person_iff rfl hRun ?_ ?_).mpr (by decide +kernel)⟩
  · rw [hCalls]
    exact List.cons_ne_nil _ _
  · rw [hCalls]
    decide

/-- Two first messages at once. -/
def twoFirstMessages : List Move :=
  [.call, .call, .resume 0 "", .resume 1 "", .resume 0 "u1", .resume 1 "u2", .resume 0 "",
    .resume 0 "", .resume 1 "", .resume 1 ""]

/-- Both calls come home with the first person, and the second one stays in the store. -/
theorem two_people_minted :
    ∃ s, machine.run twoFirstMessages { store := {}, account := telegramAccount } = some s ∧
      s.calls = [.returned "u1", .returned "u1"] ∧
        s.store.users = [{ id := "u1" }, { id := "u2" }] ∧
          ¬ ∃ row, s.store.users = ({} : Store).users ++ [row] := by
  have hRuns : (machine.run twoFirstMessages { store := {}, account := telegramAccount }).map
      (fun s => (s.calls, s.store.users)) =
        some ([.returned "u1", .returned "u1"], [{ id := "u1" }, { id := "u2" }]) := by
    decide +kernel
  obtain ⟨s, hRun, hEnd⟩ := Option.map_eq_some_iff.mp hRuns
  simp only [Prod.mk.injEq] at hEnd
  obtain ⟨hCalls, hUsers⟩ := hEnd
  refine ⟨s, hRun, hCalls, hUsers, ?_⟩
  rintro ⟨row, hRow⟩
  have hLength := congrArg List.length (hUsers.symm.trans hRow)
  simp at hLength

end Runs

end Onboarding
end Identity
end OctoForge
