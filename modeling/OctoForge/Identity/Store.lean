import Mathlib.Data.List.Nodup
import OctoForge.Sequence.Keyed

/-!
# Users and identities

A user has an id that means nothing, and every surface records what it calls them.  The
two constraints of the database are fields of the store: the id of a user is a primary
key, and an account of a surface belongs to at most one row.
-/

namespace OctoForge
namespace Identity

abbrev UserId := String

inductive UserStatus where
  | waiting
  | active
  | banned
  deriving DecidableEq, Repr

/-- `UserRow`.  Everyone is born waiting. -/
structure UserRow where
  id : UserId
  status : UserStatus := .waiting
  deriving DecidableEq, Repr

/-- What a surface calls a user. -/
structure Account where
  surface : String
  externalId : String
  deriving DecidableEq, Repr

/-- `UserIdentityRow`. -/
structure UserIdentityRow where
  userId : UserId
  account : Account
  active : Bool := true
  deriving DecidableEq, Repr

/-- Statuses that are written, or have been read. -/
abbrev Written := UserId → Option UserStatus

namespace Written

def none : Written := fun _ => Option.none

def set (written : Written) (user : UserId) (status : UserStatus) : Written :=
  fun other => if other = user then some status else written other

def row (written : Written) (row : UserRow) : UserRow :=
  { row with status := (written row.id).getD row.status }

end Written

structure Store where
  users : List UserRow := []
  identities : List UserIdentityRow := []
  primaryKey : (users.map (·.id)).Nodup := by decide
  oneAccount : (identities.map (·.account)).Nodup := by decide

namespace Store

variable (s : Store)

/-- `_find`. -/
def find (account : Account) : Option UserIdentityRow :=
  s.identities.find? fun row => row.account = account

/-- `resolve`: a revoked identity resolves to nobody. -/
def resolve (account : Account) : Option UserId :=
  (s.identities.find? fun row => row.account = account && row.active).map (·.userId)

/-- `create_user`, with the id it has drawn. -/
def createUser (id : UserId) (hFresh : id ∉ s.users.map (·.id)) : Store :=
  { s with
    users := s.users ++ [{ id }]
    primaryKey := by
      rw [List.map_append, List.map_singleton, ← List.concat_eq_append]
      exact List.Nodup.concat hFresh s.primaryKey }

/-- The insert of `link`: `none` where the account is taken, which is what the unique
constraint says. -/
def insertIdentity (row : UserIdentityRow) : Option Store :=
  if hTaken : row.account ∈ s.identities.map (·.account) then none
  else
    some { s with
      identities := s.identities ++ [row]
      oneAccount := by
        rw [List.map_append, List.map_singleton, ← List.concat_eq_append]
        exact List.Nodup.concat hTaken s.oneAccount }

/-- The other branch of `link`: coming back is not a conflict. -/
def revive (account : Account) : Store :=
  { s with
    identities := s.identities.map fun row =>
      if row.account = account then { row with active := true } else row
    oneAccount := by
      have hSame : (s.identities.map fun row =>
          if row.account = account then { row with active := true } else row).map (·.account) =
          s.identities.map (·.account) := by
        rw [List.map_map]
        refine List.map_congr_left fun row _ => ?_
        simp only [Function.comp_apply]
        split <;> rfl
      rw [hSame]
      exact s.oneAccount }

/-- The store after the statuses in `written` have been written. -/
def write (written : Written) : Store :=
  { s with
    users := s.users.map written.row
    primaryKey := by
      rw [List.map_map]
      exact s.primaryKey }

/-- The status of a user, if there is such a user. -/
def status (userId : UserId) : Option UserStatus :=
  (s.users.find? fun row => row.id = userId).map (·.status)

def activeCount : Nat := s.users.countP fun row => row.status = .active

/-! ## Accounts -/

variable {s} {account : Account}

theorem find_eq_none : s.find account = none ↔ account ∉ s.identities.map (·.account) := by
  simp [find]

theorem find_eq_some {row : UserIdentityRow} :
    s.find account = some row ↔ row ∈ s.identities ∧ row.account = account :=
  Sequence.find?_key_eq_some s.oneAccount

/-- An account has one row, so looking for an active row is looking whether it is active. -/
theorem resolve_eq (s : Store) (account : Account) :
    s.resolve account =
      (s.find account).bind fun row => if row.active then some row.userId else none := by
  cases hFind : s.find account with
  | none =>
      have hNone := find_eq_none.mp hFind
      simp only [resolve, Option.bind_none, Option.map_eq_none_iff, List.find?_eq_none]
      intro row hRow hIs
      rw [Bool.and_eq_true, decide_eq_true_iff] at hIs
      exact hNone (hIs.1 ▸ List.mem_map_of_mem hRow)
  | some row =>
      obtain ⟨hMem, rfl⟩ := find_eq_some.mp hFind
      -- The account is the key of the table.
      have hOnly : ∀ other ∈ s.identities, other.account = row.account → other = row :=
        fun other hOther => List.inj_on_of_nodup_map s.oneAccount hOther hMem
      rw [Option.bind_some]
      split
      · rename_i hActive
        cases hSearch : s.identities.find? fun other =>
            other.account = row.account && other.active with
        | none =>
            have hNot := List.find?_eq_none.mp hSearch row hMem
            simp [hActive] at hNot
        | some other =>
            have hIs := List.find?_some hSearch
            rw [Bool.and_eq_true, decide_eq_true_iff] at hIs
            rw [resolve, hSearch, hOnly other (List.mem_of_find?_eq_some hSearch) hIs.1]
            rfl
      · rename_i hInactive
        simp only [resolve, Option.map_eq_none_iff, List.find?_eq_none]
        intro other hOther hIs
        rw [Bool.and_eq_true, decide_eq_true_iff] at hIs
        exact hInactive (hOnly other hOther hIs.1 ▸ hIs.2)

theorem insertIdentity_of_none {row : UserIdentityRow} (hFind : s.find row.account = none) :
    ∃ s', s.insertIdentity row = some s' ∧ s'.find row.account = some row ∧ s'.users = s.users := by
  have hFree := find_eq_none.mp hFind
  refine ⟨_, dif_neg hFree, find_eq_some.mpr ⟨?_, rfl⟩, rfl⟩
  exact List.mem_append_right _ (List.mem_singleton_self row)

theorem insertIdentity_of_some {row other : UserIdentityRow}
    (hFind : s.find row.account = some other) : s.insertIdentity row = none := by
  obtain ⟨hMem, hAccount⟩ := find_eq_some.mp hFind
  exact dif_pos (hAccount ▸ List.mem_map_of_mem hMem)

theorem find_revive {row : UserIdentityRow} (hFind : s.find account = some row) :
    (s.revive account).find account = some { row with active := true } := by
  obtain ⟨hMem, hAccount⟩ := find_eq_some.mp hFind
  refine find_eq_some.mpr ⟨List.mem_map.mpr ⟨row, hMem, ?_⟩, hAccount⟩
  rw [if_pos hAccount]

/-! ## Statuses -/

/-- One waiting user has become active, and nothing else has changed. -/
def Activated (user : UserId) (before after : List UserRow) : Prop :=
  ∃ above row below, before = above ++ row :: below ∧ row.id = user ∧ row.status = .waiting ∧
    after = above ++ { row with status := .active } :: below

@[simp] theorem write_none (s : Store) : s.write Written.none = s := by
  have hUsers : s.users.map Written.none.row = s.users := List.map_id _
  cases s
  simp only [write, Store.mk.injEq, and_true]
  exact hUsers

theorem write_set (s : Store) (written : Written) (user : UserId) (status : UserStatus) :
    s.write (written.set user status) = (s.write written).write (Written.none.set user status) := by
  simp only [write, Store.mk.injEq, and_true, List.map_map]
  refine List.map_congr_left fun row _ => ?_
  by_cases hIs : row.id = user <;> simp [Written.row, Written.set, Written.none, hIs]

theorem status_write (s : Store) (written : Written) (user : UserId) :
    (s.write written).status user = (s.status user).map ((written user).getD ·) := by
  have hSearch : (s.write written).users.find? (fun row => row.id = user) =
      (s.users.find? fun row => row.id = user).map written.row := List.find?_map ..
  rw [status, hSearch, status, Option.map_map, Option.map_map]
  refine Option.map_congr fun row hRow => ?_
  have hUser : row.id = user := by simpa using List.find?_some hRow
  simp [Written.row, hUser]

/-- A row that is active after a write has been made so, or was before. -/
theorem active_of_row {written : Written} {row : UserRow}
    (hAway : ∀ user status, written user = some status → status ≠ .active)
    (hActive : (written.row row).status = .active) : row.status = .active := by
  change (written row.id).getD row.status = .active at hActive
  cases hWritten : written row.id with
  | none => rwa [hWritten, Option.getD_none] at hActive
  | some status =>
      rw [hWritten, Option.getD_some] at hActive
      exact absurd hActive (hAway row.id status hWritten)

/-- Where nobody is made active, nobody more is. -/
theorem activeCount_write_le {written : Written}
    (hAway : ∀ user status, written user = some status → status ≠ .active) :
    (s.write written).activeCount ≤ s.activeCount := by
  simp only [activeCount, write, List.countP_map]
  refine List.countP_mono_left fun row _ hActive => decide_eq_true ?_
  exact active_of_row hAway (of_decide_eq_true hActive)

/-- The same, seen by somebody who has written rows of his own. -/
theorem activeCount_write_write_le {written written' : Written}
    (hAway : ∀ user status, written user = some status → status ≠ .active) :
    ((s.write written).write written').activeCount ≤ (s.write written').activeCount := by
  simp only [activeCount, write, List.countP_map]
  refine List.countP_mono_left fun row _ hActive => decide_eq_true ?_
  have hBoth : (written'.row (written.row row)).status = .active := of_decide_eq_true hActive
  change (written' row.id).getD (written.row row).status = .active at hBoth
  change (written' row.id).getD row.status = .active
  cases hOwn : written' row.id with
  | some status => rwa [hOwn] at hBoth
  | none =>
      rw [hOwn, Option.getD_none] at hBoth
      exact active_of_row hAway hBoth

theorem activated_write {user : UserId} (hWaiting : s.status user = some .waiting)
    {written : Written} (hUser : written user = some .active)
    (hOther : ∀ other, other ≠ user → written other = none) :
    Activated user s.users (s.write written).users := by
  simp only [status, Option.map_eq_some_iff] at hWaiting
  obtain ⟨row, hFind, hStatus⟩ := hWaiting
  obtain ⟨hId, above, below, hUsers, -⟩ := List.find?_eq_some_iff_append.mp hFind
  have hRow : row.id = user := by simpa using hId
  have hKeys := s.primaryKey
  rw [hUsers, List.map_append, List.map_cons, List.nodup_middle, List.nodup_cons] at hKeys
  have hSame : ∀ other ∈ above ++ below, written.row other = other := by
    intro other hMem
    have hNot : other.id ≠ user := by
      rintro hIs
      refine hKeys.1 (hRow.trans hIs.symm ▸ ?_)
      rw [← List.map_append]
      exact List.mem_map_of_mem hMem
    simp [Written.row, hOther other.id hNot]
  refine ⟨above, row, below, hUsers, hRow, hStatus, ?_⟩
  have hAbove : above.map written.row = above :=
    (List.map_congr_left fun other hMem => hSame other (List.mem_append_left _ hMem)).trans
      (List.map_id' above)
  have hBelow : below.map written.row = below :=
    (List.map_congr_left fun other hMem => hSame other (List.mem_append_right _ hMem)).trans
      (List.map_id' below)
  simp only [write, hUsers, List.map_append, List.map_cons, hAbove, hBelow]
  simp [Written.row, hRow, hUser]

/-- A waiting user is made active by somebody who has written other things. -/
theorem activated_write_set {written : Written} {user : UserId}
    (hWaiting : (s.write written).status user = some .waiting) :
    Activated user (s.write written).users (s.write (written.set user .active)).users := by
  rw [write_set]
  refine activated_write hWaiting (by simp [Written.set]) fun other hOther => ?_
  simp [Written.set, hOther, Written.none]

theorem activeCount_of_activated {user : UserId} {s' : Store}
    (hActivated : Activated user s.users s'.users) : s'.activeCount = s.activeCount + 1 := by
  obtain ⟨above, row, below, hUsers, -, hWaiting, hUsers'⟩ := hActivated
  simp only [activeCount, hUsers, hUsers', List.countP_append, List.countP_cons, hWaiting]
  simp only [reduceCtorEq, decide_false, decide_true, Bool.false_eq_true, if_false, if_true]
  omega

end Store
end Identity
end OctoForge
