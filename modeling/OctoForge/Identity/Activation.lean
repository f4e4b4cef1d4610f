import OctoForge.Coop.Machine
import OctoForge.Identity.Store
import OctoForge.Sequence.Places

/-!
# The cap on active people

`try_activate` takes the advisory lock of its transaction and then counts and flips in one
UPDATE.  A call made inside a unit of work shares the transaction of the unit, and the lock
is kept until that one ends.  Transactions read what has been committed and what they have
written themselves; a row that somebody has written is locked until his transaction ends,
and an UPDATE that has waited for it looks at the row once more, but not at the count.

Where the database has only one writer at a time there are fewer interleavings than here.

`returned` is read by nothing: it keeps what the calls have answered, each with the users
before and after.
-/

namespace OctoForge
namespace Identity

open Coop

inductive Call where
  | tryActivate (user : UserId)
  | setStatus (user : UserId) (status : UserStatus)
  deriving DecidableEq, Repr

/-- The `await` a session is at. -/
inductive Await where
  /-- A unit of work between two calls. -/
  | idle
  /-- `pg_advisory_xact_lock`. -/
  | locking (user : UserId)
  /-- The UPDATE of `try_activate`: the snapshot. -/
  | counting (user : UserId)
  /-- The same UPDATE: the row. -/
  | flipping (user : UserId)
  /-- `session.get`. -/
  | loading (user : UserId) (status : UserStatus)
  /-- The flush of `set_status`. -/
  | flushing (user : UserId) (status loaded : UserStatus)
  /-- The commit at the end of a session the call has opened itself. -/
  | leaving (answer : Option (UserId × Bool))
  | closed
  deriving DecidableEq, Repr

structure Session where
  /-- The call has opened it itself (`owned`), or it is a unit of work. -/
  owned : Bool
  stage : Await
  locked : Bool := false
  written : Written := Written.none
  /-- The statuses of the rows it has loaded. -/
  loaded : Written := Written.none

structure Reply where
  user : UserId
  result : Bool
  before : List UserRow
  after : List UserRow
  deriving DecidableEq, Repr

structure Activation where
  store : Store
  /-- `max_active`. -/
  cap : Nat
  sessions : List Session := []
  returned : List Reply := []

def Call.start : Call → Await
  | .tryActivate user => .locking user
  | .setStatus user status => .loading user status

/-- `set_status` is called to move somebody away from being active. -/
def Call.isAway : Call → Bool
  | .tryActivate _ => true
  | .setStatus _ status => status ≠ .active

namespace Activation

variable (s : Activation)

def put (k : Nat) (session : Session) : Activation := { s with sessions := s.sessions.set k session }

/-- What a session sees. -/
def view (session : Session) : Store := s.store.write session.written

def others (k : Nat) : List Session := s.sessions.eraseIdx k

/-- No other transaction has written the row. -/
def isFree (k : Nat) (user : UserId) : Bool :=
  (s.others k).all fun other => other.written user = none

/-- A call of `try_activate` has its answer.  It returns when its own session has been
committed, and at once inside a unit of work. -/
def answer (k : Nat) (session : Session) (user : UserId) (result : Bool) (written : Written) :
    Activation :=
  if session.owned then s.put k { session with stage := .leaving (some (user, result)), written }
  else
    { s.put k { session with stage := .idle, written } with
      returned := s.returned ++
        [{ user, result, before := (s.view session).users, after := (s.store.write written).users }] }

/-- `set_status` is through. -/
def finish (k : Nat) (session : Session) (written : Written) : Activation :=
  s.put k { session with stage := if session.owned then .leaving none else .idle, written }

def close (session : Session) : Session :=
  { session with stage := .closed, locked := false, written := Written.none }

def commit (k : Nat) (session : Session) (replies : List Reply) : Activation :=
  { s.put k (close session) with
    store := s.view session
    returned := s.returned ++ replies }

def resume (k : Nat) (session : Session) : Option Activation :=
  match session.stage with
  | .locking user =>
      if (s.others k).all fun other => !other.locked then
        some (s.put k { session with stage := .counting user, locked := true })
      else none
  | .counting user =>
      if (s.view session).status user = some .waiting ∧ (s.view session).activeCount < s.cap then
        some (s.put k { session with stage := .flipping user })
      else some (s.answer k session user false session.written)
  | .flipping user =>
      if s.isFree k user then
        if (s.view session).status user = some .waiting then
          some (s.answer k { session with loaded := session.loaded.set user .active } user true
            (session.written.set user .active))
        else some (s.answer k session user false session.written)
      else none
  | .loading user status =>
      match (session.loaded user).or ((s.view session).status user) with
      | some loaded =>
          some (s.put k { session with
            stage := .flushing user status loaded, loaded := session.loaded.set user status })
      -- `UserNotFoundError`
      | none => some (s.put k (if session.owned then close session else { session with stage := .idle }))
  | .flushing user status loaded =>
      if loaded = status then some (s.finish k session session.written)
      else if s.isFree k user then some (s.finish k session (session.written.set user status))
      else none
  | .leaving (some (user, result)) =>
      some (s.commit k session
        [{ user, result, before := s.store.users, after := (s.view session).users }])
  | .leaving none => some (s.commit k session [])
  | .idle => none
  | .closed => none

inductive Move where
  /-- A call outside a unit of work. -/
  | call (call : Call)
  /-- A unit of work is opened. -/
  | unit
  | callInside (k : Nat) (call : Call)
  | resume (k : Nat)
  /-- A unit of work ends. -/
  | commit (k : Nat)
  /-- A transaction fails, or is given up. -/
  | rollback (k : Nat)
  deriving DecidableEq, Repr

def machine : Machine Activation Move where
  step s
    | .call call =>
        if call.isAway then
          some { s with sessions := s.sessions ++ [{ owned := true, stage := call.start }] }
        else none
    | .unit => some { s with sessions := s.sessions ++ [{ owned := false, stage := .idle }] }
    | .callInside k call =>
        s.sessions[k]?.bind fun session =>
          if call.isAway ∧ session.stage = .idle then
            some (s.put k { session with stage := call.start })
          else none
    | .resume k => s.sessions[k]?.bind (s.resume k)
    | .commit k =>
        s.sessions[k]?.bind fun session =>
          if session.stage = .idle then some (s.commit k session []) else none
    | .rollback k => s.sessions[k]?.map fun session => s.put k (close session)

end Activation

/-! ## The invariant -/

/-- A call that has answered yes has activated one waiting user, and one that has answered
no has changed nothing. -/
def Reply.Honest (reply : Reply) : Prop :=
  if reply.result then Store.Activated reply.user reply.before reply.after
  else reply.after = reply.before

/-- What is known of a session at each `await`. -/
def Session.Fits (store : Store) (cap : Nat) (session : Session) : Prop :=
  match session.stage with
  | .idle => session.owned = false
  | .locking _ => session.owned = true → session.written = Written.none
  | .counting _ => session.locked = true ∧ (session.owned = true → session.written = Written.none)
  | .flipping _ => session.locked = true ∧ (session.owned = true → session.written = Written.none) ∧
      (store.write session.written).activeCount < cap
  | .loading _ status => status ≠ .active
  | .flushing _ status _ => status ≠ .active
  | .leaving (some (user, true)) =>
      session.written = Written.none.set user .active ∧ store.status user = some .waiting
  | .leaving (some (_, false)) => session.written = Written.none
  | .leaving none => True
  | .closed => True

structure Session.Sound (store : Store) (cap : Nat) (session : Session) : Prop where
  capped : (store.write session.written).activeCount ≤ cap
  /-- Without the lock nobody is made active. -/
  away : session.locked = false → ∀ user status, session.written user = some status →
    status ≠ .active
  fits : session.Fits store cap

/-- What somebody else's commit leaves of what is known of a session: only the room that it has
counted and the row that it has taken depend on the store. -/
theorem Session.Fits.commit {session : Session} {store : Store} {cap : Nat} {written : Written}
    (hFits : session.Fits store cap)
    (hApart : ∀ user status, written user = some status → session.written user = none)
    (hRoom : session.locked = true → ((store.write written).write session.written).activeCount ≤
      (store.write session.written).activeCount) :
    session.Fits (store.write written) cap := by
  cases hStage : session.stage with
  | idle | closed | locking user | counting user | loading user status
  | flushing user status loaded =>
      simpa only [Session.Fits, hStage] using hFits
  | flipping user =>
      simp only [Session.Fits, hStage] at hFits ⊢
      obtain ⟨hLocked, hOwned, hLess⟩ := hFits
      exact ⟨hLocked, hOwned, Nat.lt_of_le_of_lt (hRoom hLocked) hLess⟩
  | leaving taken =>
      rcases taken with _ | ⟨user, _ | _⟩
      · simp only [Session.Fits, hStage]
      · simpa only [Session.Fits, hStage] using hFits
      · simp only [Session.Fits, hStage] at hFits ⊢
        obtain ⟨hOwn, hWaiting⟩ := hFits
        have hUnwritten : written user = none := by
          cases hRow : written user with
          | none => rfl
          | some status =>
              have hNone := hApart user status hRow
              rw [hOwn] at hNone
              simp [Written.set] at hNone
        exact ⟨hOwn, by simp [Store.status_write, hUnwritten, hWaiting]⟩

/-- What somebody else's commit leaves of a session. -/
theorem Session.Sound.commit {session : Session} {store : Store} {cap : Nat} {written : Written}
    (hSound : session.Sound store cap)
    (hApart : ∀ user status, written user = some status → session.written user = none)
    (hOther : (∀ user status, written user = some status → status ≠ .active) ∨
      session.locked = false ∧ (store.write written).activeCount ≤ cap) :
    session.Sound (store.write written) cap := by
  rcases hOther with hAway | ⟨hFree, hCapped⟩
  · have hFewer : ((store.write written).write session.written).activeCount ≤
        (store.write session.written).activeCount := Store.activeCount_write_write_le hAway
    exact ⟨Nat.le_trans hFewer hSound.capped, hSound.away, hSound.fits.commit hApart fun _ => hFewer⟩
  · -- The commit is the lock holder's, so this session has not counted.
    have hFewer : ((store.write written).write session.written).activeCount ≤
        (store.write written).activeCount := Store.activeCount_write_le (hSound.away hFree)
    refine ⟨Nat.le_trans hFewer hCapped, hSound.away, hSound.fits.commit hApart fun hLocked => ?_⟩
    exact absurd hLocked (by simp [hFree])

namespace Activation

structure Inv (s : Activation) : Prop where
  capped : s.store.activeCount ≤ s.cap
  sound : ∀ (k : Nat) (session : Session), s.sessions[k]? = some session →
    session.Sound s.store s.cap
  oneLock : ∀ (i j : Nat) (a b : Session), s.sessions[i]? = some a → s.sessions[j]? = some b →
    a.locked = true → b.locked = true → i = j
  apart : ∀ (i j : Nat) (a b : Session), s.sessions[i]? = some a → s.sessions[j]? = some b →
    i ≠ j → ∀ user status, a.written user = some status → b.written user = none
  honest : ∀ reply ∈ s.returned, reply.Honest

section Steps

variable {s s' : Activation} {k : Nat} {session session' : Session}

theorem mem_others {i : Nat} {other : Session} (hOther : s.sessions[i]? = some other)
    (hNot : i ≠ k) : other ∈ s.others k :=
  List.mem_eraseIdx_iff_getElem?.mpr ⟨i, hNot, hOther⟩

theorem written_of_isFree {user : UserId} (hFree : s.isFree k user = true) {i : Nat}
    {other : Session} (hOther : s.sessions[i]? = some other) (hNot : i ≠ k) :
    other.written user = none := by
  have hAll := List.all_eq_true.mp hFree other (mem_others hOther hNot)
  exact of_decide_eq_true hAll

/-- A session goes on: it takes the lock only where it is free, and writes only rows that
are. -/
theorem Inv.put (hInv : Inv s) (hSession : s.sessions[k]? = some session)
    (hStore : s'.store = s.store) (hCap : s'.cap = s.cap)
    (hSessions : s'.sessions = s.sessions.set k session')
    (hHonest : ∀ reply ∈ s'.returned, reply.Honest) (hSound : session'.Sound s.store s.cap)
    (hLock : session'.locked = true → session.locked = true ∨
      ∀ other ∈ s.others k, other.locked = false)
    (hWritten : ∀ user status, session'.written user = some status →
      session.written user = some status ∨ s.isFree k user = true) : Inv s' := by
  have hLocked : ∀ i other, s.sessions[i]? = some other → i ≠ k → session'.locked = true →
      other.locked = true → False := by
    intro i other hOther hNot hMine hTheirs
    rcases hLock hMine with hBefore | hNobody
    · exact hNot (hInv.oneLock i k other session hOther hSession hTheirs hBefore)
    · exact absurd hTheirs (by simp [hNobody other (mem_others hOther hNot)])
  refine ⟨?_, ?_, ?_, ?_, hHonest⟩
  · rw [hStore, hCap]
    exact hInv.capped
  · intro i other hOther
    rw [hSessions] at hOther
    rw [hStore, hCap]
    rcases Sequence.getElem?_set_cases hOther with ⟨rfl, rfl⟩ | ⟨-, hOld⟩
    · exact hSound
    · exact hInv.sound i other hOld
  -- Two sessions with the lock: at most one of them is the one that goes on.
  · intro i j a b hA hB hLockA hLockB
    rw [hSessions] at hA hB
    rcases Sequence.getElem?_set_cases hA with ⟨rfl, rfl⟩ | ⟨hNotA, hOldA⟩
    · rcases Sequence.getElem?_set_cases hB with ⟨rfl, rfl⟩ | ⟨hNotB, hOldB⟩
      · rfl
      · exact (hLocked j b hOldB hNotB hLockA hLockB).elim
    · rcases Sequence.getElem?_set_cases hB with ⟨rfl, rfl⟩ | ⟨-, hOldB⟩
      · exact (hLocked i a hOldA hNotA hLockB hLockA).elim
      · exact hInv.oneLock i j a b hOldA hOldB hLockA hLockB
  -- Two sessions that have written one row: the one that goes on took a free row.
  · intro i j a b hA hB hNot user status hRow
    rw [hSessions] at hA hB
    rcases Sequence.getElem?_set_cases hA with ⟨rfl, rfl⟩ | ⟨hNotA, hOldA⟩
    · rcases Sequence.getElem?_set_cases hB with ⟨rfl, rfl⟩ | ⟨hNotB, hOldB⟩
      · exact absurd rfl hNot
      · rcases hWritten user status hRow with hBefore | hFree
        · exact hInv.apart i j session b hSession hOldB hNot user status hBefore
        · exact written_of_isFree hFree hOldB hNotB
    · rcases Sequence.getElem?_set_cases hB with ⟨rfl, rfl⟩ | ⟨-, hOldB⟩
      · cases hMine : b.written user with
        | none => rfl
        | some mine =>
            rcases hWritten user mine hMine with hBefore | hFree
            · have hNone := hInv.apart j i session a hSession hOldA (Ne.symm hNot) user mine hBefore
              exact absurd (hNone.symm.trans hRow) (by simp)
            · exact absurd ((written_of_isFree hFree hOldA hNotA).symm.trans hRow) (by simp)
      · exact hInv.apart i j a b hOldA hOldB hNot user status hRow

/-- A session whose transaction stays as it is. -/
theorem Inv.goTo (hInv : Inv s) (hSession : s.sessions[k]? = some session) {stage : Await}
    {loaded : Written}
    (hFits : ({ session with stage, loaded } : Session).Fits s.store s.cap) :
    Inv (s.put k { session with stage, loaded }) := by
  have hSound := hInv.sound k session hSession
  exact hInv.put hSession rfl rfl rfl hInv.honest ⟨hSound.capped, hSound.away, hFits⟩
    (fun hLocked => .inl hLocked) fun _ _ hRow => .inl hRow

theorem sound_close {store : Store} {cap : Nat} (hCapped : store.activeCount ≤ cap) :
    (close session).Sound store cap := by
  refine ⟨?_, fun _ user status hRow => ?_, trivial⟩
  · simpa [close] using hCapped
  · simp [close, Written.none] at hRow

theorem Inv.close (hInv : Inv s) (hSession : s.sessions[k]? = some session) :
    Inv (s.put k (close session)) :=
  hInv.put hSession rfl rfl rfl hInv.honest (sound_close hInv.capped)
    (fun hLocked => absurd hLocked (by simp [Activation.close]))
    fun _ _ hRow => absurd hRow (by simp [Activation.close, Written.none])

/-! ## Commits -/

theorem Inv.commit (hInv : Inv s) (hSession : s.sessions[k]? = some session)
    {replies : List Reply} (hReplies : ∀ reply ∈ replies, reply.Honest) :
    Inv (s.commit k session replies) := by
  have hSound := hInv.sound k session hSession
  have hClosed := hInv.close hSession
  refine ⟨hSound.capped, ?_, hClosed.oneLock, hClosed.apart, ?_⟩
  · intro i other hOther
    rcases Sequence.getElem?_set_cases hOther with ⟨rfl, rfl⟩ | ⟨hNot, hOld⟩
    · exact sound_close hSound.capped
    · refine (hInv.sound i other hOld).commit
        (fun user status => hInv.apart k i session other hSession hOld (Ne.symm hNot) user status) ?_
      cases hLocked : session.locked with
      | false => exact .inl (hSound.away hLocked)
      | true =>
          right
          refine ⟨?_, hSound.capped⟩
          by_contra hTheirs
          exact hNot (hInv.oneLock i k other session hOld hSession (by simpa using hTheirs) hLocked)
  · intro reply hReply
    rcases List.mem_append.mp hReply with hOld | hNew
    · exact hInv.honest reply hOld
    · exact hReplies reply hNew

/-! ## Steps -/

theorem Inv.answer_no (hInv : Inv s) (hSession : s.sessions[k]? = some session) (user : UserId)
    (hOwned : session.owned = true → session.written = Written.none) :
    Inv (s.answer k session user false session.written) := by
  have hSound := hInv.sound k session hSession
  unfold answer
  split
  · rename_i hIs
    exact hInv.goTo hSession (hOwned hIs)
  · rename_i hNot
    refine hInv.put hSession rfl rfl rfl ?_
      ⟨hSound.capped, hSound.away, (Bool.not_eq_true _).mp hNot⟩
      (fun hLocked => .inl hLocked) fun _ _ hRow => .inl hRow
    intro reply hReply
    rcases List.mem_append.mp hReply with hOld | hNew
    · exact hInv.honest reply hOld
    · rw [List.mem_singleton.mp hNew]
      rfl

theorem Inv.answer_yes (hInv : Inv s) (hSession : s.sessions[k]? = some session) {user : UserId}
    (hLocked : session.locked = true) (hOwned : session.owned = true → session.written = Written.none)
    (hRoom : (s.view session).activeCount < s.cap) (hFree : s.isFree k user = true)
    (hWaiting : (s.view session).status user = some .waiting) (loaded : Written) :
    Inv (s.answer k { session with loaded } user true (session.written.set user .active)) := by
  have hActivated := Store.activated_write_set hWaiting
  have hCapped : (s.store.write (session.written.set user .active)).activeCount ≤ s.cap := by
    rw [Store.activeCount_of_activated hActivated]
    exact hRoom
  have hWritten : ∀ other status, session.written.set user .active other = some status →
      session.written other = some status ∨ s.isFree k other = true := by
    intro other status hRow
    by_cases hIs : other = user
    · exact .inr (hIs ▸ hFree)
    · rw [Written.set, if_neg hIs] at hRow
      exact .inl hRow
  unfold answer
  split
  · rename_i hIs
    refine hInv.put hSession rfl rfl rfl hInv.honest ⟨hCapped, ?_, ?_⟩ (fun _ => .inl hLocked)
      hWritten
    · intro hNo
      exact absurd (hLocked.symm.trans hNo) (by simp)
    · have hNothing := hOwned hIs
      refine ⟨congrArg (Written.set · user .active) hNothing, ?_⟩
      simpa [view, hNothing] using hWaiting
  · rename_i hNot
    refine hInv.put hSession rfl rfl rfl ?_ ⟨hCapped, ?_, (Bool.not_eq_true _).mp hNot⟩
      (fun _ => .inl hLocked) hWritten
    · intro reply hReply
      rcases List.mem_append.mp hReply with hOld | hNew
      · exact hInv.honest reply hOld
      · rw [List.mem_singleton.mp hNew]
        exact hActivated
    · intro hNo
      exact absurd (hLocked.symm.trans hNo) (by simp)

theorem fits_finish {store : Store} {cap : Nat} (written : Written) :
    ({ session with stage := if session.owned then .leaving none else .idle, written } :
      Session).Fits store cap := by
  by_cases hOwned : session.owned = true <;> simp [Session.Fits, hOwned]

theorem Inv.finish_same (hInv : Inv s) (hSession : s.sessions[k]? = some session) :
    Inv (s.finish k session session.written) := by
  refine hInv.goTo hSession ?_
  exact fits_finish session.written

theorem Inv.finish_set (hInv : Inv s) (hSession : s.sessions[k]? = some session) {user : UserId}
    {status : UserStatus} (hAway : status ≠ .active) (hFree : s.isFree k user = true) :
    Inv (s.finish k session (session.written.set user status)) := by
  have hSound := hInv.sound k session hSession
  refine hInv.put hSession rfl rfl rfl hInv.honest ⟨?_, ?_, ?_⟩ (fun hLocked => .inl hLocked) ?_
  · rw [Store.write_set]
    refine Nat.le_trans (Store.activeCount_write_le fun other status' hRow => ?_) hSound.capped
    by_cases hIs : other = user
    · simp only [Written.set, if_pos hIs, Option.some.injEq] at hRow
      exact hRow ▸ hAway
    · simp [Written.set, if_neg hIs, Written.none] at hRow
  · intro hNot other status' hRow
    by_cases hIs : other = user
    · simp only [Written.set, if_pos hIs, Option.some.injEq] at hRow
      exact hRow ▸ hAway
    · simp only [Written.set, if_neg hIs] at hRow
      exact hSound.away hNot other status' hRow
  · exact fits_finish _
  · intro other status' hRow
    by_cases hIs : other = user
    · exact .inr (hIs ▸ hFree)
    · simp only [Written.set, if_neg hIs] at hRow
      exact .inl hRow

/-- The answer that a session leaves with is an honest one. -/
theorem honest_of_leaving {store : Store} {cap : Nat} {user : UserId} {result : Bool}
    (hFits : session.Fits store cap) (hStage : session.stage = .leaving (some (user, result))) :
    Reply.Honest { user, result, before := store.users, after := (store.write session.written).users } := by
  cases result with
  | true =>
      simp only [Session.Fits, hStage] at hFits
      refine Store.activated_write hFits.2 ?_ fun other hOther => ?_
      · rw [hFits.1]
        simp [Written.set]
      · rw [hFits.1]
        simp [Written.set, hOther, Written.none]
  | false =>
      simp only [Session.Fits, hStage] at hFits
      change (store.write session.written).users = store.users
      rw [hFits, Store.write_none]

theorem keeps_resume (hInv : Inv s) (hSession : s.sessions[k]? = some session)
    (hStep : s.resume k session = some s') : Inv s' := by
  have hSound := hInv.sound k session hSession
  have hFits := hSound.fits
  cases hStage : session.stage with
  | idle | closed => simp [resume, hStage] at hStep
  | locking user =>
      simp only [Session.Fits, hStage] at hFits
      simp only [resume, hStage] at hStep
      split at hStep
      -- The lock is taken only where nobody has it.
      · rename_i hNobody
        obtain rfl := Option.some.inj hStep
        have hFree : ∀ other ∈ s.others k, other.locked = false := by
          intro other hOther
          simpa using List.all_eq_true.mp hNobody other hOther
        refine hInv.put hSession rfl rfl rfl hInv.honest ⟨hSound.capped, ?_, ⟨rfl, hFits⟩⟩
          (fun _ => .inr hFree) fun _ _ hRow => .inl hRow
        exact fun hNot => absurd hNot (by simp)
      · exact absurd hStep (by simp)
  | counting user =>
      simp only [Session.Fits, hStage] at hFits
      simp only [resume, hStage] at hStep
      split at hStep
      · rename_i hRoom
        obtain rfl := Option.some.inj hStep
        exact hInv.goTo hSession ⟨hFits.1, hFits.2, hRoom.2⟩
      · obtain rfl := Option.some.inj hStep
        exact hInv.answer_no hSession user hFits.2
  | flipping user =>
      simp only [Session.Fits, hStage] at hFits
      simp only [resume, hStage] at hStep
      obtain ⟨hLocked, hOwned, hRoom⟩ := hFits
      split at hStep
      · rename_i hFree
        split at hStep
        · rename_i hWaiting
          obtain rfl := Option.some.inj hStep
          exact hInv.answer_yes hSession hLocked hOwned hRoom hFree hWaiting _
        · obtain rfl := Option.some.inj hStep
          exact hInv.answer_no hSession user hOwned
      · exact absurd hStep (by simp)
  | loading user status =>
      simp only [Session.Fits, hStage] at hFits
      simp only [resume, hStage] at hStep
      split at hStep
      · obtain rfl := Option.some.inj hStep
        exact hInv.goTo hSession hFits
      · obtain rfl := Option.some.inj hStep
        split
        · exact hInv.close hSession
        · rename_i hNot
          exact hInv.goTo hSession ((Bool.not_eq_true _).mp hNot)
  | flushing user status loaded =>
      simp only [Session.Fits, hStage] at hFits
      simp only [resume, hStage] at hStep
      split at hStep
      · obtain rfl := Option.some.inj hStep
        exact hInv.finish_same hSession
      · split at hStep
        · rename_i hFree
          obtain rfl := Option.some.inj hStep
          exact hInv.finish_set hSession hFits hFree
        · exact absurd hStep (by simp)
  | leaving taken =>
      rcases taken with _ | ⟨user, result⟩
      · simp only [resume, hStage] at hStep
        obtain rfl := Option.some.inj hStep
        exact hInv.commit hSession fun _ hReply => absurd hReply List.not_mem_nil
      · simp only [resume, hStage] at hStep
        obtain rfl := Option.some.inj hStep
        refine hInv.commit hSession fun reply hReply => ?_
        rw [List.mem_singleton.mp hReply]
        exact honest_of_leaving hFits hStage

theorem Inv.add (session : Session) (hInv : Inv s) (hFits : session.Fits s.store s.cap)
    (hNew : session.locked = false) (hWritten : session.written = Written.none) :
    Inv { s with sessions := s.sessions ++ [session] } := by
  have hCases : ∀ (i : Nat) (other : Session), (s.sessions ++ [session])[i]? = some other →
      s.sessions[i]? = some other ∨ i = s.sessions.length ∧ other = session := by
    intro i other hOther
    rcases Nat.lt_or_ge i s.sessions.length with hOld | hLast
    · rw [List.getElem?_append_left hOld] at hOther
      exact .inl hOther
    · rw [List.getElem?_append_right hLast] at hOther
      obtain ⟨hLt, hIs⟩ := List.getElem?_eq_some_iff.mp hOther
      rw [List.length_singleton] at hLt
      exact .inr ⟨by omega, by simpa using hIs.symm⟩
  refine ⟨hInv.capped, ?_, ?_, ?_, hInv.honest⟩
  · intro i other hOther
    rcases hCases i other hOther with hOld | ⟨-, rfl⟩
    · exact hInv.sound i other hOld
    · refine ⟨?_, fun _ user status hRow => ?_, hFits⟩
      · simpa [hWritten] using hInv.capped
      · simp [hWritten, Written.none] at hRow
  · intro i j a b hA hB hLockA hLockB
    rcases hCases i a hA with hOldA | ⟨-, rfl⟩
    · rcases hCases j b hB with hOldB | ⟨-, rfl⟩
      · exact hInv.oneLock i j a b hOldA hOldB hLockA hLockB
      · exact absurd hLockB (by simp [hNew])
    · exact absurd hLockA (by simp [hNew])
  · intro i j a b hA hB hNot user status hRow
    rcases hCases i a hA with hOldA | ⟨hLast, rfl⟩
    · rcases hCases j b hB with hOldB | ⟨-, rfl⟩
      · exact hInv.apart i j a b hOldA hOldB hNot user status hRow
      · rw [hWritten]
        rfl
    · rw [hWritten] at hRow
      exact absurd hRow (by simp [Written.none])

theorem fits_start (session : Session) {call : Call} (hAway : call.isAway = true)
    (hWritten : session.owned = true → session.written = Written.none) {store : Store} {cap : Nat} :
    ({ session with stage := call.start } : Session).Fits store cap := by
  cases call with
  | tryActivate user => exact hWritten
  | setStatus user status =>
      have hStatus : status ≠ .active := of_decide_eq_true hAway
      exact hStatus

theorem keeps_step (m : Move) (hInv : Inv s) (hStep : machine.step s m = some s') : Inv s' := by
  cases m with
  | call call =>
      obtain ⟨hAway, hStep⟩ := Option.ite_none_right_eq_some.mp hStep
      obtain rfl := Option.some.inj hStep
      refine hInv.add _ ?_ rfl rfl
      exact fits_start { owned := true, stage := .idle } hAway fun _ => rfl
  | unit =>
      obtain rfl := Option.some.inj hStep
      exact hInv.add { owned := false, stage := .idle } rfl rfl rfl
  | callInside k call =>
      obtain ⟨session, hSession, hStep⟩ := Option.bind_eq_some_iff.mp hStep
      obtain ⟨hCall, hStep⟩ := Option.ite_none_right_eq_some.mp hStep
      obtain rfl := Option.some.inj hStep
      have hUnit := (hInv.sound k session hSession).fits
      rw [Session.Fits, hCall.2] at hUnit
      exact hInv.goTo hSession (fits_start _ hCall.1 fun hOwned => absurd hOwned (by simp [hUnit]))
  | resume k =>
      obtain ⟨session, hSession, hResume⟩ := Option.bind_eq_some_iff.mp hStep
      exact keeps_resume hInv hSession hResume
  | commit k =>
      obtain ⟨session, hSession, hStep⟩ := Option.bind_eq_some_iff.mp hStep
      obtain ⟨hIdle, hStep⟩ := Option.ite_none_right_eq_some.mp hStep
      obtain rfl := Option.some.inj hStep
      exact hInv.commit hSession fun _ hReply => absurd hReply List.not_mem_nil
  | rollback k =>
      obtain ⟨session, hSession, hStep⟩ := Option.map_eq_some_iff.mp hStep
      subst hStep
      exact hInv.close hSession

theorem cap_resume (hStep : s.resume k session = some s') : s'.cap = s.cap := by
  unfold resume answer finish at hStep
  grind [put, commit]

theorem cap_step (m : Move) (hStep : machine.step s m = some s') : s'.cap = s.cap := by
  cases m with
  | resume k =>
      obtain ⟨session, -, hResume⟩ := Option.bind_eq_some_iff.mp hStep
      exact cap_resume hResume
  | _ => grind [machine, put, commit]

end Steps

/-! ## Runs -/

/-- Nobody ever sees more active people than the cap allows, and the answers of
`try_activate` are true. -/
theorem active_le_cap {store : Store} {cap : Nat} (hStart : store.activeCount ≤ cap)
    {moves : List Move} {s : Activation} (hRun : machine.run moves { store, cap } = some s) :
    s.store.activeCount ≤ cap ∧ (∀ session ∈ s.sessions, (s.view session).activeCount ≤ cap) ∧
      ∀ reply ∈ s.returned, reply.Honest := by
  have hStartInv : Inv { store, cap } :=
    ⟨hStart, by simp, by simp, by simp, by simp⟩
  have hBoth : Inv s ∧ s.cap = cap := by
    refine Machine.run_keeps (I := fun t => Inv t ∧ t.cap = cap) ?_ ⟨hStartInv, rfl⟩ hRun
    rintro t m t' ⟨hInv, hCap⟩ hStep
    exact ⟨keeps_step m hInv hStep, (cap_step m hStep).trans hCap⟩
  obtain ⟨hInv, rfl⟩ := hBoth
  refine ⟨hInv.capped, fun session hSession => ?_, hInv.honest⟩
  obtain ⟨k, hAt⟩ := List.mem_iff_getElem?.mp hSession
  exact (hInv.sound k session hAt).capped

def twoWaiting : Store where
  users := [{ id := "u1" }, { id := "u2" }]

/-- Two people knock at once, and there is one place. -/
def knocks : List Move :=
  [.call (.tryActivate "u1"), .call (.tryActivate "u2"), .resume 1, .resume 1, .resume 1, .resume 1,
    .resume 0, .resume 0, .resume 0]

theorem active_le_cap_of_knocks :
    ∃ s, machine.run knocks { store := twoWaiting, cap := 1 } = some s ∧
      s.returned.map (·.result) = [true, false] ∧ s.store.activeCount ≤ 1 := by
  have hRuns : (machine.run knocks { store := twoWaiting, cap := 1 }).map
      (fun s => s.returned.map (·.result)) = some [true, false] := by
    decide +kernel
  obtain ⟨s, hRun, hResults⟩ := Option.map_eq_some_iff.mp hRuns
  exact ⟨s, hRun, hResults, (active_le_cap (by decide) hRun).1⟩

end Activation
end Identity
end OctoForge
