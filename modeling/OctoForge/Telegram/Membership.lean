import OctoForge.Coop.RelyGuarantee
import OctoForge.Sequence.Arrival
import OctoForge.Sequence.Places
import OctoForge.Telegram.Invites
import Mathlib.Data.List.Nodup

/-!
# Who is in, and through whom

With registration closed everybody who is in was brought by somebody who was in before, back to
an admin or to a code of the operator.  What a message has read may have changed when it writes;
what it relies on is kept by every step of the others.
-/

namespace OctoForge
namespace Telegram

open Coop
open Co (Spec Triple Atoms)
open Sequence (Preceded preceded_of_not_mem not_transGen_self)

/-! ## Who brought whom -/

/-- The user was brought by the other. -/
def Brought (s : Invitations) (user referrer : UserId) : Prop :=
  ∃ row ∈ s.claims, row.userId = user ∧ row.referrerUserId = referrer

/-- The user claimed a code of the operator. -/
def Invited (s : Invitations) (user : UserId) : Prop := ∃ row ∈ s.invites, row.claimedBy = some user

/-- Behind the user there is a chain of referrals that begins with the operator. -/
inductive Grounded (cfg : GateConfig) (s : Invitations) : UserId → Prop
  | admin {user : UserId} (hAdmin : isAdmin cfg user = true) : Grounded cfg s user
  | invited {user : UserId} (hInvited : Invited s user) : Grounded cfg s user
  | brought {user referrer : UserId} (hBrought : Brought s user referrer)
      (hReferrer : Grounded cfg s referrer) : Grounded cfg s user

/-- What can become of an invite: once it is claimed, it stays with who claimed it. -/
structure Evolves (row row' : InviteRow) : Prop where
  code : row'.code = row.code
  claimed : ∀ user, row.claimedBy = some user → row'.claimedBy = some user

/-- A step: the tables only grow. -/
structure Grows (s s' : Invitations) : Prop where
  invites : ∀ (id : Nat) (row : InviteRow), s.invites[id]? = some row →
    ∃ row', s'.invites[id]? = some row' ∧ Evolves row row'
  codes : s.codes <+: s'.codes
  claims : s.claims <+: s'.claims
  admitted : s.admitted <+: s'.admitted
  handedOut : s.handedOut <+: s'.handedOut
  revocations : s.revocations ≤ s'.revocations

theorem Evolves.refl (row : InviteRow) : Evolves row row := ⟨rfl, fun _ hClaimed => hClaimed⟩

theorem Grows.refl (s : Invitations) : Grows s s :=
  ⟨fun _ row hRow => ⟨row, hRow, Evolves.refl row⟩, List.prefix_refl _, List.prefix_refl _,
    List.prefix_refl _, List.prefix_refl _, Nat.le_refl _⟩

theorem Grows.trans {s s' s'' : Invitations} (hFirst : Grows s s') (hSecond : Grows s' s'') :
    Grows s s'' := by
  refine ⟨fun id row hRow => ?_, hFirst.codes.trans hSecond.codes,
    hFirst.claims.trans hSecond.claims, hFirst.admitted.trans hSecond.admitted,
    hFirst.handedOut.trans hSecond.handedOut, Nat.le_trans hFirst.revocations hSecond.revocations⟩
  obtain ⟨row', hRow', hEvolves⟩ := hFirst.invites id row hRow
  obtain ⟨row'', hRow'', hEvolves'⟩ := hSecond.invites id row' hRow'
  exact ⟨row'', hRow'', hEvolves'.code.trans hEvolves.code,
    fun user hClaimed => hEvolves'.claimed user (hEvolves.claimed user hClaimed)⟩

theorem Brought.grows {s s' : Invitations} {user referrer : UserId}
    (hBrought : Brought s user referrer) (hGrows : Grows s s') : Brought s' user referrer :=
  hBrought.elim fun row hRow => ⟨row, hGrows.claims.subset hRow.1, hRow.2⟩

theorem Invited.grows {s s' : Invitations} {user : UserId} (hInvited : Invited s user)
    (hGrows : Grows s s') : Invited s' user := by
  obtain ⟨row, hMem, hClaimed⟩ := hInvited
  obtain ⟨id, hRow⟩ := List.mem_iff_getElem?.mp hMem
  obtain ⟨row', hRow', hEvolves⟩ := hGrows.invites id row hRow
  exact ⟨row', List.mem_of_getElem? hRow', hEvolves.claimed user hClaimed⟩

theorem Grounded.grows {cfg : GateConfig} {s s' : Invitations} {user : UserId}
    (hGrounded : Grounded cfg s user) (hGrows : Grows s s') : Grounded cfg s' user := by
  induction hGrounded with
  | admin hAdmin => exact .admin hAdmin
  | invited hInvited => exact .invited (hInvited.grows hGrows)
  | brought hBrought _ ih => exact .brought (hBrought.grows hGrows) ih

theorem preceded_grows {s s' : Invitations} {user referrer : UserId}
    (hBefore : Preceded s.admitted referrer user) (hGrows : Grows s s') :
    Preceded s'.admitted referrer user := by
  obtain ⟨more, hMore⟩ := hGrows.admitted
  exact hMore ▸ hBefore.append more

/-! ## What holds in every state -/

/-- A row that has been claimed was claimed in time. -/
def InTime (cfg : GateConfig) (row : InviteRow) : Prop :=
  row.claimedBy.isSome = true →
    ∃ claimed, row.claimedAt = some claimed ∧
      ∀ ttl, cfg.ttl = some ttl → claimed < row.createdAt + ttl

structure Recorded (cfg : GateConfig) (s : Invitations) : Prop where
  pending : ∀ row ∈ s.invites, row.status = .pending → row.claimedBy = none
  inTime : ∀ row ∈ s.invites, InTime cfg row
  distinct : (s.invites.map (·.code)).Nodup
  owners : ∀ row ∈ s.codes, row.ownerUserId ∈ s.admitted
  oneCode : (s.codes.map (·.ownerUserId)).Nodup
  oneOwner : (s.codes.map (·.code)).Nodup
  oneClaim : (s.claims.map (·.userId)).Nodup
  handed : ∀ link ∈ s.handedOut, ∃ row ∈ s.codes, row.ownerUserId = link.1 ∧ row.code = link.2
  standing : s.revocations = 0 → ∀ row ∈ s.invites, row.claimedBy.isSome = true →
    row.status = .claimed
  grounded : cfg.openRegistration = false → ∀ user ∈ s.admitted, Grounded cfg s user
  referrers : cfg.openRegistration = false → ∀ row ∈ s.claims, Grounded cfg s row.referrerUserId
  earlier : cfg.openRegistration = false → s.revocations = 0 → ∀ row ∈ s.claims,
    Preceded s.admitted row.referrerUserId row.userId

variable {cfg : GateConfig} {s : Invitations}

/-- Who is in and no admin has claimed a code or a link. -/
theorem Recorded.cases_of_admitted (hSound : Recorded cfg s)
    (hClosed : cfg.openRegistration = false)
    {user : UserId} (hUser : user ∈ s.admitted) (hNot : isAdmin cfg user = false) :
    Invited s user ∨ ∃ row ∈ s.claims, row.userId = user := by
  cases hSound.grounded hClosed user hUser with
  | admin hAdmin => exact absurd hAdmin (by simp [hNot])
  | invited hInvited => exact .inl hInvited
  | brought hBrought _ => exact .inr (hBrought.elim fun row hRow => ⟨row, hRow.1, hRow.2.1⟩)

/-- A link leads to its owner. -/
theorem Recorded.ownerOf_of_mem (hSound : Recorded cfg s) {row : ReferralCodeRow} {owner : UserId}
    {code : Text} (hRow : row ∈ s.codes) (hOwner : row.ownerUserId = owner)
    (hCode : row.code = code) :
    s.ownerOf code = some owner := by
  obtain ⟨found, hFound⟩ : ∃ found, (s.codes.find? fun row => row.code = code) = some found :=
    Option.isSome_iff_exists.mp (by
      simp only [List.find?_isSome, decide_eq_true_eq]
      exact ⟨row, hRow, hCode⟩)
  have hSame : found.code = code := by simpa using List.find?_some hFound
  have hEq := List.inj_on_of_nodup_map hSound.oneOwner (List.mem_of_find?_eq_some hFound) hRow
    (hSame.trans hCode.symm)
  rw [Invitations.ownerOf, hFound, Option.map_some, hEq, hOwner]

/-- Nobody is brought twice. -/
theorem Recorded.brought_unique (hSound : Recorded cfg s) {user x y : UserId}
    (hX : Brought s user x) (hY : Brought s user y) : x = y := by
  obtain ⟨row, hRow, hUser, rfl⟩ := hX
  obtain ⟨other, hOther, hSame, rfl⟩ := hY
  rw [List.inj_on_of_nodup_map hSound.oneClaim hRow hOther (hUser.trans hSame.symm)]

/-- Whoever has an attribution has a chain behind it. -/
theorem Recorded.grounded_of_claim (hSound : Recorded cfg s)
    (hClosed : cfg.openRegistration = false)
    {row : ReferralClaimRow} (hRow : row ∈ s.claims) : Grounded cfg s row.userId :=
  .brought ⟨row, hRow, rfl, rfl⟩ (hSound.referrers hClosed row hRow)

/-- What a step owes. -/
def Lands (cfg : GateConfig) (s s' : Invitations) : Prop := Recorded cfg s' ∧ Grows s s'

theorem lands_refl (hSound : Recorded cfg s) : Lands cfg s s := ⟨hSound, Grows.refl s⟩

/-! ## The statements -/

theorem nodup_map_concat {α β : Type} {f : α → β} {rows : List α} {row : α}
    (hNodup : (rows.map f).Nodup) (hNew : ∀ other ∈ rows, f other ≠ f row) :
    ((rows ++ [row]).map f).Nodup := by
  rw [List.map_append, List.nodup_append]
  refine ⟨hNodup, List.nodup_singleton _, fun x hX y hY => ?_⟩
  obtain ⟨other, hOther, rfl⟩ := List.mem_map.mp hX
  obtain rfl := List.mem_singleton.mp hY
  exact hNew other hOther

theorem lands_letIn {user : UserId} (hSound : Recorded cfg s)
    (hUser : cfg.openRegistration = false → Grounded cfg s user) :
    Lands cfg s (s.letIn user) := by
  have hGrows : Grows s (s.letIn user) :=
    ⟨fun _ row hRow => ⟨row, hRow, Evolves.refl row⟩, List.prefix_refl _, List.prefix_refl _,
      List.prefix_append _ _, List.prefix_refl _, Nat.le_refl _⟩
  refine ⟨⟨hSound.pending, hSound.inTime, hSound.distinct,
    fun row hRow => List.mem_append_left _ (hSound.owners row hRow), hSound.oneCode,
    hSound.oneOwner, hSound.oneClaim, hSound.handed, hSound.standing,
    fun hClosed other hOther => ?_,
    fun hClosed row hRow => (hSound.referrers hClosed row hRow).grows hGrows,
    fun hClosed hNone row hRow => preceded_grows (hSound.earlier hClosed hNone row hRow) hGrows⟩,
    hGrows⟩
  rcases List.mem_append.mp hOther with hOld | hNew
  · exact (hSound.grounded hClosed other hOld).grows hGrows
  · obtain rfl := List.mem_singleton.mp hNew
    exact (hUser hClosed).grows hGrows

theorem lands_handOut {user : UserId} {code : Text} (hSound : Recorded cfg s)
    (hCode : ∃ row ∈ s.codes, row.ownerUserId = user ∧ row.code = code) :
    Lands cfg s (s.handOut user code) := by
  have hGrows : Grows s (s.handOut user code) :=
    ⟨fun _ row hRow => ⟨row, hRow, Evolves.refl row⟩, List.prefix_refl _, List.prefix_refl _,
      List.prefix_refl _, List.prefix_append _ _, Nat.le_refl _⟩
  refine ⟨⟨hSound.pending, hSound.inTime, hSound.distinct, hSound.owners, hSound.oneCode,
    hSound.oneOwner, hSound.oneClaim, fun link hLink => ?_, hSound.standing,
    fun hClosed user hUser => (hSound.grounded hClosed user hUser).grows hGrows,
    fun hClosed row hRow => (hSound.referrers hClosed row hRow).grows hGrows, hSound.earlier⟩,
    hGrows⟩
  rcases List.mem_append.mp hLink with hOld | hNew
  · exact hSound.handed link hOld
  · obtain rfl := List.mem_singleton.mp hNew
    exact hCode

theorem lands_insertCode {owner : UserId} (token : Text) (hSound : Recorded cfg s)
    (hOwner : owner ∈ s.admitted) : Lands cfg s (s.insertCode owner token).2 := by
  unfold Invitations.insertCode
  split
  · exact lands_refl hSound
  · rename_i hNone
    have hGrows : Grows s { s with codes := s.codes ++ [⟨token, owner, s.now⟩] } :=
      ⟨fun _ row hRow => ⟨row, hRow, Evolves.refl row⟩, List.prefix_append _ _,
        List.prefix_refl _, List.prefix_refl _, List.prefix_refl _, Nat.le_refl _⟩
    refine ⟨⟨hSound.pending, hSound.inTime, hSound.distinct, fun row hRow => ?_, ?_, ?_,
      hSound.oneClaim, fun link hLink => ?_, hSound.standing,
      fun hClosed user hUser => (hSound.grounded hClosed user hUser).grows hGrows,
      fun hClosed row hRow => (hSound.referrers hClosed row hRow).grows hGrows, hSound.earlier⟩,
      hGrows⟩
    · rcases List.mem_append.mp hRow with hOld | hNew
      · exact hSound.owners row hOld
      · obtain rfl := List.mem_singleton.mp hNew
        exact hOwner
    · exact nodup_map_concat hSound.oneCode fun row hRow hEq =>
        hNone (List.any_eq_true.mpr ⟨row, hRow, by simpa using Or.inl hEq⟩)
    · exact nodup_map_concat hSound.oneOwner fun row hRow hEq =>
        hNone (List.any_eq_true.mpr ⟨row, hRow, by simpa using Or.inr hEq⟩)
    · obtain ⟨row, hRow, hLinks⟩ := hSound.handed link hLink
      exact ⟨row, List.mem_append_left _ hRow, hLinks⟩

theorem claimOf_isSome_iff {user : UserId} :
    (s.claimOf user).isSome = true ↔ ∃ row ∈ s.claims, row.userId = user := by
  simp [Invitations.claimOf]

theorem lands_insertClaim {user referrer : UserId} (code : Text) (hSound : Recorded cfg s)
    (hReferrer : cfg.openRegistration = false → Grounded cfg s referrer)
    (hEarlier : cfg.openRegistration = false → s.revocations = 0 →
      (∃ row ∈ s.claims, row.userId = user) ∨ Preceded s.admitted referrer user) :
    Lands cfg s (s.insertClaim user referrer code) := by
  unfold Invitations.insertClaim
  split
  · exact lands_refl hSound
  · rename_i hNone
    have hNew : ¬∃ row ∈ s.claims, row.userId = user := fun hSome =>
      hNone (claimOf_isSome_iff.mpr hSome)
    have hGrows : Grows s { s with claims := s.claims ++ [⟨user, referrer, code, s.now⟩] } :=
      ⟨fun _ row hRow => ⟨row, hRow, Evolves.refl row⟩, List.prefix_refl _,
        List.prefix_append _ _, List.prefix_refl _, List.prefix_refl _, Nat.le_refl _⟩
    refine ⟨⟨hSound.pending, hSound.inTime, hSound.distinct, hSound.owners, hSound.oneCode,
      hSound.oneOwner, ?_,
      hSound.handed, hSound.standing,
      fun hClosed user hUser => (hSound.grounded hClosed user hUser).grows hGrows,
      fun hClosed row hRow => ?_, fun hClosed hZero row hRow => ?_⟩, hGrows⟩
    · exact nodup_map_concat hSound.oneClaim fun row hRow hEq => hNew ⟨row, hRow, hEq⟩
    · rcases List.mem_append.mp hRow with hOld | hLast
      · exact (hSound.referrers hClosed row hOld).grows hGrows
      · obtain rfl := List.mem_singleton.mp hLast
        exact (hReferrer hClosed).grows hGrows
    · rcases List.mem_append.mp hRow with hOld | hLast
      · exact hSound.earlier hClosed hZero row hOld
      · obtain rfl := List.mem_singleton.mp hLast
        exact (hEarlier hClosed hZero).resolve_left hNew

/-- A step that only concerns the invites. -/
theorem lands_invites {invites : List InviteRow} {revocations now : Nat} (hSound : Recorded cfg s)
    (hEach : ∀ (id : Nat) (row : InviteRow), s.invites[id]? = some row →
      ∃ row', invites[id]? = some row' ∧ Evolves row row')
    (hPending : ∀ row ∈ invites, row.status = .pending → row.claimedBy = none)
    (hInTime : ∀ row ∈ invites, InTime cfg row)
    (hDistinct : (invites.map (·.code)).Nodup)
    (hMore : s.revocations ≤ revocations)
    (hStanding : revocations = 0 → ∀ row ∈ invites, row.claimedBy.isSome = true →
      row.status = .claimed) :
    Lands cfg s { s with invites, revocations, now } := by
  have hGrows : Grows s { s with invites, revocations, now } :=
    ⟨hEach, List.prefix_refl _, List.prefix_refl _, List.prefix_refl _, List.prefix_refl _, hMore⟩
  exact ⟨⟨hPending, hInTime, hDistinct, hSound.owners, hSound.oneCode, hSound.oneOwner,
    hSound.oneClaim,
    hSound.handed, hStanding,
    fun hClosed user hUser => (hSound.grounded hClosed user hUser).grows hGrows,
    fun hClosed row hRow => (hSound.referrers hClosed row hRow).grows hGrows,
    fun hClosed hZero => hSound.earlier hClosed (Nat.le_zero.mp (hZero ▸ hMore))⟩, hGrows⟩

theorem lands_tick (elapsed : Nat) (hSound : Recorded cfg s) :
    Lands cfg s { s with now := s.now + elapsed } :=
  lands_invites hSound (fun _ row hRow => ⟨row, hRow, Evolves.refl row⟩) hSound.pending
    hSound.inTime hSound.distinct (Nat.le_refl _) hSound.standing

theorem lands_create {token : Text} (hSound : Recorded cfg s)
    (hNew : (s.inviteOf token).isSome = false) :
    Lands cfg s { s with invites := s.invites ++ [{ code := token, createdAt := s.now }] } := by
  refine lands_invites hSound (fun id row hRow => ?_) ?_ ?_ ?_ (Nat.le_refl _) fun hZero => ?_
  · have hBound := (List.getElem?_eq_some_iff.mp hRow).1
    exact ⟨row, (List.getElem?_append_left hBound).trans hRow, Evolves.refl row⟩
  · intro row hRow hPending
    rcases List.mem_append.mp hRow with hOld | hLast
    · exact hSound.pending row hOld hPending
    · obtain rfl := List.mem_singleton.mp hLast
      rfl
  · intro row hRow
    rcases List.mem_append.mp hRow with hOld | hLast
    · exact hSound.inTime row hOld
    · obtain rfl := List.mem_singleton.mp hLast
      exact fun hClaimed => by simp at hClaimed
  · refine nodup_map_concat hSound.distinct fun row hRow hEq => ?_
    have hSome : (s.inviteOf token).isSome = true := by
      simp only [Invitations.inviteOf, List.find?_isSome, decide_eq_true_eq]
      exact ⟨row, hRow, hEq⟩
    exact absurd hSome (by simp [hNew])
  · intro row hRow hClaimed
    rcases List.mem_append.mp hRow with hOld | hLast
    · exact hSound.standing hZero row hOld hClaimed
    · obtain rfl := List.mem_singleton.mp hLast
      simp at hClaimed

/-- The row is another one, and still the same invite. -/
structure Rewritten (cfg : GateConfig) (row row' : InviteRow) : Prop where
  code : row'.code = row.code
  claimedBy : row'.claimedBy = row.claimedBy ∨ row.claimedBy = none
  settled : row'.status ≠ .pending
  inTime : InTime cfg row → InTime cfg row'

theorem Rewritten.evolves {row row' : InviteRow} (hRewritten : Rewritten cfg row row') :
    Evolves row row' := by
  refine ⟨hRewritten.code, fun user hClaimed => ?_⟩
  rcases hRewritten.claimedBy with hSame | hNone
  · exact hSame.trans hClaimed
  · exact absurd (hNone.symm.trans hClaimed) (by simp)

/-- A step that rewrites some rows of the invites where they are. -/
theorem lands_rewrite {invites : List InviteRow} {revocations : Nat}
    {f : Nat → InviteRow → InviteRow} (hSound : Recorded cfg s)
    (hAt : ∀ id, invites[id]? = s.invites[id]?.map (f id))
    (hEach : ∀ id row, row ∈ s.invites → f id row = row ∨ Rewritten cfg row (f id row))
    (hMore : s.revocations ≤ revocations)
    (hStanding : revocations = 0 → ∀ id row, f id row = row ∨ (f id row).status = .claimed) :
    Lands cfg s { s with invites, revocations } := by
  have hBefore : ∀ row' ∈ invites, ∃ id, ∃ row ∈ s.invites, row' = f id row := by
    intro row' hRow'
    obtain ⟨id, hGet⟩ := List.mem_iff_getElem?.mp hRow'
    obtain ⟨row, hRow, rfl⟩ := Option.map_eq_some_iff.mp ((hAt id).symm.trans hGet)
    exact ⟨id, row, List.mem_of_getElem? hRow, rfl⟩
  have hCodes : invites.map (·.code) = s.invites.map (·.code) := by
    refine List.ext_getElem? fun id => ?_
    rw [List.getElem?_map, List.getElem?_map, hAt id, Option.map_map]
    cases hRow : s.invites[id]? with
    | none => rfl
    | some row =>
        refine congrArg some ?_
        rcases hEach id row (List.mem_of_getElem? hRow) with hSame | hRewritten
        · exact congrArg (·.code) hSame
        · exact hRewritten.code
  show Lands cfg s { s with invites, revocations, now := s.now }
  refine lands_invites hSound (fun id row hRow => ?_) (fun row' hRow' hPending => ?_)
    (fun row' hRow' => ?_) (hCodes ▸ hSound.distinct) hMore fun hZero row' hRow' hClaimed => ?_
  · refine ⟨f id row, by rw [hAt id, hRow]; rfl, ?_⟩
    rcases hEach id row (List.mem_of_getElem? hRow) with hSame | hRewritten
    · exact hSame.symm ▸ Evolves.refl row
    · exact hRewritten.evolves
  · obtain ⟨id, row, hRow, rfl⟩ := hBefore row' hRow'
    rcases hEach id row hRow with hSame | hRewritten
    · rw [hSame] at hPending ⊢
      exact hSound.pending row hRow hPending
    · exact absurd hPending hRewritten.settled
  · obtain ⟨id, row, hRow, rfl⟩ := hBefore row' hRow'
    rcases hEach id row hRow with hSame | hRewritten
    · exact hSame.symm ▸ hSound.inTime row hRow
    · exact hRewritten.inTime (hSound.inTime row hRow)
  · obtain ⟨id, row, hRow, rfl⟩ := hBefore row' hRow'
    rcases hStanding hZero id row with hSame | hStands
    · rw [hSame] at hClaimed ⊢
      exact hSound.standing (Nat.le_zero.mp (hZero ▸ hMore)) row hRow hClaimed
    · exact hStands

theorem lands_claimInvites {code : Text} {user : UserId} {now : Nat} (hSound : Recorded cfg s) :
    Lands cfg s (s.claimInvites cfg.ttl code user now) := by
  refine lands_rewrite hSound (f := fun _ row => if Invitations.claimable cfg.ttl code now row then
      { row with status := .claimed, claimedBy := some user, claimedAt := some now } else row)
    (fun id => List.getElem?_map ..) (fun _ row hRow => ?_) (Nat.le_refl _) fun _ _ row => ?_
  · by_cases hClaims : Invitations.claimable cfg.ttl code now row = true
    · rw [if_pos hClaims]
      simp only [Invitations.claimable, Bool.and_eq_true, decide_eq_true_eq] at hClaims
      obtain ⟨⟨-, hPending⟩, hTtl⟩ := hClaims
      refine .inr ⟨rfl, .inr (hSound.pending row hRow hPending), by simp, fun _ _ => ?_⟩
      refine ⟨now, rfl, fun ttl hSome => ?_⟩
      rw [hSome] at hTtl
      simpa using hTtl
    · exact .inl (if_neg hClaims)
  · split
    · exact .inr rfl
    · exact .inl rfl

theorem lands_modify {id revocations : Nat} {f : InviteRow → InviteRow} (hSound : Recorded cfg s)
    (hEach : ∀ row, Rewritten cfg row (f row)) (hMore : s.revocations ≤ revocations)
    (hStanding : revocations = 0 → ∀ row, (f row).status = .claimed) :
    Lands cfg s { s with invites := s.invites.modify id f, revocations } := by
  refine lands_rewrite hSound (f := fun place row => if id = place then f row else row)
    (fun place => ?_) (fun place row _ => ?_) hMore fun hZero place row => ?_
  · rw [List.getElem?_modify]
    rfl
  · split
    · exact .inr (hEach row)
    · exact .inl rfl
  · split
    · exact .inr (hStanding hZero row)
    · exact .inl rfl

theorem lands_gateEvent {event : GateEvent} {s' : Invitations} (hSound : Recorded cfg s)
    (hEvent : gateEvent event s = some s') : Lands cfg s s' := by
  cases event with
  | tick elapsed =>
      obtain rfl := Option.some.inj hEvent
      exact lands_tick elapsed hSound
  | create token =>
      simp only [gateEvent, Option.ite_none_left_eq_some, Option.some.injEq] at hEvent
      obtain ⟨hNew, rfl⟩ := hEvent
      exact lands_create hSound (by simpa using hNew)
  | revoke id =>
      simp only [gateEvent, Option.ite_none_right_eq_some, Option.some.injEq] at hEvent
      obtain ⟨-, rfl⟩ := hEvent
      exact lands_modify hSound (fun row => ⟨rfl, .inl rfl, by simp, fun hInTime => hInTime⟩)
        (Nat.le_succ _) fun hZero => absurd hZero (Nat.succ_ne_zero _)
  | restore id =>
      simp only [gateEvent, Option.ite_none_right_eq_some, Option.some.injEq] at hEvent
      obtain ⟨-, rfl⟩ := hEvent
      exact lands_modify hSound (fun row => ⟨rfl, .inl rfl, by simp, fun hInTime => hInTime⟩)
        (Nat.le_refl _) fun _ _ => rfl

/-! ## The protocol -/

def gateProtocol (cfg : GateConfig) : Protocol Invitations := Protocol.ofStep (Recorded cfg) Grows

/-- An assertion that stays true as the tables grow. -/
def Lasting (A : Invitations → Prop) : Prop := ∀ s s', A s → Grows s s' → A s'

theorem Lasting.kept {A : Invitations → Prop} (hLasting : Lasting A) : (gateProtocol cfg).Kept A :=
  Protocol.kept_ofStep fun s s' _ hA hGrows => hLasting s s' hA hGrows

theorem lasting_true : Lasting fun _ => True := fun _ _ _ _ => trivial

theorem lasting_admitted (user : UserId) : Lasting fun s => user ∈ s.admitted :=
  fun _ _ hUser hGrows => hGrows.admitted.subset hUser

theorem lasting_and {A B : Invitations → Prop} (hA : Lasting A) (hB : Lasting B) :
    Lasting fun s => A s ∧ B s :=
  fun s s' hBoth hGrows => ⟨hA s s' hBoth.1 hGrows, hB s s' hBoth.2 hGrows⟩

section Steps

variable {me : Nat} {α : Type} {A : Invitations → Prop}

theorem spec_atomic {B : α → Invitations → Prop} {f : Invitations → α × Invitations}
    (hLasting : Lasting A)
    (hStep : ∀ s, Recorded cfg s → A s → Lands cfg s (f s).2 ∧ B (f s).1 (f s).2) :
    Spec (gateProtocol cfg) me A (Co.atomic f : Gate α) B := by
  refine Co.triple_atomic (hLasting.kept.stable me) fun s hSound hA => ?_
  obtain ⟨⟨hSound', hGrows⟩, hPost⟩ := hStep s hSound hA
  exact ⟨hSound', hGrows, hPost⟩

theorem spec_read {B : α → Invitations → Prop} {f : Invitations → α} (hLasting : Lasting A)
    (hRead : ∀ s, Recorded cfg s → A s → B (f s) s) :
    Spec (gateProtocol cfg) me A (Co.read f : Gate α) B :=
  spec_atomic (f := fun s => (f s, s)) hLasting fun s hSound hA =>
    ⟨lands_refl hSound, hRead s hSound hA⟩

theorem spec_modify {B : Invitations → Prop} {f : Invitations → Invitations} (hLasting : Lasting A)
    (hStep : ∀ s, Recorded cfg s → A s → Lands cfg s (f s) ∧ B (f s)) :
    Spec (gateProtocol cfg) me A (Co.modify f : Gate Unit) fun _ => B :=
  spec_atomic (f := fun s => ((), f s)) hLasting hStep

end Steps

/-! ## A message relies only on what lasts -/

variable {me : Nat}

/-- A link belongs to its owner. -/
def Owns (owner : UserId) (code : Text) (s : Invitations) : Prop :=
  ∃ row ∈ s.codes, row.ownerUserId = owner ∧ row.code = code

theorem lasting_owns (owner : UserId) (code : Text) : Lasting (Owns owner code) :=
  fun _ _ hOwns hGrows => hOwns.elim fun row hRow => ⟨row, hGrows.codes.subset hRow.1, hRow.2⟩

theorem owns_of_codeRowOf {owner : UserId} {row : ReferralCodeRow}
    (hRow : s.codeRowOf owner = some row) : Owns owner row.code s :=
  ⟨row, List.mem_of_find?_eq_some hRow, by simpa using List.find?_some hRow, rfl⟩

theorem spec_codeOf (owner : UserId) (token : Text) :
    Spec (gateProtocol cfg) me (fun s => owner ∈ s.admitted) (codeOf owner token)
      fun code s => Owns owner code s := by
  have hOwner := lasting_admitted owner
  have hFound : ∀ {s : Invitations} (row : ReferralCodeRow), s.codeRowOf owner = some row →
      Owns owner row.code s := fun _ hRow => owns_of_codeRowOf hRow
  refine (spec_read (B := fun found s => owner ∈ s.admitted ∧
    ∀ row, found = some row → Owns owner row.code s) hOwner
    fun s _ hA => ⟨hA, fun row hEq => hFound row hEq⟩).bind fun found => ?_
  cases found with
  | some row => exact Co.triple_done fun s _ hBoth => hBoth.2 row rfl
  | none =>
      refine ((spec_atomic (B := fun inserted s => inserted = true → Owns owner token s) hOwner
        fun s hSound hA => ⟨lands_insertCode token hSound hA, fun hInserted => ?_⟩).pre
        fun s _ hBoth => hBoth.1).bind fun inserted => ?_
      · unfold Invitations.insertCode at hInserted ⊢
        split
        · rename_i hTaken
          simp [hTaken] at hInserted
        · exact ⟨_, List.mem_append_right _ (List.mem_singleton.mpr rfl), rfl, rfl⟩
      · cases inserted with
        | true => exact Co.triple_done fun s _ hOwns => hOwns rfl
        | false =>
            refine ((spec_read (B := fun found s => ∀ row, found = some row → Owns owner row.code s)
              lasting_true fun s _ _ row hEq => hFound row hEq).pre fun _ _ _ => trivial).bind
              fun found => ?_
            cases found with
            | some won => exact Co.triple_done fun s _ hOwns => hOwns won rfl
            | none => exact Co.triple_fail trivial

theorem spec_dispatchText (user : UserId) (text token : Text) :
    Spec (gateProtocol cfg) me (fun s => user ∈ s.admitted) (dispatchText cfg user text token)
      fun _ _ => True := by
  have hDone : Spec (gateProtocol cfg) me (fun s => user ∈ s.admitted) (pure () : Gate Unit)
      fun _ _ => True := Co.triple_done fun _ _ _ => trivial
  unfold dispatchText
  split
  · exact hDone
  · split
    · exact hDone
    · split
      · unfold sendReferralLink
        split
        · exact (spec_codeOf user token).bind fun code => spec_modify (lasting_owns user code)
            fun s hSound hOwns => ⟨lands_handOut hSound hOwns, trivial⟩
        · exact hDone
      · exact hDone

/-- Where registration is closed, there is a chain behind the user. -/
def Vouched (cfg : GateConfig) (user : UserId) (s : Invitations) : Prop :=
  cfg.openRegistration = false → Grounded cfg s user

theorem lasting_vouched (user : UserId) : Lasting (Vouched cfg user) :=
  fun _ _ hVouched hGrows hClosed => (hVouched hClosed).grows hGrows

theorem Recorded.vouched (hSound : Recorded cfg s) {user : UserId} (hUser : user ∈ s.admitted) :
    Vouched cfg user s := fun hClosed => hSound.grounded hClosed user hUser

/-- The owner of a link was in before the user, unless that has an attribution already. -/
def Precedes (cfg : GateConfig) (owner user : UserId) (s : Invitations) : Prop :=
  cfg.openRegistration = false → s.revocations = 0 →
    (∃ row ∈ s.claims, row.userId = user) ∨ Preceded s.admitted owner user

theorem lasting_precedes (owner user : UserId) : Lasting (Precedes cfg owner user) := by
  intro s s' hPrecedes hGrows hClosed hZero
  rcases hPrecedes hClosed (Nat.le_zero.mp (hZero ▸ hGrows.revocations)) with ⟨row, hRow⟩ | hBefore
  · exact .inl ⟨row, hGrows.claims.subset hRow.1, hRow.2⟩
  · exact .inr (preceded_grows hBefore hGrows)

theorem invited_of_getByUser {user : UserId} {row : InviteRow}
    (hRow : s.getByUser user = some row) :
    Invited s user :=
  ⟨row, List.mem_of_find?_eq_some hRow, by simpa using List.find?_some hRow⟩

/-- Who shows no claimed invite while no invite has been taken back is not in yet. -/
theorem Recorded.precedes (hSound : Recorded cfg s) {owner user : UserId}
    (hNot : isAdmin cfg user = false) (hOwner : owner ∈ s.admitted)
    (hNone : ((s.getByUser user).any fun row => row.status = .claimed) = false) :
    Precedes cfg owner user s := by
  intro hClosed hZero
  by_cases hUser : user ∈ s.admitted
  · rcases hSound.cases_of_admitted hClosed hUser hNot with ⟨row, hRow, hClaimed⟩ | hClaim
    · obtain ⟨first, hFirst⟩ : ∃ first, s.getByUser user = some first :=
        Option.isSome_iff_exists.mp (by
          simp only [Invitations.getByUser, List.find?_isSome, decide_eq_true_eq]
          exact ⟨row, hRow, hClaimed⟩)
      have hBy : first.claimedBy = some user := by simpa using List.find?_some hFirst
      have hStands := hSound.standing hZero first (List.mem_of_find?_eq_some hFirst) (by simp [hBy])
      simp [hFirst, hStands] at hNone
    · exact .inl hClaim
  · exact .inr (preceded_of_not_mem hOwner hUser)

/-! ## The gate -/

theorem spec_isMember {user : UserId} (owner : Option UserId) (hNot : isAdmin cfg user = false) :
    Spec (gateProtocol cfg) me (fun s => ∀ x ∈ owner, x ∈ s.admitted) (isMember cfg user)
      fun member s => (member = true → Vouched cfg user s) ∧
        (member = false → ∀ x ∈ owner, cfg.referrals = true → Precedes cfg x user s) := by
  have hOwner : Lasting fun s => ∀ x ∈ owner, x ∈ s.admitted :=
    fun _ _ hAll hGrows x hX => hGrows.admitted.subset (hAll x hX)
  refine (spec_read (B := fun invite s =>
    ((invite.any fun row => row.status = .claimed) = true → Vouched cfg user s) ∧
    ((invite.any fun row => row.status = .claimed) = false → ∀ x ∈ owner, Precedes cfg x user s))
    hOwner fun s hSound hAll => ⟨fun hSome _ => ?_, fun hNone x hX =>
      hSound.precedes hNot (hAll x hX) hNone⟩).bind fun invite => ?_
  · cases hFound : s.getByUser user with
    | none => simp [hFound] at hSome
    | some row => exact .invited (invited_of_getByUser hFound)
  · split
    · rename_i hSome
      exact Co.triple_done fun s _ hBoth => ⟨fun _ => hBoth.1 hSome, fun hEq => by simp at hEq⟩
    · rename_i hNone
      have hNone' := Bool.eq_false_iff.mpr hNone
      split
      · refine (spec_read (A := fun s => ∀ x ∈ owner, Precedes cfg x user s)
          (fun s s' hAll hGrows x hX => lasting_precedes x user s s' (hAll x hX) hGrows)
          fun s hSound hAll => ⟨fun hSome hClosed => ?_, fun _ x hX _ => hAll x hX⟩).pre
          fun s _ hBoth => hBoth.2 hNone'
        obtain ⟨row, hRow, rfl⟩ := claimOf_isSome_iff.mp hSome
        exact hSound.grounded_of_claim hClosed hRow
      · rename_i hReferrals
        exact Co.triple_done fun s _ hBoth =>
          ⟨fun hEq => by simp at hEq, fun _ _ _ hOn => absurd hOn hReferrals⟩

theorem spec_recordClaim (user referrer : UserId) (code : Text) :
    Spec (gateProtocol cfg) me (fun s => referrer ∈ s.admitted ∧ Precedes cfg referrer user s)
      (recordClaim user referrer code) fun _ s => ∃ row ∈ s.claims, row.userId = user := by
  have hLasting : Lasting fun s => referrer ∈ s.admitted ∧ Precedes cfg referrer user s :=
    lasting_and (lasting_admitted referrer) (lasting_precedes referrer user)
  refine (spec_read (B := fun found s =>
    (∀ row, found = some row → ∃ row ∈ s.claims, row.userId = user) ∧
    referrer ∈ s.admitted ∧ Precedes cfg referrer user s) hLasting
    fun s _ hBoth => ⟨fun row hEq => ?_, hBoth⟩).bind fun found => ?_
  · exact ⟨row, List.mem_of_find?_eq_some hEq, by simpa using List.find?_some hEq⟩
  · cases found with
    | some row => exact Co.triple_done fun s _ hFound => hFound.1 row rfl
    | none =>
        refine (spec_modify hLasting fun s hSound hBoth => ⟨lands_insertClaim code hSound
          (hSound.vouched hBoth.1) hBoth.2, ?_⟩).pre fun s _ hFound => hFound.2
        unfold Invitations.insertClaim
        split
        · rename_i hSome
          exact claimOf_isSome_iff.mp hSome
        · exact ⟨_, List.mem_append_right _ (List.mem_singleton.mpr rfl), rfl⟩

theorem spec_claim (code : Text) (user : UserId) :
    Spec (gateProtocol cfg) me (fun _ => True) (claim cfg code user)
      fun _ s => Invited s user := by
  refine (spec_read (B := fun _ _ => True) lasting_true fun _ _ _ => trivial).bind fun read => ?_
  obtain ⟨row, now⟩ := read
  cases row with
  | none => exact Co.triple_fail trivial
  | some row =>
      refine Co.triple_attempt ((Protocol.Kept.true (gateProtocol cfg)).stable me)
        fun s hSound _ => ?_
      obtain ⟨hSame, hGrows⟩ := lands_refl hSound
      split
      · rename_i hAny
        obtain ⟨hSound', hClaims⟩ : Lands cfg s (s.claimInvites cfg.ttl code user now) :=
          lands_claimInvites hSound
        refine ⟨hSound', hClaims, fun _ _ => ?_, fun _ _ => trivial⟩
        obtain ⟨found, hFound, hClaimable⟩ := List.any_eq_true.mp hAny
        exact ⟨_, List.mem_map.mpr ⟨found, hFound, if_pos hClaimable⟩, rfl⟩
      · split
        · exact ⟨hSame, hGrows, fun _ hEq => by simp at hEq, fun _ _ => trivial⟩
        · exact ⟨hSame, hGrows, fun _ hEq => by simp at hEq, fun _ _ => trivial⟩

/-- A decision that lets a user in has a chain behind it. -/
def Decides (cfg : GateConfig) (user : UserId) (decision : MembershipDecision)
    (s : Invitations) : Prop :=
  decision = .allow ∨ decision = .allowWithWelcome → Vouched cfg user s

theorem decides_deny {user : UserId} {decision : MembershipDecision} {s : Invitations}
    (hDeny : decision = .denyInviteInvalid ∨ decision = .denyNoAccess) :
    Decides cfg user decision s := by
  rintro (rfl | rfl)
  · simp at hDeny
  · simp at hDeny

theorem spec_deny {user : UserId} {decision : MembershipDecision} {A : Invitations → Prop}
    (hDeny : decision = .denyInviteInvalid ∨ decision = .denyNoAccess) :
    Spec (gateProtocol cfg) me A (pure decision : Gate MembershipDecision) (Decides cfg user) :=
  Co.triple_done fun _ _ _ => decides_deny hDeny

theorem spec_claimCode (code : Text) (user : UserId) :
    Spec (gateProtocol cfg) me (fun _ => True) (claimCode cfg code user) (Decides cfg user) := by
  refine Triple.tryCatch ((spec_claim code user).bind fun _ =>
    Co.triple_done fun s _ hInvited _ _ => .invited hInvited) fun error _ => ?_
  cases error with
  | notFound => exact spec_deny (.inl rfl)
  | alreadyClaimed => exact spec_deny (.inl rfl)
  | expired => exact spec_deny (.inl rfl)
  | assertion => exact Co.triple_fail trivial

theorem spec_claimReferral {user : UserId} (code : Text) (hNot : isAdmin cfg user = false)
    (hReferrals : cfg.referrals = true) :
    Spec (gateProtocol cfg) me (fun _ => True) (claimReferral cfg code user)
      (Decides cfg user) := by
  refine (spec_read (B := fun owner s => ∀ x ∈ owner, x ∈ s.admitted) lasting_true
    fun s hSound _ x hX => ?_).bind fun owner => ?_
  · obtain ⟨row, hRow, rfl⟩ := Option.map_eq_some_iff.mp hX
    exact hSound.owners row (List.mem_of_find?_eq_some hRow)
  · cases owner with
    | none => exact spec_deny (.inl rfl)
    | some owner =>
        show Spec _ _ _ (ite _ _ _) _
        split
        · exact spec_deny (.inl rfl)
        · have hAdmitted : Lasting fun s => ∀ x ∈ some owner, x ∈ s.admitted :=
            fun _ _ hAll hGrows x hX => hGrows.admitted.subset (hAll x hX)
          refine (((spec_isMember (some owner) hNot).frame (hAdmitted.kept)).pre
            fun s _ hAll => ⟨hAll, hAll⟩).bind fun member => ?_
          cases member with
          | true => exact Co.triple_done fun s _ hBoth _ => hBoth.1.1 rfl
          | false =>
              refine ((spec_recordClaim user owner code).pre fun s _ hBoth =>
                ⟨hBoth.2 owner rfl, hBoth.1.2 rfl owner rfl hReferrals⟩).bind fun _ => ?_
              exact Co.triple_done fun s hSound hClaim _ hClosed => hClaim.elim fun row hRow =>
                hRow.2 ▸ hSound.grounded_of_claim hClosed hRow.1

theorem spec_decideMember {user : UserId} (text : Text) (hNot : isAdmin cfg user = false) :
    Spec (gateProtocol cfg) me (fun _ => True) (decideMember cfg user text) (Decides cfg user) := by
  unfold decideMember
  split
  · split
    · rename_i hBoth
      exact spec_claimReferral _ hNot (Bool.and_eq_true_iff.mp hBoth).2
    · exact spec_claimCode _ user
  · refine ((spec_isMember none hNot).pre fun s _ _ x hX => by simp at hX).bind fun member => ?_
    cases member with
    | true => exact Co.triple_done fun s _ hBoth _ => hBoth.1 rfl
    | false => exact spec_deny (.inr rfl)

theorem spec_check (user : UserId) (text : Text) :
    Spec (gateProtocol cfg) me (fun _ => True) (check cfg user text) (Decides cfg user) := by
  unfold check
  split
  · rename_i hAdmin
    exact Co.triple_done fun s _ _ _ _ => .admin hAdmin
  · rename_i hNot
    refine (spec_decideMember text (Bool.eq_false_iff.mpr hNot)).bind fun decision => ?_
    split
    · rename_i hOpen
      have hOpen := (Bool.and_eq_true_iff.mp hOpen).1
      exact Co.triple_done fun s _ _ _ hClosed => absurd hOpen (by simp [hClosed])
    · exact Co.triple_done fun s _ hDecides => hDecides

theorem spec_handle (user : UserId) (text token : Text) (active : Bool) :
    Spec (gateProtocol cfg) me (fun _ => True) (handle cfg user text token active)
      fun _ _ => True := by
  have hLetIn : Spec (gateProtocol cfg) me (Vouched cfg user) (do
      Co.modify (Invitations.letIn user)
      if active then dispatchText cfg user text token else pure () : Gate Unit)
      fun _ _ => True := by
    refine (spec_modify (B := fun s => user ∈ s.admitted) (lasting_vouched user)
      fun s hSound hVouched => ⟨lands_letIn hSound hVouched,
        List.mem_append_right _ (List.mem_singleton.mpr rfl)⟩).bind fun _ => ?_
    split
    · exact spec_dispatchText user text token
    · exact Co.triple_done fun _ _ _ => trivial
  refine (spec_check user text).bind fun decision => ?_
  cases decision with
  | allow => exact hLetIn.pre fun s _ hDecides => hDecides (.inl rfl)
  | allowWithWelcome => exact hLetIn.pre fun s _ hDecides => hDecides (.inr rfl)
  | denyInviteInvalid => exact Co.triple_done fun _ _ _ => trivial
  | denyNoAccess => exact Co.triple_done fun _ _ _ => trivial

/-! ## Every run -/

theorem gate_follows (cfg : GateConfig) : (gate cfg).Follows (gateProtocol cfg) where
  body_safe call me s hSound :=
    (spec_handle call.user call.text call.token call.active s hSound trivial).mono
      fun _ _ _ => trivial
  event_env _ _ _ hSound hEvent := lands_gateEvent hSound hEvent
  crash_inv s s' hSound hCrash := by
    obtain rfl := Option.some.inj hCrash
    exact hSound

theorem recorded_empty (cfg : GateConfig) : Recorded cfg {} where
  pending _ hMem := by simp at hMem
  inTime _ hMem := by simp at hMem
  distinct := List.nodup_nil
  owners _ hMem := by simp at hMem
  oneCode := List.nodup_nil
  oneOwner := List.nodup_nil
  oneClaim := List.nodup_nil
  handed _ hMem := by simp at hMem
  standing _ _ hMem := by simp at hMem
  grounded _ _ hMem := by simp at hMem
  referrers _ _ hMem := by simp at hMem
  earlier _ _ _ hMem := by simp at hMem

theorem recorded_of_run {q : Pool Invitations GateError}
    (hRun : System.Run (gate cfg) { st := {} } q) :
    Recorded cfg q.st :=
  (hRun.sound (gate_follows cfg) (System.PoolSafe.initial (recorded_empty cfg))).1

theorem grows_of_run {p q : Pool Invitations GateError}
    (hFirst : System.Run (gate cfg) { st := {} } p) (hSecond : System.Run (gate cfg) p q) :
    Grows p.st q.st := by
  have hSafe := hFirst.sound (gate_follows cfg) (System.PoolSafe.initial (recorded_empty cfg))
  refine System.Run.preserves (gate_follows cfg) (A := Grows p.st) (fun t t' _ hBefore hStep => ?_)
    hSecond hSafe (Grows.refl p.st)
  refine hBefore.trans ?_
  cases hStep with
  | idle hEq => exact hEq ▸ Grows.refl t
  | guarantee _ hGrows => exact hGrows
  | env hGrows => exact hGrows
  | crash hCrash =>
      obtain rfl := Option.some.inj hCrash
      exact Grows.refl t

/-- With registration closed, everybody the gate ever let in is an admin, has claimed a code of the
operator, or was brought by somebody of whom the same is true; and the same goes for everybody
who has a link to give. -/
theorem everyone_grounded {q : Pool Invitations GateError} (hClosed : cfg.openRegistration = false)
    (hRun : System.Run (gate cfg) { st := {} } q) :
    (∀ user ∈ q.st.admitted, Grounded cfg q.st user) ∧
    ∀ row ∈ q.st.codes, Grounded cfg q.st row.ownerUserId := by
  have hSound := recorded_of_run hRun
  exact ⟨hSound.grounded hClosed, fun row hRow =>
    hSound.grounded hClosed _ (hSound.owners row hRow)⟩

/-- With registration closed and no invite taken back, who brought whom is a forest: everybody has
been brought by one at most, who was in before, and no chain of referrals comes back. -/
theorem referrals_are_a_forest {q : Pool Invitations GateError}
    (hClosed : cfg.openRegistration = false) (hRun : System.Run (gate cfg) { st := {} } q)
    (hNone : q.st.revocations = 0) :
    (∀ user x y, Brought q.st user x → Brought q.st user y → x = y) ∧
    (∀ user referrer, Brought q.st user referrer → Preceded q.st.admitted referrer user) ∧
    ∀ user, ¬ Relation.TransGen (Brought q.st) user user := by
  have hSound := recorded_of_run hRun
  have hEarlier : ∀ user referrer, Brought q.st user referrer →
      Preceded q.st.admitted referrer user := by
    rintro user referrer ⟨row, hRow, rfl, rfl⟩
    exact hSound.earlier hClosed hNone row hRow
  refine ⟨?_, hEarlier, not_transGen_self hEarlier⟩
  exact fun user x y hX hY => hSound.brought_unique hX hY

/-- A code of the operator is good for one account, in time and for good; a link leads to who it
was given to, and to nobody else, for good; and an attribution stands. -/
theorem entries_stand {p q : Pool Invitations GateError}
    (hFirst : System.Run (gate cfg) { st := {} } p) (hSecond : System.Run (gate cfg) p q) :
    (∀ row ∈ p.st.invites, ∀ user, row.claimedBy = some user → InTime cfg row ∧
      (∃ row' ∈ q.st.invites, row'.code = row.code) ∧
      ∀ row' ∈ q.st.invites, row'.code = row.code → row'.claimedBy = some user) ∧
    (∀ link ∈ p.st.handedOut, q.st.ownerOf link.2 = some link.1 ∧
      ∀ other ∈ q.st.handedOut, other.1 = link.1 ↔ other.2 = link.2) ∧
    ∀ user referrer, Brought p.st user referrer →
      Brought q.st user referrer ∧ ∀ other, Brought q.st user other → other = referrer := by
  have hBefore := recorded_of_run hFirst
  have hSound := recorded_of_run (hFirst.trans hSecond)
  have hGrows := grows_of_run hFirst hSecond
  refine ⟨fun row hRow user hClaimed => ⟨hBefore.inTime row hRow, ?_⟩, fun link hLink => ?_,
    fun user referrer hBrought => ⟨hBrought.grows hGrows, fun other hOther =>
      hSound.brought_unique hOther (hBrought.grows hGrows)⟩⟩
  · obtain ⟨id, hAt⟩ := List.mem_iff_getElem?.mp hRow
    obtain ⟨row', hRow', hEvolves⟩ := hGrows.invites id row hAt
    have hMem := List.mem_of_getElem? hRow'
    refine ⟨⟨row', hMem, hEvolves.code⟩, fun other hOther hCode => ?_⟩
    rw [List.inj_on_of_nodup_map hSound.distinct hOther hMem (hCode.trans hEvolves.code.symm)]
    exact hEvolves.claimed user hClaimed
  · obtain ⟨row, hRow, hOwner, hCode⟩ := hSound.handed link (hGrows.handedOut.subset hLink)
    refine ⟨hSound.ownerOf_of_mem hRow hOwner hCode, fun other hOther => ?_⟩
    obtain ⟨row', hRow', hOwner', hCode'⟩ := hSound.handed other hOther
    constructor
    · intro hSame
      have hEq := List.inj_on_of_nodup_map hSound.oneCode hRow' hRow
        ((hOwner'.trans hSame).trans hOwner.symm)
      rw [← hCode', hEq, hCode]
    · intro hSame
      have hEq := List.inj_on_of_nodup_map hSound.oneOwner hRow' hRow
        ((hCode'.trans hSame).trans hCode.symm)
      rw [← hOwner', hEq, hOwner]

/-! ## Somebody is brought, and brings back who brought him -/

/-- A message, and its steps with nothing in between. -/
def tells (thread : Nat) (user text token : String) (steps : Nat) :
    List (System.Move (gate {})) :=
  .start { user := user.toList, text := text.toList, token := token.toList } ::
    List.replicate steps (.resume thread)

/-- The operator's guest brings a second one. -/
def guests : List (System.Move (gate {})) :=
  List.flatten [[.event (.create "a".toList)], tells 0 "tg:2" "/start a" "" 3,
    tells 1 "tg:2" "/invite" "k" 5, tells 2 "tg:3" "/start ref_k" "" 6]

/-- The second one has a link, too, and the first one is no longer welcome. -/
def returns : List (System.Move (gate {})) :=
  List.flatten [tells 3 "tg:3" "/invite" "m" 6, [.event (.revoke 0)],
    tells 4 "tg:2" "/start ref_m" "" 6]

theorem everyone_grounded_two_guests :
    ∃ q, System.Run (gate {}) { st := {} } q ∧
      q.st.admitted = ["tg:2".toList, "tg:2".toList, "tg:3".toList] ∧
      (∀ user ∈ q.st.admitted, Grounded {} q.st user) ∧
      ∀ row ∈ q.st.codes, Grounded {} q.st row.ownerUserId := by
  have hMoves : (System.moves guests { st := {} }).map (fun q => q.st.admitted) =
      some ["tg:2".toList, "tg:2".toList, "tg:3".toList] := by
    decide +kernel
  obtain ⟨q, hRun, hSeen⟩ := System.Run.exists_of_moves _ hMoves
  exact ⟨q, hRun, hSeen, everyone_grounded rfl hRun⟩

theorem referrals_are_a_forest_two_guests :
    ∃ q, System.Run (gate {}) { st := {} } q ∧ Brought q.st "tg:3".toList "tg:2".toList ∧
      (∀ user x y, Brought q.st user x → Brought q.st user y → x = y) ∧
      (∀ user referrer, Brought q.st user referrer → Preceded q.st.admitted referrer user) ∧
      ∀ user, ¬ Relation.TransGen (Brought q.st) user user := by
  have hMoves : (System.moves guests { st := {} }).map (fun q =>
      (q.st.claims.map fun row => (row.userId, row.referrerUserId), q.st.revocations)) =
      some ([("tg:3".toList, "tg:2".toList)], 0) := by
    decide +kernel
  obtain ⟨q, hRun, hSeen⟩ := System.Run.exists_of_moves _ hMoves
  obtain ⟨hClaims, hNone⟩ := Prod.mk.inj hSeen
  obtain ⟨row, hRow, hPair⟩ : ∃ row ∈ q.st.claims,
      (row.userId, row.referrerUserId) = ("tg:3".toList, "tg:2".toList) :=
    List.mem_map.mp (hClaims ▸ List.mem_singleton.mpr rfl)
  obtain ⟨hUser, hReferrer⟩ := Prod.mk.inj hPair
  exact ⟨q, hRun, ⟨row, hRow, hUser, hReferrer⟩, referrals_are_a_forest rfl hRun hNone⟩

/-- Once the invite of the first has been taken back, the second can bring the first. -/
theorem cycle_after_revocation :
    ∃ q, System.Run (gate {}) { st := {} } q ∧ Brought q.st "tg:3".toList "tg:2".toList ∧
      Brought q.st "tg:2".toList "tg:3".toList := by
  have hMoves : (System.moves (guests ++ returns) { st := {} }).map (fun q =>
      q.st.claims.map fun row => (row.userId, row.referrerUserId)) =
      some [("tg:3".toList, "tg:2".toList), ("tg:2".toList, "tg:3".toList)] := by
    decide +kernel
  obtain ⟨q, hRun, hSeen⟩ := System.Run.exists_of_moves _ hMoves
  have hBrought : ∀ pair ∈ q.st.claims.map fun row => (row.userId, row.referrerUserId),
      Brought q.st pair.1 pair.2 := by
    intro pair hPair
    obtain ⟨row, hRow, rfl⟩ := List.mem_map.mp hPair
    exact ⟨row, hRow, rfl, rfl⟩
  rw [hSeen] at hBrought
  exact ⟨q, hRun, hBrought _ List.mem_cons_self,
    hBrought _ (List.mem_cons_of_mem _ List.mem_cons_self)⟩

theorem entries_stand_two_guests :
    ∃ p q, System.Run (gate {}) { st := {} } p ∧ System.Run (gate {}) p q ∧
      p.st.handedOut = [("tg:2".toList, "k".toList)] ∧ q.st.revocations = 1 ∧
      (∀ row ∈ p.st.invites, ∀ user, row.claimedBy = some user → InTime {} row ∧
        (∃ row' ∈ q.st.invites, row'.code = row.code) ∧
        ∀ row' ∈ q.st.invites, row'.code = row.code → row'.claimedBy = some user) ∧
      (∀ link ∈ p.st.handedOut, q.st.ownerOf link.2 = some link.1 ∧
        ∀ other ∈ q.st.handedOut, other.1 = link.1 ↔ other.2 = link.2) ∧
      ∀ user referrer, Brought p.st user referrer →
        Brought q.st user referrer ∧ ∀ other, Brought q.st user other → other = referrer := by
  have hMoves : ((System.moves guests { st := {} }).bind fun p =>
      (System.moves returns p).map fun q => (p.st.handedOut, q.st.revocations)) =
      some ([("tg:2".toList, "k".toList)], 1) := by
    decide +kernel
  obtain ⟨p, q, hFirst, hSecond, hSeen⟩ := System.Run.exists_of_moves_twice _ _ hMoves
  obtain ⟨hLinks, hTaken⟩ := Prod.mk.inj hSeen
  exact ⟨p, q, hFirst, hSecond, hLinks, hTaken, entries_stand hFirst hSecond⟩

end Telegram
end OctoForge
