import OctoForge.Coop.Pool
import OctoForge.Telegram.Bridge
import OctoForge.Text

/-!
# The invite gate

Who writes to the bot for the first time needs a way in: a code of the operator, which is good for
one account, or the personal link of somebody who is in.  Messages are handled side by side, in
one process or in several, and all of them work on the same tables.

A statement of the database is one step.  `admitted`, `handedOut` and `revocations` are read by
nothing: whom the gate has let in, which codes were given to whom, and how often the operator took
an invite back.
-/

namespace OctoForge
namespace Telegram

open Coop

abbrev UserId := Text

def userIdPrefix : Text := "tg:".toList

def commandStart : Text := "/start".toList

def commandSecrets : Text := "/secrets".toList

def commandInvite : Text := "/invite".toList

def referralPrefix : Text := "ref_".toList

/-! ## The tables -/

inductive InviteStatus where
  | pending
  | claimed
  | revoked
  deriving DecidableEq, Repr

/-- An invite; its id is its place. -/
structure InviteRow where
  code : Text
  status : InviteStatus := .pending
  createdAt : Nat
  claimedAt : Option Nat := none
  revokedAt : Option Nat := none
  claimedBy : Option UserId := none
  deriving DecidableEq, Repr

structure ReferralCodeRow where
  code : Text
  ownerUserId : UserId
  createdAt : Nat
  deriving DecidableEq, Repr

structure ReferralClaimRow where
  userId : UserId
  referrerUserId : UserId
  code : Text
  claimedAt : Nat
  deriving DecidableEq, Repr

structure Invitations where
  now : Nat := 0
  invites : List InviteRow := []
  codes : List ReferralCodeRow := []
  claims : List ReferralClaimRow := []
  admitted : List UserId := []
  handedOut : List (UserId × Text) := []
  revocations : Nat := 0

structure GateConfig where
  admins : List Int := []
  /-- How long a pending code can be claimed. -/
  ttl : Option Nat := none
  /-- There is a store for referrals. -/
  referrals : Bool := true
  openRegistration : Bool := false
  /-- `int(raw)`. -/
  readInt : Text → Option Int := OctoForge.Text.readInt?

inductive GateError where
  | notFound
  | alreadyClaimed
  | expired
  | assertion
  deriving DecidableEq, Repr

inductive MembershipDecision where
  | allow
  | allowWithWelcome
  | denyInviteInvalid
  | denyNoAccess
  deriving DecidableEq, Repr

namespace Invitations

def inviteOf (code : Text) (s : Invitations) : Option InviteRow :=
  s.invites.find? fun row => row.code = code

/-- `get_by_user`. -/
def getByUser (user : UserId) (s : Invitations) : Option InviteRow :=
  s.invites.find? fun row => row.claimedBy = some user

def codeRowOf (owner : UserId) (s : Invitations) : Option ReferralCodeRow :=
  s.codes.find? fun row => row.ownerUserId = owner

/-- `owner_of`. -/
def ownerOf (code : Text) (s : Invitations) : Option UserId :=
  (s.codes.find? fun row => row.code = code).map (·.ownerUserId)

/-- `claim_of`. -/
def claimOf (user : UserId) (s : Invitations) : Option ReferralClaimRow :=
  s.claims.find? fun row => row.userId = user

/-- What the `UPDATE` of `claim` is about. -/
def claimable (ttl : Option Nat) (code : Text) (now : Nat) (row : InviteRow) : Bool :=
  row.code = code && row.status = .pending && ttl.all fun ttl => now < row.createdAt + ttl

def claimInvites (ttl : Option Nat) (code : Text) (user : UserId) (now : Nat) (s : Invitations) :
    Invitations :=
  { s with invites := s.invites.map fun row =>
      if claimable ttl code now row then
        { row with status := .claimed, claimedBy := some user, claimedAt := some now }
      else row }

/-- The `INSERT` of `record_claim`. -/
def insertClaim (user referrer : UserId) (code : Text) (s : Invitations) : Invitations :=
  if (s.claimOf user).isSome then s
  else { s with claims := s.claims ++ [⟨user, referrer, code, s.now⟩] }

/-- The `INSERT` of `code_of`: the owner and the code are unique. -/
def insertCode (owner : UserId) (token : Text) (s : Invitations) : Bool × Invitations :=
  if s.codes.any fun row => row.ownerUserId = owner || row.code = token then (false, s)
  else (true, { s with codes := s.codes ++ [⟨token, owner, s.now⟩] })

def letIn (user : UserId) (s : Invitations) : Invitations :=
  { s with admitted := s.admitted ++ [user] }

def handOut (user : UserId) (code : Text) (s : Invitations) : Invitations :=
  { s with handedOut := s.handedOut ++ [(user, code)] }

end Invitations

/-! ## The stores and the gate -/

abbrev Gate (α : Type) := Co Invitations GateError α

/-- `claim`. -/
def claim (cfg : GateConfig) (code : Text) (user : UserId) : Gate Unit := do
  let (row, now) ← Co.read fun s : Invitations => (s.inviteOf code, s.now)
  match row with
  | none => Co.throw .notFound
  | some row =>
      Co.attempt fun s =>
        if s.invites.any (Invitations.claimable cfg.ttl code now) then
          (.ok (), s.claimInvites cfg.ttl code user now)
        else if row.status = .pending then (.error .expired, s)
        else (.error .alreadyClaimed, s)

/-- `record_claim`. -/
def recordClaim (user referrer : UserId) (code : Text) : Gate Unit := do
  match ← Co.read (Invitations.claimOf user) with
  | some _ => pure ()
  | none => Co.modify (Invitations.insertClaim user referrer code)

/-- `code_of`, which has drawn a token in case it needs one. -/
def codeOf (owner : UserId) (token : Text) : Gate Text := do
  match ← Co.read (Invitations.codeRowOf owner) with
  | some row => pure row.code
  | none => do
      match ← Co.atomic (Invitations.insertCode owner token) with
      | true => pure token
      | false => do
          -- the loser reads the winner's code
          match ← Co.read (Invitations.codeRowOf owner) with
          | some won => pure won.code
          | none => Co.throw .assertion

/-- `_is_member`. -/
def isMember (cfg : GateConfig) (user : UserId) : Gate Bool := do
  let invite ← Co.read (Invitations.getByUser user)
  if invite.any fun row => row.status = .claimed then pure true
  else if cfg.referrals then Co.read fun s => (s.claimOf user).isSome
  else pure false

/-- `_claim`. -/
def claimCode (cfg : GateConfig) (code : Text) (user : UserId) : Gate MembershipDecision :=
  Co.tryCatch (do claim cfg code user; pure .allowWithWelcome : Gate MembershipDecision)
    fun error =>
      match error with
      | .notFound | .alreadyClaimed | .expired => pure .denyInviteInvalid
      | .assertion => Co.throw .assertion

/-- `_claim_referral`. -/
def claimReferral (cfg : GateConfig) (code : Text) (user : UserId) : Gate MembershipDecision := do
  match ← Co.read (Invitations.ownerOf code) with
  | none => pure .denyInviteInvalid
  | some owner =>
      if owner = user then pure .denyInviteInvalid
      else do
        match ← isMember cfg user with
        | true => pure .allow
        | false => do
            recordClaim user owner code
            pure .allowWithWelcome

/-- `_start_code`. -/
def startCode (text : Text) : Option Text :=
  if (commandStart ++ [' ']).isPrefixOf text then
    let code := Text.strip (text.drop commandStart.length)
    if code.isEmpty then none else some code
  else none

/-- `_decide`. -/
def decideMember (cfg : GateConfig) (user : UserId) (text : Text) : Gate MembershipDecision :=
  match startCode text with
  | some code =>
      if referralPrefix.isPrefixOf code && cfg.referrals then
        claimReferral cfg (Text.removeStart referralPrefix code) user
      else claimCode cfg code user
  | none => do
      match ← isMember cfg user with
      | true => pure .allow
      | false => pure .denyNoAccess

/-- `chat_id_from_user_id`. -/
def chatIdFromUserId (cfg : GateConfig) (user : UserId) : Option Int :=
  if userIdPrefix.isPrefixOf user then cfg.readInt (Text.removeStart userIdPrefix user) else none

/-- The first lines of `check`. -/
def isAdmin (cfg : GateConfig) (user : UserId) : Bool :=
  (chatIdFromUserId cfg user).any fun id => cfg.admins.contains id

/-- `check`. -/
def check (cfg : GateConfig) (user : UserId) (text : Text) : Gate MembershipDecision :=
  if isAdmin cfg user then pure .allow
  else do
    let decision ← decideMember cfg user text
    if cfg.openRegistration && decision ≠ .allowWithWelcome then pure .allow else pure decision

/-! ## A message -/

/-- `_send_referral_link`. -/
def sendReferralLink (cfg : GateConfig) (user : UserId) (token : Text) : Gate Unit :=
  if cfg.referrals then do
    let code ← codeOf user token
    Co.modify (Invitations.handOut user code)
  else pure ()

/-- `_dispatch_text`, as far as it concerns the gate. -/
def dispatchText (cfg : GateConfig) (user : UserId) (text token : Text) : Gate Unit :=
  if text = commandStart || (startCode text).isSome then pure ()
  else if Text.strip text = commandSecrets then pure ()
  else if Text.strip text = commandInvite then sendReferralLink cfg user token
  else pure ()

/-- `_handle`, of a text message.  `active` is the verdict of the status gate, further in. -/
def handle (cfg : GateConfig) (user : UserId) (text token : Text) (active : Bool) : Gate Unit := do
  match ← check cfg user text with
  | .denyInviteInvalid | .denyNoAccess => pure ()
  | .allow | .allowWithWelcome => do
      Co.modify (Invitations.letIn user)
      if active then dispatchText cfg user text token else pure ()

/-! ## Messages, and the operator -/

structure GateCall where
  user : UserId
  text : Text
  /-- `secrets.token_urlsafe`. -/
  token : Text := []
  active : Bool := true

inductive GateEvent where
  | tick (elapsed : Nat)
  | create (token : Text)
  | revoke (id : Nat)
  | restore (id : Nat)

def gateEvent : GateEvent → Invitations → Option Invitations
  | .tick elapsed, s => some { s with now := s.now + elapsed }
  | .create token, s =>
      if (s.inviteOf token).isSome then none
      else some { s with invites := s.invites ++ [{ code := token, createdAt := s.now }] }
  | .revoke id, s =>
      if id < s.invites.length then
        some { s with
          invites := s.invites.modify id fun row =>
            { row with status := .revoked, revokedAt := some s.now }
          revocations := s.revocations + 1 }
      else none
  | .restore id, s =>
      if id < s.invites.length then
        some { s with invites := s.invites.modify id fun row =>
          { row with status := .claimed, revokedAt := none } }
      else none

/-- What is stored survives a crash; the messages in progress do not. -/
def gate (cfg : GateConfig) : System Invitations GateError where
  Call := GateCall
  body call _ := handle cfg call.user call.text call.token call.active
  Event := GateEvent
  event := gateEvent
  crash := some

end Telegram
end OctoForge
