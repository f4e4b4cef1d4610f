import Mathlib.Data.List.Induction
import Mathlib.Data.List.Nodup
import Mathlib.Logic.Function.Basic

/-!
# The claim repository

One row per dialog says which process runs its actor.  `claim` is an
unconditional upsert that bumps the row's generation, `heartbeat` refreshes
the claims a process still holds, `release` and `deleteForDialog` remove the
row.  Every call is one transaction, so a history of the repository is a list
of calls, each applied to the table the previous one left.

A claim is identified by the pair of its owner and its generation.  The
generation is counted by the row itself and starts again with it, so what a
history hands out is described by the **turn** of each claim: its owner and how
many claims the row has seen since it was last inserted.
-/

namespace OctoForge
namespace Ownership

/-- Identifiers are opaque in the source (hex strings); only equality matters. -/
abbrev DialogId := Nat

abbrev Owner := Nat

/-- Seconds on the database clock. -/
abbrev Time := Nat

/-- `DialogClaimRow` without its key. -/
structure ClaimRow where
  owner : Owner
  generation : Nat
  heartbeatAt : Time
  deriving DecidableEq, Repr

structure DialogClaim where
  dialogId : DialogId
  owner : Owner
  generation : Nat
  heartbeatAt : Time
  deriving DecidableEq, Repr

abbrev ClaimTable := DialogId → Option ClaimRow

/-- `FIRST_GENERATION`. -/
def firstGeneration : Nat := 1

/-- `_claim_upsert`: the row after INSERT, or after the bump on conflict. -/
def claimUpsert (row : Option ClaimRow) (owner : Owner) (now : Time) : ClaimRow :=
  match row with
  | none => { owner := owner, generation := firstGeneration, heartbeatAt := now }
  | some old => { owner := owner, generation := old.generation + 1, heartbeatAt := now }

@[simp] theorem claimUpsert_owner (row : Option ClaimRow) (owner : Owner) (now : Time) :
    (claimUpsert row owner now).owner = owner := by
  cases row <;> rfl

@[simp] theorem claimUpsert_heartbeatAt (row : Option ClaimRow) (owner : Owner) (now : Time) :
    (claimUpsert row owner now).heartbeatAt = now := by
  cases row <;> rfl

def claim (table : ClaimTable) (dialogId : DialogId) (owner : Owner) (now : Time) :
    DialogClaim × ClaimTable :=
  let row := claimUpsert (table dialogId) owner now
  ({ dialogId := dialogId, owner := owner, generation := row.generation, heartbeatAt := now },
    Function.update table dialogId (some row))

/-- The dict `{claim.dialog_id: claim for claim in claims}`: the last one wins. -/
def heldClaim (claims : List DialogClaim) (dialogId : DialogId) : Option DialogClaim :=
  claims.reverse.find? fun c => c.dialogId == dialogId

/-- Whether the stored row is still the given process's own claim. -/
def keepsClaim (table : ClaimTable) (claims : List DialogClaim) (dialogId : DialogId) : Bool :=
  match heldClaim claims dialogId, table dialogId with
  | some held, some row => held.owner == row.owner && held.generation == row.generation
  | _, _ => false

def heartbeat (table : ClaimTable) (claims : List DialogClaim) (now : Time) :
    List DialogId × ClaimTable :=
  let kept := (claims.map (·.dialogId)).filter (keepsClaim table claims)
  (kept, fun dialogId =>
    if dialogId ∈ kept then
      (table dialogId).map fun row => { row with heartbeatAt := now }
    else table dialogId)

def release (table : ClaimTable) (dialogId : DialogId) (owner : Owner) (generation : Nat) :
    ClaimTable :=
  match table dialogId with
  | some row =>
      if row.owner = owner ∧ row.generation = generation then
        Function.update table dialogId none
      else table
  | none => table

/-- Of `dialogIds`, those a different owner holds with a fresh heartbeat. -/
def heldElsewhere (table : ClaimTable) (dialogIds : List DialogId) (owner : Owner)
    (staleBefore : Time) : List DialogId :=
  dialogIds.filter fun dialogId =>
    match table dialogId with
    | some row => row.owner != owner && decide (staleBefore ≤ row.heartbeatAt)
    | none => false

def currentGeneration (table : ClaimTable) (dialogId : DialogId) : Option Nat :=
  (table dialogId).map (·.generation)

def deleteForDialog (table : ClaimTable) (dialogId : DialogId) : ClaimTable :=
  Function.update table dialogId none

/-- `ConversationRunner._still_owns_dialog`: the read may fail, and then the
check passes. -/
def stillOwnsDialog {ε : Type} (generation : Except ε (Option Nat)) (own : DialogClaim) : Bool :=
  match generation with
  | .error _ => true
  | .ok none => true
  | .ok (some stored) => stored == own.generation

/-! ## Histories -/

/-- One call on the repository that can change the table. -/
inductive ClaimCall where
  | claim (dialogId : DialogId) (owner : Owner) (now : Time)
  | heartbeat (claims : List DialogClaim) (now : Time)
  | release (dialogId : DialogId) (owner : Owner) (generation : Nat)
  | deleteForDialog (dialogId : DialogId)
  deriving DecidableEq, Repr

def applyCall (table : ClaimTable) : ClaimCall → ClaimTable
  | .claim dialogId owner now => (claim table dialogId owner now).2
  | .heartbeat claims now => (heartbeat table claims now).2
  | .release dialogId owner generation => release table dialogId owner generation
  | .deleteForDialog dialogId => deleteForDialog table dialogId

/-- The table a history leaves behind, starting with no claims at all. -/
def tableAfter (history : List ClaimCall) : ClaimTable :=
  history.foldl applyCall fun _ => none

/-- The claims a history hands out on one dialog, in order. -/
def issued (dialogId : DialogId) (table : ClaimTable) : List ClaimCall → List DialogClaim
  | [] => []
  | .claim dialogId' owner now :: rest =>
      let next := issued dialogId (applyCall table (.claim dialogId' owner now)) rest
      if dialogId' = dialogId then (claim table dialogId' owner now).1 :: next else next
  | call :: rest => issued dialogId (applyCall table call) rest

/-- The identity of a claim. -/
def DialogClaim.pair (c : DialogClaim) : Owner × Nat := (c.owner, c.generation)

/-- Whether the call claims the dialog. -/
def ClaimCall.claims (dialogId : DialogId) : ClaimCall → Bool
  | .claim dialogId' _ _ => dialogId' == dialogId
  | _ => false

/-! ## Turns

The row of a dialog lives from the claim that inserts it to the call that
removes it.  `lifetime` is what can be said about it from the calls alone. -/

/-- The owners that have claimed the dialog since its row was last inserted,
newest first, after one more call. -/
def lifetime (dialogId : DialogId) (owners : List Owner) : ClaimCall → List Owner
  | .claim dialogId' owner _ => if dialogId' = dialogId then owner :: owners else owners
  | .heartbeat _ _ => owners
  | .release dialogId' owner generation =>
      if dialogId' = dialogId ∧ owners.head? = some owner ∧ owners.length = generation then []
      else owners
  | .deleteForDialog dialogId' => if dialogId' = dialogId then [] else owners

def lifetimeAfter (dialogId : DialogId) (owners : List Owner) (history : List ClaimCall) :
    List Owner :=
  history.foldl (lifetime dialogId) owners

/-- The turns a history takes on one dialog: for every claim its owner and its
number among the claims of its row. -/
def turns (dialogId : DialogId) (owners : List Owner) : List ClaimCall → List (Owner × Nat)
  | [] => []
  | .claim dialogId' owner now :: rest =>
      let next := turns dialogId (lifetime dialogId owners (.claim dialogId' owner now)) rest
      if dialogId' = dialogId then (owner, owners.length + 1) :: next else next
  | call :: rest => turns dialogId (lifetime dialogId owners call) rest

/-- The stored row agrees with the lifetime: there is a row exactly when
somebody has claimed since the last removal, it carries the last claimant and
the number of claims. -/
def RowOf (row : Option ClaimRow) (owners : List Owner) : Prop :=
  row.map (fun r => (r.owner, r.generation)) =
    owners.head?.map fun owner => (owner, owners.length)

theorem RowOf.none_iff {row : Option ClaimRow} {owners : List Owner} (h : RowOf row owners) :
    row = none ↔ owners = [] := by
  cases row with
  | none =>
      cases owners with
      | nil => simp
      | cons owner rest => simp [RowOf] at h
  | some r =>
      cases owners with
      | nil => simp [RowOf] at h
      | cons owner rest => simp

theorem RowOf.claimUpsert {row : Option ClaimRow} {owners : List Owner} (h : RowOf row owners)
    (owner : Owner) (now : Time) :
    (claimUpsert row owner now).generation = owners.length + 1 := by
  cases row with
  | none =>
      have hNil : owners = [] := h.none_iff.mp rfl
      subst hNil
      rfl
  | some r =>
      cases owners with
      | nil => simp [RowOf] at h
      | cons last rest =>
          simp only [RowOf, Option.map_some, List.head?_cons, Option.some.injEq,
            Prod.mk.injEq] at h
          simp [Ownership.claimUpsert, h.2]

theorem release_of_ne {table : ClaimTable} {dialogId dialogId' : DialogId} {owner : Owner}
    {generation : Nat} (hNe : ¬dialogId' = dialogId) :
    release table dialogId' owner generation dialogId = table dialogId := by
  cases hRow : table dialogId' with
  | none => simp [release, hRow]
  | some row =>
      by_cases hOwn : row.owner = owner ∧ row.generation = generation
      · simp only [release, hRow, if_pos hOwn]
        rw [Function.update_of_ne (fun hEq => hNe hEq.symm)]
      · simp only [release, hRow, if_neg hOwn]

theorem RowOf.call {table : ClaimTable} {dialogId : DialogId} {owners : List Owner}
    (h : RowOf (table dialogId) owners) (call : ClaimCall) :
    RowOf (applyCall table call dialogId) (lifetime dialogId owners call) := by
  cases call with
  | claim dialogId' owner now =>
      by_cases hSame : dialogId' = dialogId
      · subst hSame
        have hGeneration := h.claimUpsert owner now
        simp [applyCall, claim, lifetime, RowOf, hGeneration]
      · simp only [applyCall, claim, lifetime, if_neg hSame]
        rw [Function.update_of_ne (fun hEq => hSame hEq.symm)]
        exact h
  | heartbeat claims now =>
      simp only [applyCall, heartbeat, lifetime]
      split
      · simpa [RowOf, Option.map_map, Function.comp_def] using h
      · exact h
  | release dialogId' owner generation =>
      by_cases hSame : dialogId' = dialogId
      · subst hSame
        cases hRow : table dialogId' with
        | none =>
            have hNil : owners = [] := (hRow ▸ h).none_iff.mp rfl
            subst hNil
            simp [applyCall, release, hRow, lifetime, RowOf]
        | some r =>
            cases owners with
            | nil => simp [RowOf, hRow] at h
            | cons last rest =>
                simp only [RowOf, hRow, Option.map_some, List.head?_cons, Option.some.injEq,
                  Prod.mk.injEq] at h
                -- The row is the last claim's: a release of an earlier one finds another owner or
                -- generation.
                by_cases hOwn : r.owner = owner ∧ r.generation = generation
                · have hLifetime : last = owner ∧ (last :: rest).length = generation :=
                    ⟨h.1.symm.trans hOwn.1, h.2.symm.trans hOwn.2⟩
                  simp only [applyCall, release, hRow, if_pos hOwn, lifetime, true_and,
                    List.head?_cons, Option.some.injEq, if_pos hLifetime]
                  simp [RowOf]
                · have hLifetime : ¬(last = owner ∧ (last :: rest).length = generation) := by
                    rintro ⟨hLast, hLength⟩
                    exact hOwn ⟨h.1.trans hLast, h.2.trans hLength⟩
                  simp only [applyCall, release, hRow, if_neg hOwn, lifetime, true_and,
                    List.head?_cons, Option.some.injEq, if_neg hLifetime]
                  simp [RowOf, h]
      · simp only [applyCall, release_of_ne hSame, lifetime, hSame, false_and, if_false]
        exact h
  | deleteForDialog dialogId' =>
      by_cases hSame : dialogId' = dialogId
      · subst hSame
        simp [applyCall, deleteForDialog, lifetime, RowOf]
      · simp only [applyCall, deleteForDialog, lifetime, if_neg hSame]
        rw [Function.update_of_ne (fun hEq => hSame hEq.symm)]
        exact h

theorem RowOf.calls {dialogId : DialogId} {table : ClaimTable} {owners : List Owner}
    (h : RowOf (table dialogId) owners) (history : List ClaimCall) :
    RowOf (history.foldl applyCall table dialogId)
      (lifetimeAfter dialogId owners history) := by
  induction history generalizing table owners with
  | nil => exact h
  | cons call rest ih => exact ih (h.call call)

/-- The row a history leaves behind, read off the calls. -/
theorem rowOf_tableAfter (dialogId : DialogId) (history : List ClaimCall) :
    RowOf (tableAfter history dialogId) (lifetimeAfter dialogId [] history) :=
  RowOf.calls (by simp [RowOf]) history

/-- A history hands out exactly its turns. -/
theorem issued_pairs {dialogId : DialogId} {table : ClaimTable} {owners : List Owner}
    (h : RowOf (table dialogId) owners) (history : List ClaimCall) :
    (issued dialogId table history).map DialogClaim.pair = turns dialogId owners history := by
  induction history generalizing table owners with
  | nil => rfl
  | cons call rest ih =>
      cases call with
      | claim dialogId' owner now =>
          have hRest := ih (h.call (.claim dialogId' owner now))
          by_cases hSame : dialogId' = dialogId
          · subst hSame
            have hGeneration := h.claimUpsert owner now
            simp only [issued, turns, if_true, List.map_cons, hRest]
            simp [DialogClaim.pair, claim, hGeneration]
          · simp only [issued, turns, if_neg hSame, hRest]
      | heartbeat claims now => exact ih (h.call (.heartbeat claims now))
      | release dialogId' owner generation =>
          exact ih (h.call (.release dialogId' owner generation))
      | deleteForDialog dialogId' => exact ih (h.call (.deleteForDialog dialogId'))

/-- The claim a history's last call hands out. -/
def claimAfter (history : List ClaimCall) (dialogId : DialogId) (owner : Owner) (now : Time) :
    DialogClaim :=
  (claim (tableAfter history) dialogId owner now).1

@[simp] theorem claimAfter_generation (history : List ClaimCall) (dialogId : DialogId)
    (owner : Owner) (now : Time) :
    (claimAfter history dialogId owner now).generation =
      (lifetimeAfter dialogId [] history).length + 1 :=
  (rowOf_tableAfter dialogId history).claimUpsert owner now

theorem turns_append (dialogId : DialogId) (owners : List Owner) (first second : List ClaimCall) :
    turns dialogId owners (first ++ second) =
      turns dialogId owners first ++
        turns dialogId (lifetimeAfter dialogId owners first) second := by
  induction first generalizing owners with
  | nil => rfl
  | cons call rest ih =>
      cases call with
      | claim dialogId' owner now =>
          simp only [List.cons_append, turns, lifetimeAfter, List.foldl_cons]
          rw [ih]
          split <;> rfl
      | heartbeat claims now => exact ih _
      | release dialogId' owner generation => exact ih _
      | deleteForDialog dialogId' => exact ih _

/-- A history that claims the dialog at all takes the turn its current
lifetime stands at. -/
theorem lifetime_turn_mem {dialogId : DialogId} {owners : List Owner} {history : List ClaimCall}
    {owner : Owner} {rest : List Owner}
    (hLife : lifetimeAfter dialogId owners history = owner :: rest)
    (hClaimed : history.any (ClaimCall.claims dialogId) = true) :
    (owner, rest.length + 1) ∈ turns dialogId owners history := by
  -- induction from the end: the last call either is the claim in question or
  -- leaves a lifetime that was already there
  induction history using List.reverseRecOn generalizing owner rest with
  | nil => simp at hClaimed
  | append_singleton history call ih =>
      rw [turns_append]
      simp only [lifetimeAfter, List.foldl_append, List.foldl_cons, List.foldl_nil] at hLife
      change lifetime dialogId (lifetimeAfter dialogId owners history) call = owner :: rest at hLife
      simp only [List.any_append, List.any_cons, List.any_nil, Bool.or_false,
        Bool.or_eq_true] at hClaimed
      cases call with
      | claim dialogId' owner' now =>
          by_cases hSame : dialogId' = dialogId
          · simp only [lifetime, if_pos hSame, List.cons.injEq] at hLife
            simp [turns, hSame, hLife]
          · simp only [lifetime, if_neg hSame] at hLife
            have hEarlier : history.any (ClaimCall.claims dialogId) = true := by
              simpa [ClaimCall.claims, hSame] using hClaimed
            exact List.mem_append_left _ (ih hLife hEarlier)
      | heartbeat claims now =>
          have hEarlier : history.any (ClaimCall.claims dialogId) = true := by
            simpa [ClaimCall.claims] using hClaimed
          exact List.mem_append_left _ (ih hLife hEarlier)
      | release dialogId' owner' generation =>
          have hEarlier : history.any (ClaimCall.claims dialogId) = true := by
            simpa [ClaimCall.claims] using hClaimed
          simp only [lifetime] at hLife
          split at hLife
          · simp at hLife
          · exact List.mem_append_left _ (ih hLife hEarlier)
      | deleteForDialog dialogId' =>
          have hEarlier : history.any (ClaimCall.claims dialogId) = true := by
            simpa [ClaimCall.claims] using hClaimed
          simp only [lifetime] at hLife
          split at hLife
          · simp at hLife
          · exact List.mem_append_left _ (ih hLife hEarlier)

/-! ## Claims are identities as long as turns are -/

/-- No two claims a history hands out on the dialog are the same pair. -/
def NeverReused (dialogId : DialogId) (history : List ClaimCall) : Prop :=
  ((issued dialogId (fun _ => none) history).map DialogClaim.pair).Nodup

/-- At no moment of the history does a heartbeat keep a claim after which
another claim on the dialog was handed out. -/
def KeptOnlyByLatest (dialogId : DialogId) (history : List ClaimCall) : Prop :=
  ∀ (before : List ClaimCall) (owner : Owner) (now : Time) (between after : List ClaimCall)
    (beat : Time),
    history = before ++ .claim dialogId owner now :: (between ++ after) →
      dialogId ∈ (heartbeat (tableAfter (before ++ .claim dialogId owner now :: between))
        [claimAfter before dialogId owner now] beat).1 →
        between.any (ClaimCall.claims dialogId) = false

theorem lifetimeAfter_append (dialogId : DialogId) (owners : List Owner)
    (first second : List ClaimCall) :
    lifetimeAfter dialogId owners (first ++ second) =
      lifetimeAfter dialogId (lifetimeAfter dialogId owners first) second := by
  simp [lifetimeAfter]

theorem lifetimeAfter_claim (dialogId : DialogId) (before between : List ClaimCall)
    (owner : Owner) (now : Time) :
    lifetimeAfter dialogId [] (before ++ .claim dialogId owner now :: between) =
      lifetimeAfter dialogId (owner :: lifetimeAfter dialogId [] before) between := by
  rw [lifetimeAfter_append]
  simp [lifetimeAfter, lifetime]

/-- A single claim is kept exactly when the row carries its pair. -/
theorem mem_heartbeat_singleton {table : ClaimTable} {c : DialogClaim} {beat : Time} :
    c.dialogId ∈ (heartbeat table [c] beat).1 ↔
      (table c.dialogId).map (fun row => (row.owner, row.generation)) = some c.pair := by
  cases hRow : table c.dialogId with
  | none => simp [heartbeat, keepsClaim, heldClaim, hRow]
  | some row =>
      simp only [heartbeat, List.map_cons, List.map_nil, List.mem_filter, List.mem_singleton,
        true_and, keepsClaim, heldClaim, List.reverse_singleton, List.find?_cons, beq_self_eq_true,
        hRow, Bool.and_eq_true, beq_iff_eq, Option.map_some, Option.some.injEq,
        DialogClaim.pair, Prod.mk.injEq]
      constructor
      · rintro ⟨hOwner, hGeneration⟩
        exact ⟨hOwner.symm, hGeneration.symm⟩
      · rintro ⟨hOwner, hGeneration⟩
        exact ⟨hOwner.symm, hGeneration.symm⟩

theorem keptOnlyByLatest_of_nodup {dialogId : DialogId} {history : List ClaimCall}
    (hTurns : (turns dialogId [] history).Nodup) : KeptOnlyByLatest dialogId history := by
  intro before owner now between after beat hHistory hKept
  by_contra hClaimed
  simp only [Bool.not_eq_false] at hClaimed
  have hRow := rowOf_tableAfter dialogId (before ++ .claim dialogId owner now :: between)
  have hStored : (tableAfter (before ++ .claim dialogId owner now :: between) dialogId).map
      (fun row => (row.owner, row.generation)) =
        some (claimAfter before dialogId owner now).pair :=
    mem_heartbeat_singleton.mp hKept
  rw [RowOf, hStored, lifetimeAfter_claim] at hRow
  obtain ⟨last, hHead, hPair⟩ := Option.map_eq_some_iff.mp hRow.symm
  obtain ⟨rest, hLife⟩ : ∃ rest,
      lifetimeAfter dialogId (owner :: lifetimeAfter dialogId [] before) between =
        last :: rest := by
    cases hLife : lifetimeAfter dialogId (owner :: lifetimeAfter dialogId [] before) between with
    | nil => rw [hLife] at hHead; simp at hHead
    | cons first rest =>
        rw [hLife] at hHead
        simp only [List.head?_cons, Option.some.injEq] at hHead
        exact ⟨rest, by rw [hHead]⟩
  rw [hLife] at hPair
  have hAgain := lifetime_turn_mem hLife hClaimed
  have hPair' : (last, rest.length + 1) =
      (owner, (lifetimeAfter dialogId [] before).length + 1) := by
    have hGeneration := claimAfter_generation before dialogId owner now
    simp only [DialogClaim.pair, hGeneration, List.length_cons] at hPair
    exact hPair
  rw [hPair'] at hAgain
  -- the turn of the kept claim is taken a second time between it and the beat
  rw [hHistory, turns_append] at hTurns
  simp only [turns, if_true, lifetime] at hTurns
  rw [turns_append] at hTurns
  have hTail := (List.nodup_append.mp hTurns).2.1
  exact (List.nodup_cons.mp hTail).1 (List.mem_append_left _ hAgain)

/-- The pairs a history hands out on a dialog are identities, and a heartbeat
keeps only the latest of them, exactly when no owner takes the same turn
twice: no owner makes the `k`-th claim of two different rows. -/
theorem claim_identity_iff_turns_nodup (dialogId : DialogId) (history : List ClaimCall) :
    NeverReused dialogId history ∧ KeptOnlyByLatest dialogId history ↔
      (turns dialogId [] history).Nodup := by
  have hPairs : NeverReused dialogId history ↔ (turns dialogId [] history).Nodup := by
    have hRow : RowOf none [] := by simp [RowOf]
    have hIssued : (issued dialogId (fun _ => none) history).map DialogClaim.pair =
        turns dialogId [] history := issued_pairs hRow history
    rw [NeverReused, hIssued]
  constructor
  · rintro ⟨hNever, _⟩
    exact hPairs.mp hNever
  · intro hTurns
    exact ⟨hPairs.mpr hTurns, keptOnlyByLatest_of_nodup hTurns⟩

/-- Process 1 claims dialog 0, process 2 takes it over and shuts down
cleanly, process 1 claims again: it is handed the pair it already had, and a
heartbeat keeps the first claim although two more were made after it. -/
theorem claim_identity_reused_after_release :
    ¬NeverReused 0 [.claim 0 1 0, .claim 0 2 10, .release 0 2 2, .claim 0 1 20] ∧
      ¬KeptOnlyByLatest 0 [.claim 0 1 0, .claim 0 2 10, .release 0 2 2, .claim 0 1 20] := by
  constructor
  · unfold NeverReused
    decide
  · intro hKept
    have hNone := hKept [] 1 0 [.claim 0 2 10, .release 0 2 2, .claim 0 1 20] [] 25 rfl (by decide)
    simp [ClaimCall.claims] at hNone

/-! ## The gate at the start of a run -/

/-- Whenever the ownership check passes on the stored generation, the row is
absent or is exactly the actor's own claim. -/
def GateSound (table : ClaimTable) (own : DialogClaim) : Prop :=
  stillOwnsDialog (.ok (currentGeneration table own.dialogId) : Except Empty (Option Nat)) own =
      true →
    table own.dialogId = none ∨
      ∃ row, table own.dialogId = some row ∧ row.owner = own.owner ∧
        row.generation = own.generation

/-- The dialog's row was removed at some moment of the history. -/
def RowRemoved (dialogId : DialogId) (owners : List Owner) (history : List ClaimCall) : Prop :=
  ∃ first second, history = first ++ second ∧ lifetimeAfter dialogId owners first = []

/-- As long as the row is not removed, its claims pile up. -/
theorem lifetimeAfter_suffix {dialogId : DialogId} {owners : List Owner}
    {history : List ClaimCall} (hKept : ¬RowRemoved dialogId owners history) :
    owners <:+ lifetimeAfter dialogId owners history := by
  induction history generalizing owners with
  | nil => exact List.suffix_refl owners
  | cons call rest ih =>
      have hRest : ¬RowRemoved dialogId (lifetime dialogId owners call) rest := by
        rintro ⟨first, second, hSplit, hNil⟩
        exact hKept ⟨call :: first, second, by rw [hSplit]; rfl, hNil⟩
      have hStep : owners <:+ lifetime dialogId owners call := by
        have hNil : lifetime dialogId owners call ≠ [] := by
          intro hNil
          exact hKept ⟨[call], rest, rfl, hNil⟩
        cases call with
        | claim dialogId' owner now =>
            simp only [lifetime]
            split
            · exact List.suffix_cons owner owners
            · exact List.suffix_refl owners
        | heartbeat claims now => exact List.suffix_refl owners
        | release dialogId' owner generation =>
            simp only [lifetime] at hNil ⊢
            by_cases hOwn : dialogId' = dialogId ∧ owners.head? = some owner ∧
                owners.length = generation
            · exact absurd (if_pos hOwn) hNil
            · simp [if_neg hOwn]
        | deleteForDialog dialogId' =>
            simp only [lifetime] at hNil ⊢
            by_cases hSame : dialogId' = dialogId
            · exact absurd (if_pos hSame) hNil
            · simp [if_neg hSame]
      exact hStep.trans (ih hRest)

/-- The gate of an actor compares generations only.  It is sound for the claim
an actor was born with exactly as long as the history does not recreate the
row and bring the new row, at the actor's own generation, into another
owner's hands. -/
theorem gate_sound_iff (before after : List ClaimCall) (dialogId : DialogId) (owner : Owner)
    (now : Time) :
    GateSound (tableAfter (before ++ .claim dialogId owner now :: after))
        (claimAfter before dialogId owner now) ↔
      ¬(RowRemoved dialogId (owner :: lifetimeAfter dialogId [] before) after ∧
        (lifetimeAfter dialogId [] (before ++ .claim dialogId owner now :: after)).length =
          (lifetimeAfter dialogId [] before).length + 1 ∧
        (lifetimeAfter dialogId [] (before ++ .claim dialogId owner now :: after)).head? ≠
          some owner) := by
  have hRow := rowOf_tableAfter dialogId (before ++ .claim dialogId owner now :: after)
  have hGeneration := claimAfter_generation before dialogId owner now
  have hDialog : (claimAfter before dialogId owner now).dialogId = dialogId := rfl
  have hOwner : (claimAfter before dialogId owner now).owner = owner := rfl
  have hLifeEq := lifetimeAfter_claim dialogId before after owner now
  rw [hLifeEq] at hRow ⊢
  generalize hLife : lifetimeAfter dialogId (owner :: lifetimeAfter dialogId [] before) after =
    life at hRow ⊢
  generalize tableAfter (before ++ .claim dialogId owner now :: after) = table at hRow ⊢
  cases life with
  | nil =>
      have hNone := hRow.none_iff.mpr rfl
      constructor
      · rintro _ ⟨_, hLength, _⟩
        simp at hLength
      · intro _ _
        exact Or.inl (by rw [hDialog]; exact hNone)
  | cons last rest =>
      cases hStored : table dialogId with
      | none => simp [RowOf, hStored] at hRow
      | some row =>
          simp only [RowOf, hStored, Option.map_some, List.head?_cons, Option.some.injEq,
            Prod.mk.injEq, List.length_cons] at hRow
          simp only [GateSound, hDialog, hOwner, hGeneration, stillOwnsDialog, currentGeneration,
            hStored, Option.map_some, beq_iff_eq, List.length_cons, List.head?_cons, ne_eq,
            Option.some.injEq, reduceCtorEq, false_or, exists_eq_left']
          constructor
          · rintro hSound ⟨_, hLength, hOther⟩
            have hPass := hSound (hRow.2.trans hLength)
            exact hOther (hRow.1.symm.trans hPass.1)
          · intro hNot hPass
            refine ⟨?_, hPass⟩
            by_contra hForeign
            apply hNot
            have hLength : rest.length + 1 = (lifetimeAfter dialogId [] before).length + 1 :=
              hRow.2.symm.trans hPass
            refine ⟨?_, hLength, fun hEq => hForeign (hRow.1.trans hEq)⟩
            by_contra hKept
            -- with the row never removed an equal count means no claim in between
            have hSuffix := lifetimeAfter_suffix hKept
            rw [hLife] at hSuffix
            have hEq := hSuffix.eq_of_length (by simpa using hLength.symm)
            simp only [List.cons.injEq] at hEq
            exact hForeign (hRow.1.trans hEq.1.symm)

/-- Process 1 holds dialog 0 with generation 1, process 2 takes it over,
shuts down cleanly and claims again: the row now carries process 2 at
generation 1, and the gate of process 1's actor still passes. -/
theorem gate_passes_on_foreign_row :
    ¬GateSound (tableAfter [.claim 0 1 0, .claim 0 2 10, .release 0 2 2, .claim 0 2 20])
      (claimAfter [] 0 1 0) := by
  intro hSound
  have hRow := hSound (by decide)
  revert hRow
  decide

end Ownership
end OctoForge
