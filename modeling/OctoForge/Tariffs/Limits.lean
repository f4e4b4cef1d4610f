import Mathlib.Algebra.GroupWithZero.Nat
import OctoForge.Coop.Machine
import OctoForge.Sequence.Places

/-!
# Budgets and the totals of the day

A check sums the events of the day out of the usage ledger and keeps the result for a few
seconds.  A record drops what is kept for its user after the event has been written.  Both
wait for the meter in between, so a query that was run before the event was written can be
kept after the drop.

A result of the query carries the rows it has summed (`counted`).  `returned` is read by
nothing: these are the rows of the records that have returned.  Times are in milliseconds;
the wall clock can be set.
-/

namespace OctoForge
namespace Tariffs

open Coop

abbrev UserId := String

inductive UsageKind where
  | llmAnswer
  | llmRouting
  | llmCompaction
  | voiceTranscription
  | vision
  | userMessage
  deriving DecidableEq, Repr

structure UsageEvent where
  userId : UserId
  kind : UsageKind
  promptTokens : Nat := 0
  completionTokens : Nat := 0
  quantity : Nat := 0
  createdAt : Option Nat := none
  deriving DecidableEq, Repr

/-- `UsageEventRow`. -/
structure UsageRow where
  id : Nat
  event : UsageEvent
  createdAt : Nat
  deriving DecidableEq, Repr

structure UsageTotals where
  promptTokens : Nat := 0
  completionTokens : Nat := 0
  userMessages : Nat := 0
  assistantMessages : Nat := 0
  deriving DecidableEq, Repr

def UsageTotals.tokens (totals : UsageTotals) : Nat := totals.promptTokens + totals.completionTokens

structure TariffLimits where
  dailyTokens : Option Nat := none
  dailyUserMessages : Option Nat := none
  dailyAssistantMessages : Option Nat := none
  deriving DecidableEq, Repr

structure LimitVerdict where
  allowed : Bool
  reason : Option String := none
  used : Nat := 0
  limit : Nat := 0
  deriving DecidableEq, Repr

/-! ## The meter -/

/-- The rows `totals_since` aggregates. -/
def rowsSince (ledger : List UsageRow) (userId : UserId) (since : Nat) : List UsageRow :=
  ledger.filter fun row => row.event.userId = userId && since ≤ row.createdAt

def counted (kind : UsageKind) (rows : List UsageRow) : Nat :=
  ((rows.filter fun row => row.event.kind = kind).map (·.event.quantity)).sum

def totalsOf (rows : List UsageRow) : UsageTotals where
  promptTokens := (rows.map (·.event.promptTokens)).sum
  completionTokens := (rows.map (·.event.completionTokens)).sum
  userMessages := counted .userMessage rows
  assistantMessages := counted .llmAnswer rows

/-! ## Verdicts -/

/-- `_check_tokens`. -/
def checkTokens (limits : TariffLimits) (totals : UsageTotals) : LimitVerdict :=
  match limits.dailyTokens with
  | some cap =>
      if cap ≤ totals.tokens then
        { allowed := false, reason := some "daily_tokens", used := totals.tokens, limit := cap }
      else { allowed := true }
  | none => { allowed := true }

/-- What `check_run_budget` makes of the totals.  The message that is being answered is in the
ledger already, so its cap is exceeded and not merely reached. -/
def verdict (limits : TariffLimits) (totals : UsageTotals) : LimitVerdict :=
  if limits.dailyUserMessages.any fun cap => cap < totals.userMessages then
    { allowed := false, reason := some "daily_user_messages", used := totals.userMessages
      limit := limits.dailyUserMessages.getD 0 }
  else if limits.dailyAssistantMessages.any fun cap => cap ≤ totals.assistantMessages then
    { allowed := false, reason := some "daily_assistant_messages", used := totals.assistantMessages
      limit := limits.dailyAssistantMessages.getD 0 }
  else checkTokens limits totals

/-! ## The service -/

def millisPerDay : Nat := 86400000

def dayStart (now : Nat) : Nat := now / millisPerDay * millisPerDay

/-- An entry of `_totals_cache`. -/
structure CachedTotals where
  expires : Nat
  day : Nat
  rows : List UsageRow
  deriving DecidableEq, Repr

/-- A call of `check_run_budget`, or of `record`, at its `await`.  A check keeps the records
that had returned when it was called (`owed`). -/
inductive Call where
  /-- `tariff_for_user`. -/
  | resolving (userId : UserId) (owed : List UsageRow)
  | resolved (userId : UserId) (owed : List UsageRow) (limits : Option TariffLimits)
  /-- `totals_since`. -/
  | summing (userId : UserId) (owed : List UsageRow) (limits : TariffLimits) (day : Nat)
  /-- The same, on its way back: the ledger had `size` rows. -/
  | summed (userId : UserId) (owed : List UsageRow) (limits : TariffLimits) (day size : Nat)
      (rows : List UsageRow)
  /-- The user has no tariff. -/
  | unlimited
  | decided (userId : UserId) (owed : List UsageRow) (limits : TariffLimits) (day : Nat)
      (rows : List UsageRow) (answer : LimitVerdict)
  /-- `meter.record`. -/
  | recording (event : UsageEvent)
  | written (row : UsageRow)
  | failed
  | recorded
  deriving DecidableEq, Repr

structure LimitService where
  /-- `_totals_ttl`. -/
  ttl : Nat := 5000
  tariffs : UserId → Option TariffLimits := fun _ => none
  ledger : List UsageRow := []
  cache : UserId → Option CachedTotals := fun _ => none
  now : Nat := 0
  monotonic : Nat := 0
  calls : List Call := []
  returned : List UsageRow := []

inductive Move where
  | assign (userId : UserId) (limits : Option TariffLimits)
  | tick (now elapsed : Nat)
  | check (userId : UserId)
  | record (event : UsageEvent)
  /-- Another node writes an event. -/
  | elsewhere (event : UsageEvent)
  | resume (k : Nat)
  /-- The meter cannot write the event. -/
  | fail (k : Nat)
  deriving DecidableEq, Repr

namespace LimitService

variable (s : LimitService)

def put (k : Nat) (call : Call) : LimitService := { s with calls := s.calls.set k call }

def keep (userId : UserId) (entry : Option CachedTotals) : LimitService :=
  { s with cache := fun other => if other = userId then entry else s.cache other }

/-- The entry that `_totals_today` may use. -/
def usable (userId : UserId) (day : Nat) : Option CachedTotals :=
  (s.cache userId).filter fun entry => s.monotonic < entry.expires && entry.day = day

/-- The row an event is stored as. -/
def stamp (event : UsageEvent) : UsageRow where
  id := s.ledger.length
  event := event
  createdAt := event.createdAt.getD s.now

def resume (k : Nat) : Call → Option LimitService
  | .resolving userId owed => some (s.put k (.resolved userId owed (s.tariffs userId)))
  | .resolved _ _ none => some (s.put k .unlimited)
  | .resolved userId owed (some limits) =>
      match s.usable userId (dayStart s.now) with
      | some entry =>
          some (s.put k (.decided userId owed limits (dayStart s.now) entry.rows
            (verdict limits (totalsOf entry.rows))))
      | none => some (s.put k (.summing userId owed limits (dayStart s.now)))
  | .summing userId owed limits day =>
      some (s.put k
        (.summed userId owed limits day s.ledger.length (rowsSince s.ledger userId day)))
  | .summed userId owed limits day _ rows =>
      some ((s.put k (.decided userId owed limits day rows (verdict limits (totalsOf rows)))).keep
        userId (some { expires := s.monotonic + s.ttl, day, rows }))
  | .recording event =>
      some { s.put k (.written (s.stamp event)) with ledger := s.ledger ++ [s.stamp event] }
  | .written row =>
      some { (s.put k .recorded).keep row.event.userId none with returned := s.returned ++ [row] }
  | .failed => some (s.put k .recorded)
  | .unlimited => none
  | .decided .. => none
  | .recorded => none

/-- A write that fails. -/
def fail (k : Nat) : Call → Option LimitService
  | .recording _ => some (s.put k .failed)
  | _ => none

def machine : Machine LimitService Move where
  step s
    | .assign userId limits =>
        some { s with tariffs := fun other => if other = userId then limits else s.tariffs other }
    | .tick now elapsed => some { s with now, monotonic := s.monotonic + elapsed }
    | .check userId => some { s with calls := s.calls ++ [.resolving userId s.returned] }
    | .record event => some { s with calls := s.calls ++ [.recording event] }
    | .elsewhere event => some { s with ledger := s.ledger ++ [s.stamp event] }
    | .resume k => s.calls[k]?.bind (s.resume k)
    | .fail k => s.calls[k]?.bind (s.fail k)

/-- Totals are kept only where no record of an event of that day has been written and has
returned since they were summed. -/
def keepsFresh (s : LimitService) : Move → Bool
  | .resume k =>
      match s.calls[k]? with
      | some (.summed userId _ _ day size _) =>
          (s.ledger.drop size).all fun row =>
            row.event.userId ≠ userId || row.createdAt < day || row ∉ s.returned
      | _ => true
  | _ => true

end LimitService

/-- A check has decided on totals in which everything is that had been recorded when it was
called. -/
def Call.SeesSpend : Call → Prop
  | .decided userId owed limits day rows answer =>
      answer = verdict limits (totalsOf rows) ∧
        ∀ row ∈ owed, row.event.userId = userId → day ≤ row.createdAt → row ∈ rows
  | _ => True

/-! ## The invariant -/

/-- The rows of a user since `day` that have to be in `rows`. -/
def Covers (owed rows : List UsageRow) (userId : UserId) (day : Nat) : Prop :=
  ∀ row ∈ owed, row.event.userId = userId → day ≤ row.createdAt → row ∈ rows

theorem covers_rowsSince {owed ledger : List UsageRow} (hOwed : owed ⊆ ledger) (userId : UserId)
    (day : Nat) : Covers owed (rowsSince ledger userId day) userId day := by
  intro row hRow hUser hDay
  rw [rowsSince, List.mem_filter]
  exact ⟨hOwed hRow, by simp [hUser, hDay]⟩

/-- What is known of a call at each `await`. -/
def Call.Fits (s : LimitService) : Call → Prop
  | .resolving _ owed => owed ⊆ s.returned
  | .resolved _ owed _ => owed ⊆ s.returned
  | .summing _ owed _ _ => owed ⊆ s.returned
  | .summed userId owed _ day size rows => owed ⊆ s.returned ∧ Covers owed rows userId day ∧
      size ≤ s.ledger.length ∧ rows = rowsSince (s.ledger.take size) userId day
  | .decided userId owed limits day rows answer =>
      answer = verdict limits (totalsOf rows) ∧ Covers owed rows userId day
  | .written row => row ∈ s.ledger
  | _ => True

structure Inv (s : LimitService) : Prop where
  recorded : s.returned ⊆ s.ledger
  fits : ∀ call ∈ s.calls, call.Fits s
  /-- What is kept has everything in it that has been recorded. -/
  fresh : ∀ userId entry, s.cache userId = some entry →
    Covers s.returned entry.rows userId entry.day

variable {s s' : LimitService} {k : Nat} {call call' : Call}

/-- The ledger and the records that have returned only grow. -/
theorem Call.Fits.mono (hFits : call.Fits s) (hLedger : s.ledger <+: s'.ledger)
    (hReturned : s.returned ⊆ s'.returned) : call.Fits s' := by
  cases call with
  | resolving userId owed => exact List.Subset.trans hFits hReturned
  | resolved userId owed limits => exact List.Subset.trans hFits hReturned
  | summing userId owed limits day => exact List.Subset.trans hFits hReturned
  | summed userId owed limits day size rows =>
      obtain ⟨hOwed, hCovers, hSize, hRows⟩ := hFits
      refine ⟨List.Subset.trans hOwed hReturned, hCovers, Nat.le_trans hSize hLedger.length_le, ?_⟩
      obtain ⟨more, hMore⟩ := hLedger
      rw [hRows, ← hMore, List.take_append_of_le_length hSize]
  | written row => exact hLedger.subset hFits
  | _ => exact hFits

/-- A call goes on, and nothing is written or kept. -/
theorem Inv.put (hInv : Inv s) (hFits : call'.Fits s) : Inv (s.put k call') :=
  ⟨hInv.recorded, Sequence.forall_mem_set hInv.fits hFits, hInv.fresh⟩

/-- An event more in the ledger. -/
theorem Inv.append (hInv : Inv s) (row : UsageRow) :
    Inv { s with ledger := s.ledger ++ [row] } := by
  have hLedger : s.ledger <+: s.ledger ++ [row] := List.prefix_append _ _
  exact ⟨List.Subset.trans hInv.recorded hLedger.subset,
    fun call hCall => (hInv.fits call hCall).mono hLedger (List.Subset.refl _), hInv.fresh⟩

/-- Totals that are kept. -/
theorem Inv.keep (hInv : Inv s) {userId : UserId} {entry : CachedTotals}
    (hFresh : Covers s.returned entry.rows userId entry.day) :
    Inv (s.keep userId (some entry)) := by
  refine ⟨hInv.recorded, hInv.fits, fun other kept hKept => ?_⟩
  simp only [LimitService.keep] at hKept
  split at hKept
  · rename_i hIs
    obtain rfl := Option.some.inj hKept
    exact hIs ▸ hFresh
  · exact hInv.fresh other kept hKept

/-- A record returns, and nothing is kept for its user. -/
theorem Inv.drop (hInv : Inv s) {row : UsageRow} (hRow : row ∈ s.ledger) :
    Inv { s.keep row.event.userId none with returned := s.returned ++ [row] } := by
  have hReturned : s.returned ⊆ s.returned ++ [row] := List.subset_append_left _ _
  refine ⟨?_, fun call hCall => (hInv.fits call hCall).mono List.prefix_rfl hReturned, ?_⟩
  · intro other hOther
    rcases List.mem_append.mp hOther with hOld | hNew
    · exact hInv.recorded hOld
    · exact List.mem_singleton.mp hNew ▸ hRow
  · intro userId entry hEntry other hOther hUser hDay
    simp only [LimitService.keep] at hEntry
    split at hEntry
    · exact absurd hEntry (by simp)
    · rename_i hNot
      rcases List.mem_append.mp hOther with hOld | hNew
      · exact hInv.fresh userId entry hEntry other hOld hUser hDay
      · exact absurd (List.mem_singleton.mp hNew ▸ hUser).symm hNot

/-- Totals that nothing has overtaken have everything in them. -/
theorem covers_of_keepsFresh (hInv : Inv s) {userId : UserId} {owed rows : List UsageRow}
    {limits : TariffLimits} {day size : Nat}
    (hCall : s.calls[k]? = some (.summed userId owed limits day size rows))
    (hFresh : s.keepsFresh (.resume k) = true) : Covers s.returned rows userId day := by
  have hFits := hInv.fits _ (List.mem_of_getElem? hCall)
  obtain ⟨-, -, -, hRows⟩ := hFits
  simp only [LimitService.keepsFresh, hCall, List.all_eq_true, Bool.or_eq_true,
    decide_eq_true_iff] at hFresh
  intro row hRow hUser hDay
  rcases List.mem_append.mp ((List.take_append_drop size s.ledger).symm ▸ hInv.recorded hRow) with
    hEarly | hLate
  · rw [hRows, rowsSince, List.mem_filter]
    exact ⟨hEarly, by simp [hUser, hDay]⟩
  · rcases hFresh row hLate with (hOther | hOld) | hNot
    · exact absurd hUser hOther
    · omega
    · exact absurd hRow hNot

theorem keeps_resume (hInv : Inv s) (hCall : s.calls[k]? = some call)
    (hFresh : s.keepsFresh (.resume k) = true) (hStep : s.resume k call = some s') : Inv s' := by
  have hFits := hInv.fits call (List.mem_of_getElem? hCall)
  cases call with
  | resolving userId owed =>
      obtain rfl := Option.some.inj hStep
      exact hInv.put hFits
  | resolved userId owed limits =>
      cases limits with
      | none =>
          obtain rfl := Option.some.inj hStep
          exact hInv.put trivial
      | some limits =>
          simp only [LimitService.resume] at hStep
          split at hStep
          · rename_i entry hEntry
            obtain rfl := Option.some.inj hStep
            obtain ⟨hCached, hUsable⟩ := Option.filter_eq_some_iff.mp hEntry
            -- An entry that may be used is of today, so its rows are those that count.
            have hDay : entry.day = dayStart s.now := by
              rw [Bool.and_eq_true, decide_eq_true_iff, decide_eq_true_iff] at hUsable
              exact hUsable.2
            refine hInv.put ⟨rfl, fun row hRow => ?_⟩
            rw [← hDay]
            exact hInv.fresh userId entry hCached row (hFits hRow)
          · obtain rfl := Option.some.inj hStep
            exact hInv.put hFits
  | summing userId owed limits day =>
      obtain rfl := Option.some.inj hStep
      refine hInv.put ⟨hFits, ?_, Nat.le_refl _, ?_⟩
      · exact covers_rowsSince (List.Subset.trans hFits hInv.recorded) userId day
      · rw [List.take_length]
  | summed userId owed limits day size rows =>
      obtain rfl := Option.some.inj hStep
      -- What is cached was summed up before an await; a row that came in between may not be missing.
      have hDecided : Inv (s.put k (.decided userId owed limits day rows
          (verdict limits (totalsOf rows)))) := hInv.put ⟨rfl, hFits.2.1⟩
      exact hDecided.keep (covers_of_keepsFresh hInv hCall hFresh)
  | recording event =>
      obtain rfl := Option.some.inj hStep
      have hMore := hInv.append (s.stamp event)
      exact hMore.put (List.mem_append_right _ (List.mem_singleton_self _))
  | written row =>
      obtain rfl := Option.some.inj hStep
      have hRecorded : Inv (s.put k .recorded) := hInv.put trivial
      exact hRecorded.drop hFits
  | failed =>
      obtain rfl := Option.some.inj hStep
      exact hInv.put trivial
  | unlimited => exact absurd hStep (by simp [LimitService.resume])
  | decided => exact absurd hStep (by simp [LimitService.resume])
  | recorded => exact absurd hStep (by simp [LimitService.resume])

theorem Inv.add (hInv : Inv s) (hFits : call.Fits s) :
    Inv { s with calls := s.calls ++ [call] } := by
  refine ⟨hInv.recorded, fun other hOther => ?_, hInv.fresh⟩
  rcases List.mem_append.mp hOther with hOld | hNew
  · exact hInv.fits other hOld
  · exact List.mem_singleton.mp hNew ▸ hFits

theorem keeps_step (m : Move) (hInv : Inv s) (hFresh : s.keepsFresh m = true)
    (hStep : LimitService.machine.step s m = some s') : Inv s' := by
  cases m with
  | assign userId limits =>
      obtain rfl := Option.some.inj hStep
      exact ⟨hInv.recorded, hInv.fits, hInv.fresh⟩
  | tick now elapsed =>
      obtain rfl := Option.some.inj hStep
      exact ⟨hInv.recorded, hInv.fits, hInv.fresh⟩
  | check userId =>
      obtain rfl := Option.some.inj hStep
      exact hInv.add (List.Subset.refl _)
  | record event =>
      obtain rfl := Option.some.inj hStep
      exact hInv.add trivial
  | elsewhere event =>
      obtain rfl := Option.some.inj hStep
      exact hInv.append (s.stamp event)
  | resume k =>
      obtain ⟨call, hCall, hResume⟩ := Option.bind_eq_some_iff.mp hStep
      exact keeps_resume hInv hCall hFresh hResume
  | fail k =>
      obtain ⟨call, hCall, hFail⟩ := Option.bind_eq_some_iff.mp hStep
      cases call with
      | recording event =>
          obtain rfl := Option.some.inj hFail
          exact hInv.put trivial
      | _ => exact absurd hFail (by simp [LimitService.fail])

/-! ## Runs -/

/-- If totals are kept only where no record has overtaken the query, every check decides on
totals in which everything is that had been recorded when it was called. -/
theorem checks_see_spend {ttl : Nat} {moves : List Move} {s : LimitService}
    (hRun : LimitService.machine.run moves { ttl } = some s)
    (hFresh : LimitService.machine.always LimitService.keepsFresh moves { ttl } = true) :
    ∀ call ∈ s.calls, call.SeesSpend := by
  have hStart : Inv { ttl } := ⟨List.Subset.refl _, by simp, by simp⟩
  have hInv : Inv s :=
    Machine.run_keeps_of_always (fun _ m _ hInv hCond hStep => keeps_step m hInv hCond hStep)
      hStart hFresh hRun
  intro call hCall
  have hFits := hInv.fits call hCall
  cases call with
  | decided userId owed limits day rows answer => exact hFits
  | _ => trivial

def oneAnswer : TariffLimits := { dailyAssistantMessages := some 1 }

def answered : UsageEvent := { userId := "u1", kind := .llmAnswer, quantity := 1 }

/-- An answer is recorded, and the next check refuses. -/
def spendAndCheck : List Move :=
  [.assign "u1" (some oneAnswer), .check "u1", .resume 0, .resume 0, .resume 0, .resume 0,
    .record answered, .resume 1, .resume 1, .check "u1", .resume 2, .resume 2, .resume 2, .resume 2]

theorem checks_see_spend_of_spendAndCheck :
    ∃ s, LimitService.machine.run spendAndCheck {} = some s ∧
      (∀ call ∈ s.calls, call.SeesSpend) ∧
        ∃ owed rows, s.calls[2]? = some (.decided "u1" owed oneAnswer 0 rows
          { allowed := false, reason := some "daily_assistant_messages", used := 1, limit := 1 }) := by
  have hRuns : (LimitService.machine.run spendAndCheck {}).map (·.calls[2]?) =
      some (some (.decided "u1" [⟨0, answered, 0⟩] oneAnswer 0 [⟨0, answered, 0⟩]
        { allowed := false, reason := some "daily_assistant_messages", used := 1, limit := 1 })) := by
    decide +kernel
  obtain ⟨s, hRun, hCall⟩ := Option.map_eq_some_iff.mp hRuns
  exact ⟨s, hRun, checks_see_spend hRun (by decide +kernel), _, _, hCall⟩

/-- An answer is recorded while a check is waiting for its totals, and another check comes. -/
def spendBesideCheck : List Move :=
  [.assign "u1" (some oneAnswer), .check "u1", .resume 0, .resume 0, .resume 0,
    .record answered, .resume 1, .resume 1, .resume 0, .check "u1", .resume 2, .resume 2]

/-- The second check is told that nothing has been spent. -/
theorem spend_unseen :
    ∃ s, LimitService.machine.run spendBesideCheck {} = some s ∧
      ∃ call ∈ s.calls, ¬ call.SeesSpend := by
  have hRuns : (LimitService.machine.run spendBesideCheck {}).map (·.calls[2]?) =
      some (some (.decided "u1" [⟨0, answered, 0⟩] oneAnswer 0 [] { allowed := true })) := by
    decide +kernel
  obtain ⟨s, hRun, hCall⟩ := Option.map_eq_some_iff.mp hRuns
  refine ⟨s, hRun, _, List.mem_of_getElem? hCall, ?_⟩
  rintro ⟨-, hAll⟩
  exact absurd (hAll _ (List.mem_singleton_self _) rfl (Nat.le_refl 0)) List.not_mem_nil

end Tariffs
end OctoForge
