import Mathlib.Order.Interval.Finset.Nat
import OctoForge.Cron.Scheduler
import OctoForge.Fallible
import OctoForge.Sequence.Increasing

/-!
# Missed runs

A job that fires late says how many runs it has missed: `count_missed` reads the slots of the
schedule from the last fire on, until one is after the time of the tick, and at most two more
than the cap.

The slots and the time of the tick are datetimes of one zone, and two of these are compared by
what the clock of the zone shows.  Where the clock is put back it shows an hour twice, and what
is shown as later may be earlier.  So the count is right where the clock tells the slots that
are due from those that are not, and the schedule has a slot where one is asked for.
-/

namespace OctoForge
namespace Cron

/-- A zone, by what its clock is ahead of UTC. -/
structure Zone where
  utcoffset : (time : Nat) → Int

/-- What the clock shows: `astimezone`, less the zone and the fold. -/
def Zone.shown (tz : Zone) (time : Nat) : Int := time + tz.utcoffset time

inductive ScheduleError where
  /-- `CronScheduleError`. -/
  | cronSchedule (message : String)
  /-- `CroniterBadDateError`: there is no next date. -/
  | badDate
  deriving DecidableEq, Repr

/-- A `croniter` by the answers of its `get_next`, of which each is the next slot; `none` where it
raises. -/
structure Croniter (base : Nat) where
  getNext : (reads : Nat) → Option Nat
  increasing : Sequence.Increasing base getNext

namespace Croniter

variable {since : Nat}

/-- The loop of `count_missed`: what it counts, and how many slots have been read then. -/
def countSlots (iterator : Croniter since) (tz : Zone) (now cap : Nat) (slots reads : Nat) :
    Except ScheduleError Nat × Nat :=
  match iterator.getNext reads with
  | none => (.error .badDate, reads + 1)
  | some next =>
      -- `>` of two datetimes of one zone.
      if tz.shown now < tz.shown next ∨ cap < slots then (.ok slots, reads + 1)
      else countSlots iterator tz now cap (slots + 1) (reads + 1)
termination_by cap + 1 - slots
decreasing_by omega

end Croniter

/-- The libraries behind the schedules. -/
structure ScheduleMath where
  /-- `ZoneInfo`: `none` where it raises. -/
  zoneInfo : (timezone : String) → Option Zone
  isValid : (schedule : String) → Bool
  croniter : (schedule : String) → Zone → (base : Nat) → Croniter base
  /-- `!r`. -/
  repr : String → String

def missedCountDefaultCap : Nat := 100

namespace ScheduleMath

variable (math : ScheduleMath)

def loadTimezone (timezone : String) : Except ScheduleError Zone :=
  match math.zoneInfo timezone with
  | some tz => .ok tz
  | none => .error (.cronSchedule ("unknown IANA timezone: " ++ math.repr timezone))

def ensureValid (schedule : String) : Except ScheduleError Unit :=
  if math.isValid schedule then .ok ()
  else .error (.cronSchedule ("invalid cron expression: " ++ math.repr schedule))

def computeNextFire (schedule timezone : String) (base : Nat) : Except ScheduleError Nat := do
  let tz ← math.loadTimezone timezone
  math.ensureValid schedule
  match (math.croniter schedule tz base).getNext 0 with
  | some next => .ok next
  | none => .error .badDate

/-- `count_missed`, and how many slots it has read. -/
def countMissed (schedule timezone : String) (since now cap : Nat) :
    Except ScheduleError Int × Nat :=
  match math.loadTimezone timezone, math.ensureValid schedule with
  | .error error, _ => (.error error, 0)
  | .ok _, .error error => (.error error, 0)
  | .ok tz, .ok () =>
      let (counted, reads) := (math.croniter schedule tz since).countSlots tz now cap 0 0
      (counted.map fun slots => min (max ((slots : Int) - 1) 0) cap, reads)

/-! ## The scheduler -/

/-- `MISSED_RUNS_SUFFIX_TEMPLATE`. -/
def missedRunsSuffix (count : Int) : String :=
  "\n[" ++ toString count ++ " scheduled runs were missed and coalesced into this one.]"

def missedRunCount (job : CronJob) (now : Nat) : Except ScheduleError Int :=
  (math.countMissed job.schedule job.timezone (job.lastFireAt.getD job.createdAt) now
    missedCountDefaultCap).1

def hasMissedRuns (job : CronJob) (now : Nat) : Except ScheduleError Bool :=
  (math.missedRunCount job now).map fun missed => decide (0 < missed)

def promptFor (job : CronJob) (now : Nat) : Except ScheduleError String := do
  let missed ← math.missedRunCount job now
  if missed = 0 then return job.prompt
  return job.prompt ++ missedRunsSuffix missed

/-- The settings of schedulers that compute the next slot so. -/
def settings (config : String → CronSchedulerConfig) : Settings where
  computeNextFire schedule timezone base := (math.computeNextFire schedule timezone base).toOption
  config := config

/-- The next slot is a later one. -/
theorem later_of_computeNextFire (config : String → CronSchedulerConfig) (schedule timezone : String)
    (base slot : Nat)
    (hNext : (math.settings config).computeNextFire schedule timezone base = some slot) :
    base < slot := by
  have hOk : math.computeNextFire schedule timezone base = .ok slot := by
    cases hResult : math.computeNextFire schedule timezone base with
    | error error => simp [settings, hResult, Except.toOption] at hNext
    | ok found => simpa [settings, hResult, Except.toOption] using hNext
  obtain ⟨tz, -, hOk⟩ := Fallible.bind_eq_ok.mp hOk
  obtain ⟨⟨⟩, -, hOk⟩ := Fallible.bind_eq_ok.mp hOk
  split at hOk
  · rename_i next hFirst
    obtain rfl := Except.ok.inj hOk
    exact (math.croniter schedule tz base).increasing.first next hFirst
  · cases hOk

end ScheduleMath

/-! ## What a clock shows -/

/-- What the clock shows goes on as time does. -/
def Zone.NeverPutBack (tz : Zone) : Prop :=
  ∀ ⦃earlier later⦄, earlier < later → tz.shown earlier < tz.shown later

theorem Zone.NeverPutBack.shown_le_iff {tz : Zone} (hClock : tz.NeverPutBack) {time other : Nat} :
    tz.shown time ≤ tz.shown other ↔ time ≤ other := by
  constructor
  · intro hShown
    by_contra hLater
    exact absurd (hClock (Nat.lt_of_not_le hLater)) (not_lt.mpr hShown)
  · intro hTime
    rcases Nat.lt_or_eq_of_le hTime with hEarlier | rfl
    · exact (hClock hEarlier).le
    · exact le_refl _

/-! ## Where the loop stops -/

namespace Croniter

variable {since now cap k : Nat} {iterator : Croniter since} {tz : Zone}

/-- The clock does not show the slot as later than now. -/
def Due (iterator : Croniter since) (tz : Zone) (now k : Nat) : Prop :=
  ∃ slot, iterator.getNext k = some slot ∧ tz.shown slot ≤ tz.shown now

theorem Due.getNext_ne_none (hDue : iterator.Due tz now k) : iterator.getNext k ≠ none := by
  obtain ⟨slot, hNext, -⟩ := hDue
  simp [hNext]

/-- The first slot that the clock shows as later than now, or the end of the schedule, if the cap
has not been passed before. -/
structure StopsAt (iterator : Croniter since) (tz : Zone) (now cap k : Nat) : Prop where
  reached : ∀ j < k, iterator.Due tz now j
  within : k ≤ cap + 1
  stops : k ≤ cap → ¬iterator.Due tz now k

theorem exists_stopsAt (iterator : Croniter since) (tz : Zone) (now cap : Nat) :
    ∃ k, iterator.StopsAt tz now cap k := by
  classical
  by_cases hSome : ∃ k, ¬iterator.Due tz now k ∧ k ≤ cap
  · obtain ⟨hNot, hCap⟩ := Nat.find_spec hSome
    refine ⟨Nat.find hSome, fun j hBefore => ?_, Nat.le_succ_of_le hCap, fun _ => hNot⟩
    by_contra hLater
    exact Nat.find_min hSome hBefore ⟨hLater, hBefore.le.trans hCap⟩
  · push Not at hSome
    refine ⟨cap + 1, fun j hBefore => ?_, Nat.le_refl _, fun hCap => absurd hCap (by omega)⟩
    by_contra hLater
    exact absurd (hSome j hLater) (by omega)

theorem StopsAt.unique {k' : Nat} (hStops : iterator.StopsAt tz now cap k)
    (hStops' : iterator.StopsAt tz now cap k') : k = k' := by
  have hWithin := hStops.within
  have hWithin' := hStops'.within
  rcases Nat.lt_trichotomy k k' with hLess | hSame | hMore
  · exact absurd (hStops'.reached k hLess) (hStops.stops (by omega))
  · exact hSame
  · exact absurd (hStops.reached k' hMore) (hStops'.stops (by omega))

/-- One round of the loop. -/
theorem countSlots_of_due (hDue : iterator.Due tz now k) {slots : Nat} (hCap : slots ≤ cap) :
    iterator.countSlots tz now cap slots k = iterator.countSlots tz now cap (slots + 1) (k + 1) := by
  obtain ⟨slot, hNext, hShown⟩ := hDue
  rw [countSlots, hNext]
  dsimp only
  rw [if_neg (by omega)]

/-- The rounds up to a place that the loop reaches. -/
theorem countSlots_of_reached (hReached : ∀ j < k, iterator.Due tz now j) (hWithin : k ≤ cap + 1) :
    iterator.countSlots tz now cap 0 0 = iterator.countSlots tz now cap k k := by
  induction k with
  | zero => rfl
  | succ k ih =>
      have hBefore := ih (fun j hLess => hReached j (Nat.lt_succ_of_lt hLess)) (by omega)
      exact hBefore.trans (countSlots_of_due (hReached k (Nat.lt_succ_self k)) (by omega))

/-- What comes of the loop where it stops. -/
theorem StopsAt.countSlots (hStops : iterator.StopsAt tz now cap k) :
    iterator.countSlots tz now cap 0 0 =
      ((match iterator.getNext k with
        | none => .error .badDate
        | some _ => .ok k), k + 1) := by
  have hStop := hStops.stops
  rw [countSlots_of_reached hStops.reached hStops.within, Croniter.countSlots]
  cases hNext : iterator.getNext k with
  | none => rfl
  | some next =>
      dsimp only
      rw [if_pos]
      by_cases hCap : k ≤ cap
      · refine Or.inl (not_le.mp fun hShown => hStop hCap ?_)
        exact ⟨next, hNext, hShown⟩
      · exact Or.inr (by omega)

/-! ## What the clock tells -/

/-- How many slots are in `(since, now]`. -/
noncomputable def slotsUpTo (iterator : Croniter since) (now : Nat) : Nat :=
  (Sequence.between since now iterator.getNext).ncard

/-- The clock tells the slots that are due from those that are not, and there is a slot where one
is asked for.  Of the slots only those up to the cap and one more matter; where no run has been
missed, it is enough that the clock shows the first or the second one as later. -/
def ClockTells (iterator : Croniter since) (tz : Zone) (now cap : Nat) : Prop :=
  let inside := min (iterator.slotsUpTo now) (cap + 1)
  if 2 ≤ inside then
    (∀ k < inside, iterator.Due tz now k) ∧ iterator.getNext inside ≠ none ∧
      (inside ≤ cap → ¬iterator.Due tz now inside)
  else
    iterator.getNext 0 ≠ none ∧
      (iterator.Due tz now 0 →
        iterator.getNext 1 ≠ none ∧ (0 < cap → ¬iterator.Due tz now 1))

/-- By the place where the loop stops. -/
theorem clockTells_iff (hStops : iterator.StopsAt tz now cap k) :
    iterator.ClockTells tz now cap ↔ iterator.getNext k ≠ none ∧
      min (max ((k : Int) - 1) 0) cap = min (max ((iterator.slotsUpTo now : Int) - 1) 0) cap := by
  have hWithin := hStops.within
  unfold ClockTells
  generalize iterator.slotsUpTo now = count
  dsimp only
  split
  · rename_i hSome
    constructor
    · rintro ⟨hReached, hNext, hStop⟩
      have hInside : iterator.StopsAt tz now cap (min count (cap + 1)) :=
        ⟨hReached, Nat.min_le_right _ _, hStop⟩
      obtain rfl := hStops.unique hInside
      exact ⟨hNext, by omega⟩
    · rintro ⟨hNext, hSame⟩
      obtain rfl : k = min count (cap + 1) := by omega
      exact ⟨hStops.reached, hNext, hStops.stops⟩
  · rename_i hFew
    constructor
    · rintro ⟨hFirst, hSecond⟩
      -- The loop stops at the first slot or at the second, and either way nothing was missed.
      by_cases hDue : iterator.Due tz now 0
      · obtain ⟨hNext, hLater⟩ := hSecond hDue
        have hOne : iterator.StopsAt tz now cap 1 := by
          refine ⟨fun j hBefore => ?_, by omega, hLater⟩
          obtain rfl : j = 0 := by omega
          exact hDue
        obtain rfl := hStops.unique hOne
        exact ⟨hNext, by omega⟩
      · have hZero : iterator.StopsAt tz now cap 0 :=
          ⟨fun j hBefore => absurd hBefore (Nat.not_lt_zero j), by omega, fun _ => hDue⟩
        obtain rfl := hStops.unique hZero
        exact ⟨hFirst, by omega⟩
    · rintro ⟨hNext, hSame⟩
      have hSmall : k = 0 ∨ k = 1 := by omega
      rcases hSmall with rfl | rfl
      · exact ⟨hNext, fun hDue => absurd hDue (hStops.stops (Nat.zero_le cap))⟩
      · exact ⟨(hStops.reached 0 Nat.one_pos).getNext_ne_none, fun _ => ⟨hNext, hStops.stops⟩⟩

/-- A clock that is never put back tells the slots of a schedule that goes on for ever. -/
theorem clockTells_of_neverPutBack (hClock : tz.NeverPutBack)
    (hEndless : ∀ k, iterator.getNext k ≠ none) : iterator.ClockTells tz now cap := by
  have hDue : ∀ k, iterator.Due tz now k ↔ k < iterator.slotsUpTo now := by
    intro k
    refine Iff.trans ?_ iterator.increasing.upTo_iff
    simp only [Due, hClock.shown_le_iff]
  unfold ClockTells
  dsimp only
  split
  · refine ⟨fun k hInside => (hDue k).mpr (by omega), hEndless _, fun hCap hLater => ?_⟩
    have hLess := (hDue _).mp hLater
    omega
  · refine ⟨hEndless 0, fun _ => ⟨hEndless 1, fun hPos hLater => ?_⟩⟩
    have hLess := (hDue 1).mp hLater
    omega

end Croniter

/-! ## The count -/

namespace ScheduleMath

variable {math : ScheduleMath} {schedule timezone : String} {tz : Zone} {since now cap k : Nat}

/-- `count_missed` returns how many of the slots in `(since, now]` were missed, all but the current
one and no more than the cap, and reads at most two slots more than the cap. -/
def CountsMissed (math : ScheduleMath) (schedule timezone : String) (tz : Zone)
    (since now cap : Nat) : Prop :=
  (math.countMissed schedule timezone since now cap).1 =
      .ok (min (max (((math.croniter schedule tz since).slotsUpTo now : Int) - 1) 0) cap) ∧
    (math.countMissed schedule timezone since now cap).2 ≤ cap + 2

theorem countMissed_of_stopsAt (hZone : math.zoneInfo timezone = some tz)
    (hValid : math.isValid schedule = true)
    (hStops : (math.croniter schedule tz since).StopsAt tz now cap k) :
    math.countMissed schedule timezone since now cap =
      ((match (math.croniter schedule tz since).getNext k with
        | none => .error .badDate
        | some _ => .ok (min (max ((k : Int) - 1) 0) cap)), k + 1) := by
  have hLoad : math.loadTimezone timezone = .ok tz := by rw [loadTimezone, hZone]
  have hEnsure : math.ensureValid schedule = .ok () := if_pos hValid
  rw [countMissed, hLoad, hEnsure]
  dsimp only
  rw [hStops.countSlots]
  cases (math.croniter schedule tz since).getNext k <;> rfl

/-- Whatever comes of it, the loop ends after so many slots. -/
theorem reads_le (math : ScheduleMath) (schedule timezone : String) (since now cap : Nat) :
    (math.countMissed schedule timezone since now cap).2 ≤ cap + 2 := by
  cases hZone : math.zoneInfo timezone with
  | none =>
      rw [countMissed, loadTimezone, hZone]
      exact Nat.zero_le _
  | some tz =>
      cases hValid : math.isValid schedule with
      | false =>
          have hEnsure : math.ensureValid schedule = .error _ := if_neg (by simp [hValid])
          rw [countMissed, loadTimezone, hZone, hEnsure]
          exact Nat.zero_le _
      | true =>
          obtain ⟨k, hStops⟩ := (math.croniter schedule tz since).exists_stopsAt tz now cap
          rw [countMissed_of_stopsAt hZone hValid hStops]
          exact Nat.succ_le_succ hStops.within

theorem countsMissed_of_stopsAt (hZone : math.zoneInfo timezone = some tz)
    (hValid : math.isValid schedule = true)
    (hStops : (math.croniter schedule tz since).StopsAt tz now cap k) :
    math.CountsMissed schedule timezone tz since now cap ↔
      (math.croniter schedule tz since).getNext k ≠ none ∧
        min (max ((k : Int) - 1) 0) cap =
          min (max (((math.croniter schedule tz since).slotsUpTo now : Int) - 1) 0) cap := by
  rw [CountsMissed, and_iff_left (reads_le math schedule timezone since now cap),
    countMissed_of_stopsAt hZone hValid hStops]
  cases hNext : (math.croniter schedule tz since).getNext k with
  | none => simp
  | some next => simp

/-- The count of missed runs is right exactly where the clock of the zone tells the slots. -/
theorem counts_missed_iff (hZone : math.zoneInfo timezone = some tz)
    (hValid : math.isValid schedule = true) :
    math.CountsMissed schedule timezone tz since now cap ↔
      (math.croniter schedule tz since).ClockTells tz now cap := by
  obtain ⟨k, hStops⟩ := (math.croniter schedule tz since).exists_stopsAt tz now cap
  exact (countsMissed_of_stopsAt hZone hValid hStops).trans (Croniter.clockTells_iff hStops).symm

theorem countsMissed_of_clockTells (hZone : math.zoneInfo timezone = some tz)
    (hValid : math.isValid schedule = true)
    (hTells : (math.croniter schedule tz since).ClockTells tz now cap) :
    math.CountsMissed schedule timezone tz since now cap := by
  obtain ⟨k, hStops⟩ := (math.croniter schedule tz since).exists_stopsAt tz now cap
  exact (countsMissed_of_stopsAt hZone hValid hStops).mpr ((Croniter.clockTells_iff hStops).mp hTells)

/-- It is right wherever the clock is never put back and the schedule goes on for ever. -/
theorem countsMissed_of_neverPutBack (hZone : math.zoneInfo timezone = some tz)
    (hValid : math.isValid schedule = true) (hClock : tz.NeverPutBack)
    (hEndless : ∀ k, (math.croniter schedule tz since).getNext k ≠ none) :
    math.CountsMissed schedule timezone tz since now cap :=
  countsMissed_of_clockTells hZone hValid (Croniter.clockTells_of_neverPutBack hClock hEndless)

section Job

variable {job : CronJob}

/-- The slots that a job has had since its last fire, or since it was created. -/
noncomputable def slotsOf (math : ScheduleMath) (tz : Zone) (job : CronJob) (now : Nat) : Nat :=
  (math.croniter job.schedule tz (job.lastFireAt.getD job.createdAt)).slotsUpTo now

theorem missedRunCount_of_clockTells (hZone : math.zoneInfo job.timezone = some tz)
    (hValid : math.isValid job.schedule = true)
    (hTells : (math.croniter job.schedule tz (job.lastFireAt.getD job.createdAt)).ClockTells tz now
      missedCountDefaultCap) :
    math.missedRunCount job now =
      .ok (min (math.slotsOf tz job now - 1) missedCountDefaultCap : Nat) := by
  have hCounts := (countsMissed_of_clockTells hZone hValid hTells).1
  rw [missedRunCount, hCounts, slotsOf]
  congr 1
  omega

/-- A fire is paced as a late one where more than one slot has come. -/
theorem hasMissedRuns_of_clockTells (hZone : math.zoneInfo job.timezone = some tz)
    (hValid : math.isValid job.schedule = true)
    (hTells : (math.croniter job.schedule tz (job.lastFireAt.getD job.createdAt)).ClockTells tz now
      missedCountDefaultCap) :
    math.hasMissedRuns job now = .ok (decide (1 < math.slotsOf tz job now)) := by
  rw [hasMissedRuns, missedRunCount_of_clockTells hZone hValid hTells]
  have hPositive : 0 < ((min (math.slotsOf tz job now - 1) missedCountDefaultCap : Nat) : Int) ↔
      1 < math.slotsOf tz job now := by
    unfold missedCountDefaultCap
    omega
  simp only [Except.map, hPositive]

/-- And its prompt then says how many runs were missed. -/
theorem promptFor_of_clockTells (hZone : math.zoneInfo job.timezone = some tz)
    (hValid : math.isValid job.schedule = true)
    (hTells : (math.croniter job.schedule tz (job.lastFireAt.getD job.createdAt)).ClockTells tz now
      missedCountDefaultCap) :
    math.promptFor job now = .ok (
      if 1 < math.slotsOf tz job now then
        job.prompt ++
          missedRunsSuffix (min (math.slotsOf tz job now - 1) missedCountDefaultCap : Nat)
      else job.prompt) := by
  rw [promptFor, missedRunCount_of_clockTells hZone hValid hTells]
  have hNone : ((min (math.slotsOf tz job now - 1) missedCountDefaultCap : Nat) : Int) = 0 ↔
      ¬1 < math.slotsOf tz job now := by
    unfold missedCountDefaultCap
    omega
  by_cases hSome : 1 < math.slotsOf tz job now
  · rw [if_pos hSome]
    exact if_neg fun hZero => hNone.mp hZero hSome
  · rw [if_neg hSome]
    exact if_pos (hNone.mpr hSome)

end Job
end ScheduleMath

/-! ## A night with two half past twos -/

def hour : Nat := 3600 * 1000000

/-- 1:00 UTC on 25 October 2026, when the clock goes from 3:00 back to 2:00. -/
def putBack : Nat := 498025 * hour

/-- Berlin from spring to spring. -/
def berlin : Zone where
  utcoffset time := if time < putBack then 2 * hour else hour

/-- 2:30 of a day, the first time that it is shown. -/
def halfPastTwo (day : Nat) : Nat :=
  if 24 * hour * day + hour / 2 < putBack then 24 * hour * day + hour / 2
  else 24 * hour * day + hour / 2 + hour

def dayAfter (base : Nat) : Nat :=
  if base < halfPastTwo (base / (24 * hour)) then base / (24 * hour) else base / (24 * hour) + 1

theorem lt_halfPastTwo_dayAfter (base : Nat) : base < halfPastTwo (dayAfter base) := by
  unfold dayAfter
  split
  · assumption
  · unfold halfPastTwo hour
    split <;> omega

theorem halfPastTwo_lt_succ (day : Nat) : halfPastTwo day < halfPastTwo (day + 1) := by
  unfold halfPastTwo hour
  split <;> split <;> omega

def nightly (base : Nat) : Croniter base where
  getNext k := some (halfPastTwo (dayAfter base + k))
  increasing := by
    refine ⟨fun a hA => ?_, fun i a b hA hB => ?_, fun i hNone => ?_⟩
    · rw [← Option.some.inj hA, Nat.add_zero]
      exact lt_halfPastTwo_dayAfter base
    · rw [← Option.some.inj hA, ← Option.some.inj hB, ← Nat.add_assoc]
      exact halfPastTwo_lt_succ _
    · cases hNone

/-- The schedule `30 2 * * *`, every night in Berlin. -/
def berlinNights : ScheduleMath where
  zoneInfo timezone := if timezone = "Europe/Berlin" then some berlin else none
  isValid schedule := schedule = "30 2 * * *"
  croniter _ _ base := nightly base
  repr text := "'" ++ text ++ "'"

theorem nightly_due {since now k : Nat} : (nightly since).Due berlin now k ↔
    berlin.shown (halfPastTwo (dayAfter since + k)) ≤ berlin.shown now := by
  simp [Croniter.Due, nightly]

theorem nightly_slotsUpTo {since now count : Nat}
    (hLast : ∀ k < count, halfPastTwo (dayAfter since + k) ≤ now)
    (hNext : now < halfPastTwo (dayAfter since + count)) :
    (nightly since).slotsUpTo now = count := by
  refine (nightly since).increasing.ncard_eq (fun k hLess => ?_) ?_
  · exact ⟨_, rfl, hLast k hLess⟩
  · rintro ⟨slot, hSlot, hUpTo⟩
    obtain rfl := Option.some.inj hSlot
    omega

/-- From noon on 22 October to noon on the 24th: two nights, of which one was missed. -/
theorem counts_missed_two_nights :
    berlinNights.CountsMissed "30 2 * * *" "Europe/Berlin" berlin (497964 * hour) (498012 * hour)
      100 := by
  refine (ScheduleMath.counts_missed_iff (by rfl) (by rfl)).mpr ?_
  have hTwo : (nightly (497964 * hour)).slotsUpTo (498012 * hour) = 2 :=
    nightly_slotsUpTo (by decide +kernel) (by decide +kernel)
  change (nightly (497964 * hour)).ClockTells berlin (498012 * hour) 100
  unfold Croniter.ClockTells
  rw [hTwo]
  simp only [nightly_due]
  refine ⟨?_, ?_, ?_⟩
  · decide +kernel
  · simp [nightly]
  · decide +kernel

/-- From noon on 23 October to 2:15 after the clock was put back: 2:30 of the 25th was missed, but
the clock shows it as later. -/
theorem missed_night_not_counted :
    ¬berlinNights.CountsMissed "30 2 * * *" "Europe/Berlin" berlin (497988 * hour)
      (498025 * hour + hour / 4) 100 := by
  have hTwo : (nightly (497988 * hour)).slotsUpTo (498025 * hour + hour / 4) = 2 :=
    nightly_slotsUpTo (by decide +kernel) (by decide +kernel)
  have hStops : (nightly (497988 * hour)).StopsAt berlin (498025 * hour + hour / 4) 100 1 := by
    refine ⟨?_, by omega, fun _ => ?_⟩
    · simp only [nightly_due]
      decide +kernel
    · rw [nightly_due]
      decide +kernel
  rw [ScheduleMath.countsMissed_of_stopsAt (by rfl) (by rfl) hStops]
  rintro ⟨-, hSame⟩
  change min (max (((1 : Nat) : Int) - 1) 0) ((100 : Nat) : Int) = min (max
    (((nightly (497988 * hour)).slotsUpTo (498025 * hour + hour / 4) : Int) - 1) 0) (100 : Nat) at hSame
  rw [hTwo] at hSame
  exact absurd hSame (by decide)

end Cron
end OctoForge
