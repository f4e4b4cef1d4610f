import Mathlib.Data.List.Range
import OctoForge.Llm.Retry

/-!
# What is retried

An attempt follows another one that has yielded nothing and has failed with a transient error.  The
events of a stream are the retries, each one announced, and then the events of its last attempt.
-/

namespace OctoForge
namespace Llm

/-- An attempt that may be made again. -/
def Attempt.Fails (attempt : Attempt) : Prop :=
  attempt.events = [] ∧ ∃ exc, attempt.ending = .raised (.llm exc) ∧ exc.transient = true

namespace RetryingLLMClient

section Streams

variable (client : RetryingLLMClient) (inner : Nat → Attempt)

/-- The event that announces the retry after an attempt. -/
def Announces (attempt : Nat) (event : StreamEvent) : Prop :=
  ∃ exc seconds, (inner attempt).ending = .raised (.llm exc) ∧
    client.delay (attempt + 1) exc = .ok seconds ∧
    event = .retryScheduled (attempt + 1) seconds exc.kind.value

/-- A stream that has been retried this often, and has then gone on as its last attempt did. -/
structure Retried (retries : Nat) (streamed : Streamed) : Prop where
  bounded : retries ≤ client.maxRetries
  attempts : streamed.attempts = retries + 1
  failed : ∀ attempt < retries, (inner attempt).Fails
  events : ∃ announced, List.Forall₂ (client.Announces inner) (List.range retries) announced ∧
    streamed.events = announced ++ (inner retries).events
  ending : streamed.ending = (inner retries).ending

end Streams

variable {client : RetryingLLMClient} {inner : Nat → Attempt} {attempt : Nat} {exc : LLMError}

/-! ## One attempt -/

theorem exists_delay (hFloat : attempt < 1024) :
    ∃ seconds, client.delay (attempt + 1) exc = .ok seconds := by
  rw [delay, Nat.add_sub_cancel, floatPower, if_pos hFloat]
  cases exc.retryAfter with
  | none => exact ⟨_, rfl⟩
  | some retryAfter => exact ⟨_, rfl⟩

theorem delay_overflow (hLarge : 1024 ≤ attempt) :
    client.delay (attempt + 1) exc = .error overflow := by
  rw [delay, Nat.add_sub_cancel, floatPower, if_neg (Nat.not_lt.mpr hLarge)]
  rfl

/-- An attempt that is not made again. -/
theorem streamFrom_last (hLast : ¬((inner attempt).Fails ∧ attempt < client.maxRetries)) :
    client.streamFrom inner attempt = .last (inner attempt) := by
  rw [streamFrom]
  split
  · rename_i exc hEnding
    rw [if_pos]
    by_contra hRetry
    simp only [Bool.or_eq_true, not_or, Bool.not_eq_true', Bool.not_eq_false, decide_eq_true_eq,
      Int.not_le, List.isEmpty_iff] at hRetry
    obtain ⟨⟨hNone, hTransient⟩, hMore⟩ := hRetry
    exact hLast ⟨⟨hNone, exc, hEnding, hTransient⟩, hMore⟩
  · rfl

/-- What follows an attempt that fails, as long as there are retries left. -/
theorem streamFrom_fails (hFails : (inner attempt).Fails) (hMore : attempt < client.maxRetries) :
    ∃ exc, (inner attempt).ending = .raised (.llm exc) ∧
      client.streamFrom inner attempt =
        match client.delay (attempt + 1) exc with
        | .error raised => ⟨[], 1, .raised raised⟩
        | .ok seconds =>
            ⟨.retryScheduled (attempt + 1) seconds exc.kind.value ::
                (client.streamFrom inner (attempt + 1)).events,
              (client.streamFrom inner (attempt + 1)).attempts + 1,
              (client.streamFrom inner (attempt + 1)).ending⟩ := by
  obtain ⟨hNone, exc, hEnding, hTransient⟩ := hFails
  refine ⟨exc, hEnding, ?_⟩
  rw [streamFrom, hEnding, hNone]
  have hGuard : (!([] : List StreamEvent).isEmpty || !exc.transient ||
      decide (client.maxRetries ≤ attempt)) = false := by
    rw [hTransient, decide_eq_false (Int.not_le.mpr hMore)]
    rfl
  dsimp only
  rw [hGuard, if_neg Bool.false_ne_true]
  rfl

/-! ## Runs of attempts -/

/-- From an attempt on, the retries that are left are announced until an attempt is the last. -/
theorem retries_from (hBounded : attempt ≤ client.maxRetries) (hFloat : attempt ≤ 1024)
    (hDelays : ¬(1025 ≤ client.maxRetries ∧
      ∀ later, attempt ≤ later → later < 1025 → (inner later).Fails)) :
    ∃ retries : Nat, ((attempt + retries : Nat) : Int) ≤ client.maxRetries ∧
      (client.streamFrom inner attempt).attempts = retries + 1 ∧
      (∀ later, attempt ≤ later → later < attempt + retries → (inner later).Fails) ∧
      (∃ announced, List.Forall₂ (client.Announces inner) (List.range' attempt retries) announced ∧
        (client.streamFrom inner attempt).events = announced ++ (inner (attempt + retries)).events) ∧
      (client.streamFrom inner attempt).ending = (inner (attempt + retries)).ending := by
  -- By the retries that are left.
  induction hLeft : (client.maxRetries - attempt).toNat generalizing attempt with
  | zero =>
      have hLast : ¬((inner attempt).Fails ∧ attempt < client.maxRetries) := by omega
      rw [streamFrom_last hLast]
      exact ⟨0, hBounded, rfl, fun later hFrom hTo => by omega, ⟨[], .nil, rfl⟩, rfl⟩
  | succ left ih =>
      by_cases hRetry : (inner attempt).Fails ∧ attempt < client.maxRetries
      · obtain ⟨hFails, hMore⟩ := hRetry
        -- With no float left for the next delay, all attempts so far would have failed.
        have hSmall : attempt < 1024 := by
          by_contra hLarge
          refine hDelays ⟨by omega, fun later hFrom hTo => ?_⟩
          obtain rfl : later = attempt := by omega
          exact hFails
        obtain ⟨exc, hEnding, hStream⟩ := streamFrom_fails hFails hMore
        obtain ⟨seconds, hSeconds⟩ := @exists_delay client attempt exc hSmall
        rw [hSeconds] at hStream
        have hLater : ¬(1025 ≤ client.maxRetries ∧
            ∀ later, attempt + 1 ≤ later → later < 1025 → (inner later).Fails) := by
          rintro ⟨hMany, hAll⟩
          refine hDelays ⟨hMany, fun later hFrom hTo => ?_⟩
          rcases Nat.eq_or_lt_of_le hFrom with rfl | hFurther
          · exact hFails
          · exact hAll later hFurther hTo
        obtain ⟨retries, hBound, hAttempts, hFailed, ⟨announced, hAnnounced, hEvents⟩, hEnds⟩ :=
          @ih (attempt + 1) (by omega) (by omega) hLater (by omega)
        have hLast : attempt + 1 + retries = attempt + (retries + 1) := by omega
        rw [hLast] at hBound hFailed hEvents hEnds
        rw [hStream]
        refine ⟨retries + 1, hBound, congrArg (· + 1) hAttempts, ?_, ?_, hEnds⟩
        · intro later hFrom hTo
          rcases Nat.eq_or_lt_of_le hFrom with rfl | hFurther
          · exact hFails
          · exact hFailed later hFurther hTo
        · refine ⟨.retryScheduled (attempt + 1) seconds exc.kind.value :: announced, ?_, ?_⟩
          · rw [List.range'_succ]
            exact .cons ⟨exc, seconds, hEnding, hSeconds, rfl⟩ hAnnounced
          · exact congrArg (_ :: ·) hEvents
      · rw [streamFrom_last hRetry]
        exact ⟨0, hBounded, rfl, fun later hFrom hTo => by omega, ⟨[], .nil, rfl⟩, rfl⟩

/-- When too many attempts fail, it is the delay that raises. -/
theorem streamFrom_overflow (hFloat : attempt ≤ 1024) (hMany : 1025 ≤ client.maxRetries)
    (hFails : ∀ later, attempt ≤ later → later < 1025 → (inner later).Fails) :
    (client.streamFrom inner attempt).attempts + attempt = 1025 ∧
      (client.streamFrom inner attempt).ending = .raised overflow := by
  -- By the attempts that still have a delay.
  induction hLeft : 1024 - attempt generalizing attempt with
  | zero =>
      obtain rfl : attempt = 1024 := by omega
      obtain ⟨exc, -, hStream⟩ :=
        @streamFrom_fails client inner 1024 (hFails 1024 le_rfl (by omega)) (by omega)
      rw [delay_overflow le_rfl] at hStream
      rw [hStream]
      exact ⟨rfl, rfl⟩
  | succ left ih =>
      obtain ⟨exc, -, hStream⟩ :=
        @streamFrom_fails client inner attempt (hFails attempt le_rfl (by omega)) (by omega)
      obtain ⟨seconds, hSeconds⟩ := @exists_delay client attempt exc (by omega)
      obtain ⟨hAttempts, hEnding⟩ := @ih (attempt + 1) (by omega)
        (fun later hFrom hTo => hFails later (by omega) hTo) (by omega)
      rw [hSeconds] at hStream
      rw [hStream]
      refine ⟨?_, hEnding⟩
      dsimp only
      omega

/-- A stream that ends with the delay has not raised the error of its last attempt. -/
theorem not_retried_of_overflow (hMany : 1025 ≤ client.maxRetries)
    (hFails : ∀ attempt < 1025, (inner attempt).Fails) :
    ¬∃ retries, client.Retried inner retries (client.stream inner) := by
  rintro ⟨retries, hRetried⟩
  obtain ⟨hAttempts, hEnding⟩ := @streamFrom_overflow client inner 0 (by omega) hMany
    fun later _ hTo => hFails later hTo
  have hLast := hRetried.attempts
  rw [stream] at hLast
  obtain ⟨-, exc, hRaised, -⟩ := hFails retries (by omega)
  have hSame := hRetried.ending
  rw [stream, hEnding, hRaised] at hSame
  cases hSame

/-- A stream is retried as long as the delays can be computed. -/
theorem retried_iff :
    (∃ retries, client.Retried inner retries (client.stream inner)) ↔
      0 ≤ client.maxRetries ∧
        ¬(1025 ≤ client.maxRetries ∧ ∀ attempt < 1025, (inner attempt).Fails) := by
  constructor
  · rintro hRetried
    refine ⟨?_, fun ⟨hMany, hFails⟩ => not_retried_of_overflow hMany hFails hRetried⟩
    obtain ⟨retries, hBounded, -⟩ := hRetried
    omega
  · rintro ⟨hSome, hDelays⟩
    obtain ⟨retries, hBound, hAttempts, hFailed, ⟨announced, hAnnounced, hEvents⟩, hEnding⟩ :=
      @retries_from client inner 0 hSome (by omega) fun ⟨hMany, hAll⟩ =>
        hDelays ⟨hMany, fun attempt hTo => hAll attempt (Nat.zero_le _) hTo⟩
    rw [Nat.zero_add] at hBound hFailed hEvents hEnding
    rw [← List.range_eq_range'] at hAnnounced
    exact ⟨retries, hBound, hAttempts, fun attempt => hFailed attempt (Nat.zero_le _),
      ⟨announced, hAnnounced, hEvents⟩, hEnding⟩

/-- A provider that is throttled for good is not reported as such in the end. -/
theorem retried_not_throttled :
    ¬∃ retries, Retried ⟨2000, 1, 60, fun _ low _ => low⟩
      (fun _ => ⟨[], .raised (.llm ⟨.rateLimit, "slow down".toList, none⟩)⟩) retries
      (stream ⟨2000, 1, 60, fun _ low _ => low⟩
        fun _ => ⟨[], .raised (.llm ⟨.rateLimit, "slow down".toList, none⟩)⟩) :=
  not_retried_of_overflow (by decide) fun _ _ => ⟨rfl, _, rfl, rfl⟩

end RetryingLLMClient

end Llm
end OctoForge
