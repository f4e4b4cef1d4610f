import OctoForge.Server.Admissions
import OctoForge.Sequence.Places

/-!
# What a flood of wrong passwords costs

The limiter counts the failures of a client, and a client that has used up its failures is refused
without a hash until the cooldown is over.  The count comes behind the worker thread, so what was
handed to the threads before it does not meet it: the cost is the budget and what runs at once.
-/

namespace OctoForge
namespace Auth

variable {platform : Platform} {client other : Text} {moment : Int}

namespace AttemptLimiter

variable {l : AttemptLimiter}

/-- The failures of a client that are still counted. -/
def countOf (l : AttemptLimiter) (client : Text) (moment : Int) : Nat :=
  match Dict.get l.failures client with
  | some (count, last) => if moment - last ≥ l.cooldownSeconds then 0 else count
  | none => 0

/-- With room for one client more, a failure is counted for its client alone. -/
theorem get_recordFailure (hRoom : l.failures.length < l.maxClients) :
    Dict.get (l.recordFailure client moment).failures other =
      if client = other then some (l.countOf client moment + 1, moment)
      else Dict.get l.failures other := by
  have hFew : (Dict.moveToEnd client (Dict.put client (l.countOf client moment + 1, moment)
      l.failures)).length ≤ l.maxClients :=
    (Dict.length_moveToEnd_le.trans Dict.length_put_le).trans hRoom
  have hSame : (l.recordFailure client moment).failures = Dict.trim l.maxClients
      (Dict.moveToEnd client (Dict.put client (l.countOf client moment + 1, moment)
        l.failures)) := by
    rw [recordFailure, countOf]
    cases hGet : Dict.get l.failures client with
    | none => simp
    | some entry => rfl
  rw [hSame, Dict.trim_of_length_le hFew, Dict.get_moveToEnd, Dict.get_put]

theorem get_blocked_other (hOther : client ≠ other) :
    Dict.get (l.blocked client moment).2.failures other = Dict.get l.failures other := by
  rw [blocked]
  split
  · rfl
  · split
    · rw [Dict.get_del, if_neg hOther]
    · rfl

/-- While the cooldown of a client lasts, it is blocked once it has used up its failures. -/
theorem blocked_counted {count : Nat} {last : Int}
    (hGet : Dict.get l.failures client = some (count, last))
    (hLasts : moment - last < l.cooldownSeconds) :
    l.blocked client moment = (decide (count ≥ l.maxFailures), l) := by
  rw [blocked, hGet]
  dsimp only
  rw [if_neg (by omega)]

end AttemptLimiter

namespace AuthGate

variable {g g' start : AuthGate} {old attempts : List Attempt} {attempt : Attempt} {k failed : Nat}
  {l : AttemptLimiter} {now : Int}

/-- The attempt is of the client and cost a hash. -/
def costs (client : Text) (attempt : Attempt) : Bool :=
  clientOf attempt.request = client && attempt.hashed

/-- The attempt is of the client and its password is in a worker thread. -/
def runs (client : Text) (attempt : Attempt) : Bool :=
  clientOf attempt.request = client && isHashing attempt.phase

/-- The attempt is of the client, cost a hash and failed. -/
def fails (client : Text) (attempt : Attempt) : Bool :=
  clientOf attempt.request = client && attempt.hashed && !isHashing attempt.phase

/-- The step is one of a flood that lasts less than the cooldown: no password of the client is
right, there is room for one tracked client more, and no more than `k` of the passwords of the
client are being hashed at once. -/
def calm (platform : Platform) (client : Text) (k : Nat) (start : Int) (g : AuthGate)
    (move : Move) : Bool :=
  match AuthGate.step platform g move with
  | none => true
  | some g' =>
      g.now - start < g.limiter.cooldownSeconds &&
      g.limiter.failures.length < g.limiter.maxClients &&
      g'.attempts.countP (runs client) ≤ k &&
      match move with
      | .hashed index =>
          match g'.attempts[index]? with
          | some attempt => clientOf attempt.request ≠ client || attempt.phase = .refused 401
          | none => true
      | _ => true

/-- The limiter has counted what the attempts since the start have failed. -/
def Tallies (client : Text) (start : AuthGate) (l : AttemptLimiter) (failed : Nat) : Prop :=
  failed = 0 ∨ ∃ count last, Dict.get l.failures client = some (count, last) ∧
    failed ≤ count ∧ start.now ≤ last

/-- What holds of the attempts that have come since the start: the failures are counted. -/
structure Counted (client : Text) (k : Nat) (start : AuthGate) (g : AuthGate)
    (old attempts : List Attempt) : Prop where
  split : g.attempts = old ++ attempts
  hashed : ∀ attempt ∈ attempts, isHashing attempt.phase = true → attempt.hashed = true
  limits : g.limiter.maxFailures = start.limiter.maxFailures ∧
    g.limiter.cooldownSeconds = start.limiter.cooldownSeconds
  since : start.now ≤ g.now
  counted : Tallies client start g.limiter (attempts.countP (fails client))
  bound : attempts.countP (costs client) ≤ start.limiter.maxFailures - 1 + k

theorem countP_costs (hHashed : ∀ attempt ∈ attempts, isHashing attempt.phase = true →
    attempt.hashed = true) : attempts.countP (costs client) =
      attempts.countP (runs client) + attempts.countP (fails client) := by
  induction attempts with
  | nil => rfl
  | cons attempt rest ih =>
      have hRest := ih fun other hOther => hHashed other (List.mem_cons_of_mem attempt hOther)
      have hHere := hHashed attempt List.mem_cons_self
      rw [List.countP_cons, List.countP_cons, List.countP_cons, hRest, costs, runs, fails]
      cases hHashing : isHashing attempt.phase with
      | true =>
          rw [hHere hHashing]
          simp only [Bool.and_true, Bool.not_true, Bool.and_false, Bool.false_eq_true, if_false]
          omega
      | false =>
          simp only [Bool.and_false, Bool.not_false, Bool.and_true, Bool.false_eq_true, if_false]
          omega

/-- While the flood lasts, asking whether a client is blocked forgets no counted failure. -/
theorem tallies_blocked (hTallies : Tallies client start l failed)
    (hLasts : now - start.now < l.cooldownSeconds) (asked : Text) :
    Tallies client start (l.blocked asked now).2 failed := by
  rcases hTallies with hNone | ⟨count, last, hGet, hCount, hSince⟩
  · exact .inl hNone
  · refine .inr ⟨count, last, ?_, hCount, hSince⟩
    by_cases hSame : asked = client
    · subst hSame
      rw [AttemptLimiter.blocked_counted hGet (by omega)]
      exact hGet
    · rw [AttemptLimiter.get_blocked_other hSame]
      exact hGet

/-- A client that is not blocked has a failure left. -/
theorem tallies_free (hTallies : Tallies client start l failed)
    (hLasts : now - start.now < l.cooldownSeconds) (hFree : (l.blocked client now).1 = false) :
    failed ≤ l.maxFailures - 1 := by
  rcases hTallies with hNone | ⟨count, last, hGet, hCount, hSince⟩
  · rw [hNone]
    exact Nat.zero_le _
  · rw [AttemptLimiter.blocked_counted hGet (by omega)] at hFree
    have hFew := of_decide_eq_false hFree
    omega

/-- A failure is counted for its client. -/
theorem tallies_recordFailure {asked : Text} (hTallies : Tallies client start l failed)
    (hLasts : now - start.now < l.cooldownSeconds) (hRoom : l.failures.length < l.maxClients)
    (hSince : start.now ≤ now) :
    Tallies client start (l.recordFailure asked now)
      (if asked = client then failed + 1 else failed) := by
  by_cases hSame : asked = client
  · subst hSame
    rw [if_pos rfl]
    refine .inr ⟨l.countOf asked now + 1, now, ?_, Nat.succ_le_succ ?_, hSince⟩
    · rw [AttemptLimiter.get_recordFailure hRoom, if_pos rfl]
    · rcases hTallies with hNone | ⟨count, last, hGet, hCount, hLast⟩
      · rw [hNone]
        exact Nat.zero_le _
      · rw [AttemptLimiter.countOf, hGet]
        dsimp only
        rwa [if_neg (by omega)]
  · rw [if_neg hSame]
    rcases hTallies with hNone | ⟨count, last, hGet, hCount, hLast⟩
    · exact .inl hNone
    · refine .inr ⟨count, last, ?_, hCount, hLast⟩
      rw [AttemptLimiter.get_recordFailure hRoom, if_neg hSame, hGet]

/-- Fewer failures are counted as well. -/
theorem Tallies.le {fewer : Nat} (hTallies : Tallies client start l failed)
    (hFewer : fewer ≤ failed) : Tallies client start l fewer := by
  rcases hTallies with hNone | ⟨count, last, hGet, hCount, hSince⟩
  · exact .inl (by omega)
  · exact .inr ⟨count, last, hGet, hFewer.trans hCount, hSince⟩

/-! ## The steps -/

/-- An attempt has come, and if it costs a hash then there was a failure left. -/
theorem Counted.concat (hCounted : Counted client k start g old attempts)
    (hSplit : g'.attempts = g.attempts ++ [attempt])
    (hHashed : attempt.hashed = isHashing attempt.phase)
    (hLimits : g'.limiter.maxFailures = g.limiter.maxFailures ∧
      g'.limiter.cooldownSeconds = g.limiter.cooldownSeconds) (hNow : g'.now = g.now)
    (hTallies : Tallies client start g'.limiter (attempts.countP (fails client)))
    (hRuns : g'.attempts.countP (runs client) ≤ k)
    (hFree : runs client attempt = true →
      attempts.countP (fails client) ≤ start.limiter.maxFailures - 1) :
    Counted client k start g' old (attempts ++ [attempt]) := by
  have hNoFail : fails client attempt = false := by
    rw [fails, hHashed, Bool.and_assoc, Bool.and_not_self, Bool.and_false]
  have hCosts : costs client attempt = runs client attempt := by
    rw [costs, runs, hHashed]
  refine ⟨by rw [hSplit, hCounted.split, List.append_assoc], fun other hOther hIs => ?_,
    ⟨hLimits.1.trans hCounted.limits.1, hLimits.2.trans hCounted.limits.2⟩,
    by rw [hNow]; exact hCounted.since, ?_, ?_⟩
  · rcases List.mem_append.mp hOther with hOld | hNew
    · exact hCounted.hashed other hOld hIs
    · rw [List.mem_singleton.mp hNew] at hIs ⊢
      rwa [hHashed]
  · rw [List.countP_append, List.countP_singleton, hNoFail]
    simpa using hTallies
  · rw [List.countP_append, List.countP_singleton, hCosts]
    have hBound := hCounted.bound
    rw [countP_costs hCounted.hashed] at hBound ⊢
    rw [hSplit, hCounted.split, List.countP_append, List.countP_append, List.countP_singleton]
      at hRuns
    by_cases hRunning : runs client attempt = true
    · rw [if_pos hRunning] at hRuns ⊢
      have hLeft := hFree hRunning
      omega
    · rw [if_neg hRunning]
      exact hBound

/-- A worker thread is done, and a failure of the client has been counted. -/
theorem Counted.set {index : Nat} {done : Phase}
    (hCounted : Counted client k start g old attempts)
    (hAttempt : g.attempts[index]? = some attempt) (hHashing : isHashing attempt.phase = true)
    (hDone : isHashing done = false)
    (hSplit : g'.attempts = g.attempts.set index { attempt with phase := done })
    (hLimits : g'.limiter.maxFailures = g.limiter.maxFailures ∧
      g'.limiter.cooldownSeconds = g.limiter.cooldownSeconds) (hNow : g'.now = g.now)
    (hTallies : Tallies client start g'.limiter
      (if clientOf attempt.request = client then attempts.countP (fails client) + 1
        else attempts.countP (fails client))) :
    ∃ old' attempts', old'.length = old.length ∧ Counted client k start g' old' attempts' := by
  rw [hCounted.split] at hAttempt hSplit
  have hLimits' : g'.limiter.maxFailures = start.limiter.maxFailures ∧
      g'.limiter.cooldownSeconds = start.limiter.cooldownSeconds :=
    ⟨hLimits.1.trans hCounted.limits.1, hLimits.2.trans hCounted.limits.2⟩
  have hSince : start.now ≤ g'.now := by
    rw [hNow]
    exact hCounted.since
  by_cases hOld : index < old.length
  · rw [List.set_append_left _ _ hOld] at hSplit
    refine ⟨_, attempts, List.length_set, hSplit, hCounted.hashed, hLimits', hSince,
      hTallies.le ?_, hCounted.bound⟩
    split <;> omega
  · have hNew := Nat.le_of_not_lt hOld
    rw [List.getElem?_append_right hNew] at hAttempt
    rw [List.set_append_right _ _ hNew] at hSplit
    obtain ⟨before, after, rfl, -, hSet⟩ := Sequence.exists_around hAttempt
    rw [hSet] at hSplit
    have hWas := hCounted.hashed attempt (by simp) hHashing
    -- The attempt goes over from those that run to those that failed.
    have hCosts : costs client { attempt with phase := done } = costs client attempt := rfl
    have hFails : fails client { attempt with phase := done } =
        decide (clientOf attempt.request = client) := by
      simp [fails, hDone, hWas]
    have hNoFail : fails client attempt = false := by
      rw [fails, hHashing, Bool.not_true, Bool.and_false]
    refine ⟨old, before ++ { attempt with phase := done } :: after, rfl, hSplit,
      fun other hOther hIs => ?_, hLimits', hSince, hTallies.le ?_, ?_⟩
    · rcases List.mem_append.mp hOther with hBefore | hRest
      · exact hCounted.hashed other (List.mem_append_left _ hBefore) hIs
      · rcases List.mem_cons.mp hRest with rfl | hAfter
        · exact hWas
        · exact hCounted.hashed other (List.mem_append_right _ (List.mem_cons_of_mem _ hAfter)) hIs
    · rw [List.countP_append, List.countP_append, List.countP_cons, List.countP_cons, hFails,
        hNoFail]
      by_cases hClient : clientOf attempt.request = client
      · simp [hClient]
        omega
      · simp [hClient]
    · have hBound := hCounted.bound
      rw [List.countP_append, List.countP_cons] at hBound ⊢
      rwa [hCosts]

/-- The limits of the limiter do not change. -/
theorem limits_blank (hBlank : g'.blank = g.blank) :
    g'.limiter.maxFailures = g.limiter.maxFailures ∧
      g'.limiter.cooldownSeconds = g.limiter.cooldownSeconds ∧
      g'.limiter.maxClients = g.limiter.maxClients :=
  ⟨congrArg (·.limiter.maxFailures) hBlank, congrArg (·.limiter.cooldownSeconds) hBlank,
    congrArg (·.limiter.maxClients) hBlank⟩

/-- Up to the worker thread no counted failure is forgotten, and a hash is only begun for a client
with a failure left. -/
theorem tallies_begins {request : Request} {serviceAllowed : Bool} {phase : Phase}
    (hTallies : Tallies client start g.limiter failed)
    (hLasts : g.now - start.now < g.limiter.cooldownSeconds)
    (hRoom : g.limiter.failures.length < g.limiter.maxClients) (hSince : start.now ≤ g.now)
    (hBegins : Begins platform g request serviceAllowed g' phase) :
    Tallies client start g'.limiter failed ∧
      (isHashing phase = true → clientOf request = client →
        failed ≤ g.limiter.maxFailures - 1) := by
  have hBlocked := tallies_blocked hTallies hLasts (clientOf request)
  cases hBegins with
  | turnedAway status => exact ⟨hTallies, by simp [isHashing]⟩
  | remembered c s credential hCache hService hAllowed hValid =>
      exact ⟨hTallies, by simp [isHashing]⟩
  | stopped c s phase hCache hService hPhase =>
      refine ⟨hBlocked, fun hHashing => ?_⟩
      rcases hPhase with hPhase | hPhase <;> simp [hPhase, isHashing] at hHashing
  | malformed c s hCache hService =>
      obtain ⟨hFewer, hLimits⟩ := length_blocked g.limiter (clientOf request) g.now
      have hCooldown : (g.limiter.blocked (clientOf request) g.now).2.cooldownSeconds =
          g.limiter.cooldownSeconds := congrArg (·.cooldownSeconds) hLimits
      have hMax : (g.limiter.blocked (clientOf request) g.now).2.maxClients =
          g.limiter.maxClients := congrArg (·.maxClients) hLimits
      refine ⟨(tallies_recordFailure hBlocked (by rwa [hCooldown]) ?_ hSince).le ?_,
        by simp [isHashing]⟩
      · rw [hMax]
        exact Nat.lt_of_le_of_lt hFewer hRoom
      · split <;> omega
  | hashes c s user password credential userOk hCache hService hFree hDecoded hNamed =>
      refine ⟨hBlocked, fun _ hClient => ?_⟩
      rw [hClient] at hFree
      exact tallies_free hTallies hLasts hFree

theorem counted_request {request : Request} (hCounted : Counted client k start g old attempts)
    (hLasts : g.now - start.now < g.limiter.cooldownSeconds)
    (hRoom : g.limiter.failures.length < g.limiter.maxClients)
    (hStep : AuthGate.step platform g (.request request) = some g')
    (hRuns : g'.attempts.countP (runs client) ≤ k) :
    ∃ attempts', Counted client k start g' old attempts' := by
  obtain rfl := Option.some.inj hStep
  have hArrive : Loses (g.arrive platform request).1 g ∧
      Tallies client start (g.arrive platform request).1.limiter (attempts.countP (fails client)) ∧
      (isHashing (g.arrive platform request).2 = true → clientOf request = client →
        attempts.countP (fails client) ≤ g.limiter.maxFailures - 1) := by
    have hSame : Loses g g := ⟨rfl, rfl, rfl, rfl, List.Sublist.refl _, List.Sublist.refl _, id⟩
    rw [arrive]
    split
    · exact ⟨hSame, hCounted.counted, by simp [isHashing]⟩
    · split
      · exact ⟨hSame, hCounted.counted, by simp [isHashing]⟩
      · have hBegins := begin_cases platform g request (allowsServiceCredential request.path)
        exact ⟨loses_begins hBegins,
          tallies_begins hCounted.counted hLasts hRoom hCounted.since hBegins⟩
  obtain ⟨hLoses, hTallies, hFree⟩ := hArrive
  obtain ⟨hFailures, hCooldown, -⟩ := limits_blank hLoses.blank
  refine ⟨_, hCounted.concat (by rw [← hLoses.attempts]) rfl ⟨hFailures, hCooldown⟩ hLoses.now
    hTallies hRuns fun hRunning => ?_⟩
  rw [runs, Bool.and_eq_true] at hRunning
  rw [← hCounted.limits.1]
  exact hFree hRunning.2 (of_decide_eq_true hRunning.1)

/-- What the end of a hash leaves alone. -/
theorem finish_frame (platform : Platform) (g : AuthGate) (request : Request) (password : Text)
    (credential : Credential) (userOk : Bool) :
    (g.finish platform request password credential userOk).1.attempts = g.attempts ∧
      (g.finish platform request password credential userOk).1.now = g.now ∧
      (g.finish platform request password credential userOk).1.limiter.maxFailures =
        g.limiter.maxFailures ∧
      (g.finish platform request password credential userOk).1.limiter.cooldownSeconds =
        g.limiter.cooldownSeconds ∧
      isHashing (g.finish platform request password credential userOk).2 = false := by
  rw [finish]
  split
  · exact ⟨rfl, rfl, rfl, rfl, rfl⟩
  · split
    · cases credential <;> exact ⟨rfl, rfl, rfl, rfl, rfl⟩
    · exact ⟨rfl, rfl, rfl, rfl, rfl⟩

/-- Behind the worker thread a failure of the client is counted, and nobody else's hash forgets
one. -/
theorem tallies_finish {request : Request} {password : Text} {credential : Credential}
    {userOk : Bool} (hTallies : Tallies client start g.limiter failed)
    (hLasts : g.now - start.now < g.limiter.cooldownSeconds)
    (hRoom : g.limiter.failures.length < g.limiter.maxClients) (hSince : start.now ≤ g.now)
    (hFails : clientOf request = client →
      (g.finish platform request password credential userOk).2 = .refused 401) :
    Tallies client start (g.finish platform request password credential userOk).1.limiter
      (if clientOf request = client then failed + 1 else failed) := by
  rw [finish] at hFails ⊢
  split at hFails
  · have hOther : clientOf request ≠ client := fun hClient => by cases hFails hClient
    rw [if_neg hOther]
    exact hTallies
  · rename_i passwordOk hPassword
    split at hFails
    · rename_i hBoth
      have hOther : clientOf request ≠ client := fun hClient => by cases hFails hClient
      rw [if_neg hOther, if_pos hBoth]
      rcases hTallies with hNone | ⟨count, last, hGet, hCount, hLast⟩
      · exact .inl hNone
      · refine .inr ⟨count, last, ?_, hCount, hLast⟩
        have hDel : Dict.get (Dict.del (clientOf request) g.limiter.failures) client =
            some (count, last) := by rw [Dict.get_del, if_neg hOther, hGet]
        cases credential <;> exact hDel
    · rename_i hNot
      rw [if_neg hNot]
      exact tallies_recordFailure hTallies hLasts hRoom hSince

theorem counted_hashed {index : Nat} (hCounted : Counted client k start g old attempts)
    (hLasts : g.now - start.now < g.limiter.cooldownSeconds)
    (hRoom : g.limiter.failures.length < g.limiter.maxClients)
    (hStep : AuthGate.step platform g (.hashed index) = some g')
    (hFails : ∀ attempt, g'.attempts[index]? = some attempt → clientOf attempt.request = client →
      attempt.phase = .refused 401) :
    ∃ old' attempts', old'.length = old.length ∧ Counted client k start g' old' attempts' := by
  rw [AuthGate.step] at hStep
  split at hStep
  · rename_i attempt hAttempt
    split at hStep
    · rename_i password credential userOk hPhase
      obtain rfl := Option.some.inj hStep
      have hBound := (List.getElem?_eq_some_iff.mp hAttempt).1
      have hHashing : isHashing attempt.phase = true := by rw [hPhase]; rfl
      obtain ⟨hSame, hNow, hFailures, hCooldown, hDone⟩ :=
        finish_frame platform g attempt.request password credential userOk
      have hHere : clientOf attempt.request = client →
          (g.finish platform attempt.request password credential userOk).2 = .refused 401 := by
        refine fun hClient => hFails { attempt with phase := _ } ?_ hClient
        dsimp only
        rw [hSame, List.getElem?_set_self hBound]
      exact hCounted.set hAttempt hHashing hDone (by rw [← hSame]) ⟨hFailures, hCooldown⟩ hNow
        (tallies_finish hCounted.counted hLasts hRoom hCounted.since hHere)
    · cases hStep
  · cases hStep

/-- A step of the flood keeps the count. -/
theorem Counted.step (hCounted : Counted client k start g old attempts) (move : Move)
    (hCalm : calm platform client k start.now g move = true)
    (hStep : AuthGate.step platform g move = some g') :
    ∃ old' attempts', old'.length = old.length ∧ Counted client k start g' old' attempts' := by
  rw [calm, hStep] at hCalm
  simp only [Bool.and_eq_true, decide_eq_true_eq] at hCalm
  obtain ⟨⟨⟨hLasts, hRoom⟩, hRuns⟩, hFails⟩ := hCalm
  cases move with
  | request request =>
      obtain ⟨attempts', hAfter⟩ := counted_request hCounted hLasts hRoom hStep hRuns
      exact ⟨old, attempts', rfl, hAfter⟩
  | hashed index =>
      refine counted_hashed hCounted hLasts hRoom hStep fun attempt hAttempt hClient => ?_
      dsimp only at hFails
      rw [hAttempt] at hFails
      simpa [hClient] using hFails
  | tick seconds =>
      obtain rfl := Option.some.inj hStep
      refine ⟨old, attempts, rfl, hCounted.split, hCounted.hashed, hCounted.limits, ?_,
        hCounted.counted, hCounted.bound⟩
      have hSince := hCounted.since
      change start.now ≤ g.now + seconds
      omega

/-- A request with a wrong password, from nobody's address. -/
def wrongRequest : Request :=
  { sampleRequest with headers := [("authorization".toList, "Basic eDp5".toList)] }

def wrongSample : Platform :=
  { sample with
    decodeText := fun t => if t = "eDp5".toList then some "x:y".toList else none
    pbkdf2 := fun password salt iterations =>
      if password = "y".toList ∧ salt = [115] ∧ iterations = 1 then
        some [112, 172, 169, 78, 146, 83, 107, 84, 154, 238, 21, 155, 86, 162, 69, 120,
          41, 181, 169, 91, 32, 219, 50, 46, 21, 25, 132, 112, 67, 115, 138, 30]
      else none }

/-- A limit of two failures, and two hashes at once: three hashes and no more. -/
def flood : List Move :=
  [.request wrongRequest, .request wrongRequest, .hashed 0, .tick 1, .request wrongRequest,
    .hashed 1, .request wrongRequest, .hashed 2, .request wrongRequest]

end AuthGate
end Auth
end OctoForge
