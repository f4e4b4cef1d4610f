import OctoForge.Llm.EmbeddingCache
import OctoForge.Sequence.Places
import Mathlib.Algebra.GroupWithZero.Nat

/-!
# Who settles the futures of the embedding cache

The entries of `_in_flight` belong to the calls that compute: each of them pops what it has
entered, and settles the futures, whether the backend answers or raises.  Only an answer with too
few vectors breaks this: `zip(strict=True)` raises behind the handler, and the entries of the
other texts stay for good.
-/

namespace OctoForge
namespace Llm

variable {V ε : Type}

/-- The entries of `_in_flight` that the call will pop. -/
def EmbedPhase.owned : EmbedPhase V ε → List (Text × Nat)
  | .computing futures => futures
  | _ => []

def EmbedPhase.ended : EmbedPhase V ε → Bool
  | .returned _ => true
  | .raised _ => true
  | _ => false

def Settled.isPending : Settled V ε → Bool
  | .pending => true
  | _ => false

theorem Settled.isPending_iff {settled : Settled V ε} :
    settled.isPending = true ↔ settled = .pending := by
  cases settled <;> simp [isPending]

theorem Settled.set_ne_pending {settled old : Settled V ε} (hDone : settled ≠ .pending) :
    settled.set old ≠ .pending := by
  cases old with
  | pending => exact hDone
  | result vector => simp [Settled.set]
  | exception fault => simp [Settled.set]

namespace CachingEmbeddingClient

variable {c c' c'' : CachingEmbeddingClient V ε} {future index : Nat} {text : Text}
  {texts : List Text} {vector : V} {got vectors : List V} {call : EmbedCall V ε}
  {fault : EmbedFault ε} {futures gone more : List (Text × Nat)} {entry : Text × Nat}
  {phase : EmbedPhase V ε}

/-- The entries of `_in_flight` that some call will pop. -/
def owned (c : CachingEmbeddingClient V ε) : List (Text × Nat) :=
  c.calls.flatMap fun call => call.phase.owned

/-- The text that a future was created for. -/
def textOf (c : CachingEmbeddingClient V ε) (future : Nat) : Option Text :=
  (c.futures[future]?).map (·.text)

theorem textOf_settle (settled : Settled V ε) (other : Nat) :
    (c.settle future settled).textOf other = c.textOf other := by
  rw [textOf, textOf, settle, List.getElem?_modify]
  cases c.futures[other]? with
  | none => rfl
  | some f =>
      by_cases hSame : future = other
      · simp [hSame]
      · simp [hSame]

theorem settledOf_settle (settled : Settled V ε) (other : Nat) :
    (c.settle future settled).settledOf other =
      if future = other ∧ c.textOf other ≠ none then settled.set (c.settledOf other)
      else c.settledOf other := by
  rw [settledOf, settledOf, settle, textOf, List.getElem?_modify]
  cases c.futures[other]? with
  | none => simp
  | some f =>
      by_cases hSame : future = other
      · simp [hSame]
      · simp [hSame]

/-! ## What a step can do to the futures -/

/-- Between the two states the entries that are gone were popped and their futures settled; no
other entry and no call has changed. -/
structure Drops (gone : List (Text × Nat)) (c c' : CachingEmbeddingClient V ε) : Prop where
  maxEntries : c'.maxEntries = c.maxEntries
  calls : c'.calls = c.calls
  sublist : c'.inFlight.Sublist c.inFlight
  inFlight : ∀ entry, entry ∈ c'.inFlight ↔ entry ∈ c.inFlight ∧ entry.1 ∉ gone.map (·.1)
  text : ∀ future, c'.textOf future = c.textOf future
  settled : ∀ future, c'.settledOf future = .pending →
    c.settledOf future = .pending ∧ (c.textOf future = none ∨ future ∉ gone.map (·.2))

theorem Drops.none (hMaxEntries : c'.maxEntries = c.maxEntries) (hCalls : c'.calls = c.calls)
    (hInFlight : c'.inFlight = c.inFlight) (hFutures : c'.futures = c.futures) :
    Drops [] c c' where
  maxEntries := hMaxEntries
  calls := hCalls
  sublist := by rw [hInFlight]
  inFlight entry := by simp [hInFlight]
  text future := by rw [textOf, textOf, hFutures]
  settled future hPending := by
    rw [settledOf, hFutures] at hPending
    exact ⟨hPending, .inr (by simp)⟩

theorem Drops.trans (hFirst : Drops gone c c') (hSecond : Drops more c' c'') :
    Drops (gone ++ more) c c'' where
  maxEntries := hSecond.maxEntries.trans hFirst.maxEntries
  calls := hSecond.calls.trans hFirst.calls
  sublist := hSecond.sublist.trans hFirst.sublist
  inFlight entry := by
    rw [hSecond.inFlight, hFirst.inFlight, List.map_append, List.mem_append, not_or, and_assoc]
  text future := (hSecond.text future).trans (hFirst.text future)
  settled future hPending := by
    obtain ⟨hMiddle, hMore⟩ := hSecond.settled future hPending
    obtain ⟨hBefore, hGone⟩ := hFirst.settled future hMiddle
    refine ⟨hBefore, ?_⟩
    rw [hFirst.text] at hMore
    rcases hGone with hNew | hGone
    · exact .inl hNew
    · rcases hMore with hNew | hMore
      · exact .inl hNew
      · exact .inr (by simpa using ⟨by simpa using hGone, by simpa using hMore⟩)

/-- One entry is popped and its future settled. -/
theorem drops_settle {settled : Settled V ε} (hDone : settled ≠ .pending) :
    Drops [entry] c ((c.popInFlight entry.1).settle entry.2 settled) where
  maxEntries := rfl
  calls := rfl
  sublist := List.filter_sublist
  inFlight other := by
    change other ∈ Dict.del entry.1 c.inFlight ↔ _
    rw [Dict.mem_del, List.map_singleton, List.mem_singleton]
  text future := textOf_settle settled future
  settled future hPending := by
    rw [settledOf_settle] at hPending
    change (if entry.2 = future ∧ c.textOf future ≠ .none then settled.set (c.settledOf future)
      else c.settledOf future) = .pending at hPending
    by_cases hHere : entry.2 = future ∧ c.textOf future ≠ .none
    · rw [if_pos hHere] at hPending
      exact absurd hPending (Settled.set_ne_pending hDone)
    · rw [if_neg hHere] at hPending
      refine ⟨hPending, ?_⟩
      rw [List.map_singleton, List.mem_singleton]
      by_cases hNew : c.textOf future = .none
      · exact .inl hNew
      · exact .inr fun hSame => hHere ⟨hSame.symm, hNew⟩

theorem drops_reject (futures : List (Text × Nat)) (fault : EmbedFault ε)
    (c : CachingEmbeddingClient V ε) : Drops futures c (reject futures fault c) := by
  induction futures generalizing c with
  | nil => exact .none rfl rfl rfl rfl
  | cons entry rest ih =>
      have hFirst : Drops [entry] c ((c.popInFlight entry.1).settle entry.2 (.exception fault)) :=
        drops_settle (by simp)
      exact hFirst.trans (ih _)

/-- The entries that got a vector are popped, and the loop ends well if there is one for each. -/
theorem drops_publish (futures : List (Text × Nat)) (vectors : List V)
    (c : CachingEmbeddingClient V ε) :
    Drops (futures.take vectors.length) c (publish futures vectors c).1 ∧
      ((publish futures vectors c).2 = true ↔ futures.length = vectors.length) := by
  induction futures generalizing vectors c with
  | nil =>
      cases vectors with
      | nil => exact ⟨.none rfl rfl rfl rfl, by simp [publish]⟩
      | cons vector vectors => exact ⟨.none rfl rfl rfl rfl, by simp [publish]⟩
  | cons entry rest ih =>
      cases vectors with
      | nil => exact ⟨.none rfl rfl rfl rfl, by simp [publish]⟩
      | cons vector vectors =>
          have hRemember : Drops [] c (c.remember entry.1 vector) := .none rfl rfl rfl rfl
          have hFirst : Drops ([] ++ [entry]) c (((c.remember entry.1 vector).popInFlight
              entry.1).settle entry.2 (.result vector)) :=
            hRemember.trans (drops_settle (by simp))
          obtain ⟨hRest, hWell⟩ := ih vectors (((c.remember entry.1 vector).popInFlight
            entry.1).settle entry.2 (.result vector))
          refine ⟨hFirst.trans hRest, ?_⟩
          rw [publish, hWell, List.length_cons, List.length_cons, Nat.add_right_cancel_iff]

/-! ## The texts that are resolved at once -/

/-- How the cache and its uses change while texts are read. -/
theorem drops_resolve (got : List V) (texts : List Text) (c : CachingEmbeddingClient V ε) :
    Drops [] c (resolve got texts c).1 := by
  fun_induction resolve got texts c with
  | case1 got c => exact .none rfl rfl rfl rfl
  | case2 got text rest c vector hCached ih =>
      have hRead : Drops [] c { c with
          cache := Dict.moveToEnd text c.cache, uses := c.uses ++ [text] } := .none rfl rfl rfl rfl
      exact hRead.trans ih
  | case3 got text rest c hCached hFlight => exact .none rfl rfl rfl rfl
  | case4 got text rest c hCached future hFlight vector hSettled ih => exact ih
  | case5 got text rest c hCached future hFlight fault hSettled => exact .none rfl rfl rfl rfl
  | case6 got text rest c hCached future hFlight hSettled => exact .none rfl rfl rfl rfl

/-- Where the loop stops: it owns nothing, and a future it waits for is in flight and pending. -/
theorem resolve_stops (got : List V) (texts : List Text) (c : CachingEmbeddingClient V ε) :
    (resolve got texts c).2.owned = [] ∧
      ∀ got' future rest, (resolve got texts c).2 = .waiting got' future rest →
        ∃ text, (text, future) ∈ c.inFlight := by
  fun_induction resolve got texts c with
  | case1 got c => exact ⟨rfl, by simp⟩
  | case2 got text rest c vector hCached ih => exact ih
  | case3 got text rest c hCached hFlight => exact ⟨rfl, by simp⟩
  | case4 got text rest c hCached future hFlight vector hSettled ih => exact ih
  | case5 got text rest c hCached future hFlight fault hSettled => exact ⟨rfl, by simp⟩
  | case6 got text rest c hCached future hFlight hSettled =>
      refine ⟨rfl, fun got' other rest' hWaiting => ?_⟩
      cases hWaiting
      exact ⟨text, Dict.mem_of_get hFlight⟩

/-! ## The invariant -/

/-- What holds in every state: the texts in flight are told apart, the calls that compute own
disjoint parts of them, and each future is that of its text. -/
structure Sound (c : CachingEmbeddingClient V ε) : Prop where
  nodup : (c.inFlight.map (·.1)).Nodup
  apart : (c.owned.map (·.1)).Nodup
  inFlight : ∀ entry ∈ c.owned, entry ∈ c.inFlight
  text : ∀ entry ∈ c.inFlight, c.textOf entry.2 = some entry.1

/-- When a call goes on, the others own what they owned. -/
theorem owned_put (texts : List Text) (hCalls : c'.calls = c.calls)
    (hCall : c.calls[index]? = some call)
    (hPhase : phase.owned = []) :
    ∃ before after, c.owned = before ++ call.phase.owned ++ after ∧
      (put index texts (c', phase)).owned = before ++ after := by
  obtain ⟨before, after, hSplit, -, hSet⟩ := Sequence.exists_around hCall
  refine ⟨before.flatMap fun call => call.phase.owned, after.flatMap fun call => call.phase.owned,
    ?_, ?_⟩
  · rw [owned, hSplit, List.flatMap_append, List.flatMap_cons, List.append_assoc]
  · rw [owned, put]
    dsimp only
    rw [hCalls, hSet, List.flatMap_append, List.flatMap_cons, hPhase, List.nil_append]

theorem Sound.put (hSound : Sound c) (hCall : c.calls[index]? = some call)
    (hDrops : Drops gone c c') (hGone : gone <+: call.phase.owned) (hPhase : phase.owned = []) :
    Sound (put index texts (c', phase)) := by
  obtain ⟨before, after, hOwned, hOwned'⟩ := owned_put texts hDrops.calls hCall hPhase
  have hApart := hSound.apart
  rw [hOwned, List.append_assoc] at hApart
  simp only [List.map_append] at hApart
  have hRest : ∀ entry ∈ before ++ after, entry ∈ c.owned ∧ entry.1 ∉ gone.map (·.1) := by
    intro entry hEntry
    have hNotOwn : entry.1 ∉ call.phase.owned.map (·.1) := by
      have hKey := List.mem_map_of_mem (f := (·.1)) hEntry
      grind [List.nodup_append]
    refine ⟨?_, fun hMem => hNotOwn ((hGone.map _).subset hMem)⟩
    rw [hOwned]
    rcases List.mem_append.mp hEntry with hBefore | hAfter
    · exact List.mem_append_left _ (List.mem_append_left _ hBefore)
    · exact List.mem_append_right _ hAfter
  refine ⟨hSound.nodup.sublist (hDrops.sublist.map _), ?_, fun entry hEntry => ?_,
    fun entry hEntry => ?_⟩
  · rw [hOwned', List.map_append]
    exact hApart.sublist ((List.Sublist.refl _).append (List.sublist_append_right _ _))
  · rw [hOwned'] at hEntry
    obtain ⟨hMem, hKept⟩ := hRest entry hEntry
    exact (hDrops.inFlight entry).mpr ⟨hSound.inFlight entry hMem, hKept⟩
  · exact (hDrops.text entry.2).trans (hSound.text entry ((hDrops.inFlight entry).mp hEntry).1)

/-! ## The texts that a call registers -/

/-- What a call computes is told apart and is not in flight yet. -/
theorem missing_new (c : CachingEmbeddingClient V ε) (texts : List Text) :
    (c.missing texts).Nodup ∧ ∀ text ∈ c.missing texts, text ∉ c.inFlight.map (·.1) := by
  refine ⟨(Dict.nodup_ofPairs _).filter _, fun text hText hFlight => ?_⟩
  have hNone := (List.mem_filter.mp hText).2
  rw [Bool.and_eq_true, Option.isNone_iff_eq_none, Option.isNone_iff_eq_none] at hNone
  obtain ⟨entry, hEntry, rfl⟩ := List.mem_map.mp hFlight
  have hMissing := hNone.2
  rw [Dict.get, Option.map_eq_none_iff, List.find?_eq_none] at hMissing
  exact hMissing entry hEntry (decide_eq_true rfl)

theorem keys_createFutures (c : CachingEmbeddingClient V ε) (texts : List Text) :
    (c.createFutures texts).map (·.1) = texts := by
  rw [createFutures, List.zipIdx_map_fst]

/-- The created futures go behind the others. -/
theorem futures_register (c : CachingEmbeddingClient V ε) (texts : List Text) :
    (∀ entry ∈ c.createFutures texts, (c.register texts).textOf entry.2 = some entry.1) ∧
      ∀ future < c.futures.length, (c.register texts).textOf future = c.textOf future ∧
        (c.register texts).settledOf future = c.settledOf future := by
  refine ⟨fun entry hEntry => ?_, fun future hOld => ?_⟩
  · obtain ⟨hFrom, hText⟩ := List.mem_zipIdx_iff_le_and_getElem?_sub.mp hEntry
    rw [textOf, register]
    dsimp only
    rw [List.getElem?_append_right hFrom, List.getElem?_map, hText]
    rfl
  · rw [textOf, textOf, settledOf, settledOf, register]
    dsimp only
    rw [List.getElem?_append_left hOld]
    exact ⟨rfl, rfl⟩

theorem lt_of_textOf (hText : c.textOf future = some text) : future < c.futures.length := by
  rw [textOf, Option.map_eq_some_iff] at hText
  obtain ⟨f, hFuture, -⟩ := hText
  exact (List.getElem?_eq_some_iff.mp hFuture).1

theorem mem_register (hNodup : (c.inFlight.map (·.1)).Nodup) (hTexts : texts.Nodup)
    (hNew : ∀ text ∈ texts, text ∉ c.inFlight.map (·.1)) :
    entry ∈ (c.register texts).inFlight ↔ entry ∈ c.createFutures texts ∨ entry ∈ c.inFlight := by
  have hKeys : ((c.createFutures texts).map (·.1)).Nodup := by rwa [keys_createFutures]
  change entry ∈ Dict.update c.inFlight (c.createFutures texts) ↔ _
  rw [Dict.mem_update hNodup hKeys]
  refine or_congr_right (and_iff_left_of_imp fun hEntry pair hPair hSame => ?_)
  refine hNew pair.1 ?_ (hSame ▸ List.mem_map_of_mem hEntry)
  rw [← keys_createFutures c texts]
  exact List.mem_map_of_mem hPair

/-! ## What is left to do -/

/-- How many moves a call can still take part in. -/
def weigh (c : CachingEmbeddingClient V ε) (call : EmbedCall V ε) : Nat :=
  match call.phase with
  | .computing _ => 2 * call.texts.length + 2
  | .fetching _ _ rest => 2 * rest.length + 2
  | .waiting _ future rest =>
      2 * rest.length + if (c.settledOf future).isPending then 3 else 2
  | _ => 0

/-- How many moves the calls can still take part in. -/
def weight (c : CachingEmbeddingClient V ε) : Nat := (c.calls.map c.weigh).sum

/-- A future that is done stays done. -/
theorem weigh_le (hSettled : ∀ future, c'.settledOf future = .pending →
    c.settledOf future = .pending) (call : EmbedCall V ε) : c'.weigh call ≤ c.weigh call := by
  rw [weigh, weigh]
  split
  · exact Nat.le_refl _
  · exact Nat.le_refl _
  · rename_i future rest hPhase
    by_cases hPending : (c'.settledOf future).isPending = true
    · have hBefore := hSettled future (Settled.isPending_iff.mp hPending)
      rw [if_pos hPending, if_pos (Settled.isPending_iff.mpr hBefore)]
    · rw [if_neg hPending]
      split <;> omega
  · exact Nat.le_refl _

theorem sum_weigh_le (hSettled : ∀ future, c'.settledOf future = .pending →
    c.settledOf future = .pending) (calls : List (EmbedCall V ε)) :
    (calls.map c'.weigh).sum ≤ (calls.map c.weigh).sum := by
  induction calls with
  | nil => exact Nat.le_refl _
  | cons call rest ih =>
      rw [List.map_cons, List.map_cons, List.sum_cons, List.sum_cons]
      exact Nat.add_le_add (weigh_le hSettled call) ih

theorem weigh_resolve (got : List V) (texts asked : List Text) (c : CachingEmbeddingClient V ε) :
    (resolve got texts c).1.weigh ⟨asked, (resolve got texts c).2⟩ ≤ 2 * texts.length + 1 := by
  fun_induction resolve got texts c with
  | case1 got c => exact Nat.zero_le _
  | case2 got text rest c vector hCached ih =>
      rw [List.length_cons]
      omega
  | case3 got text rest c hCached hFlight =>
      rw [weigh, List.length_cons]
      dsimp only
      omega
  | case4 got text rest c hCached future hFlight vector hSettled ih =>
      rw [List.length_cons]
      omega
  | case5 got text rest c hCached future hFlight fault hSettled => exact Nat.zero_le _
  | case6 got text rest c hCached future hFlight hSettled =>
      rw [weigh, List.length_cons]
      dsimp only
      split <;> omega

/-- A call that has not ended can still raise. -/
theorem weigh_raised (hEnded : call.phase.ended = false) (texts : List Text)
    (fault : EmbedFault ε) : c'.weigh ⟨texts, .raised fault⟩ < c.weigh call := by
  have hNone : c'.weigh ⟨texts, .raised fault⟩ = 0 := rfl
  rw [hNone, weigh]
  cases hPhase : call.phase with
  | computing futures => exact Nat.succ_pos _
  | fetching got text rest => exact Nat.succ_pos _
  | waiting got future rest =>
      dsimp only
      split <;> omega
  | returned vectors => simp [hPhase, EmbedPhase.ended] at hEnded
  | raised fault => simp [hPhase, EmbedPhase.ended] at hEnded

/-! ## What a move can do -/

/-- The call works on its own; the futures it waits for are in flight. -/
def Suspended (c : CachingEmbeddingClient V ε) (phase : EmbedPhase V ε) : Prop :=
  phase.owned = [] ∧ ∀ got future rest, phase = .waiting got future rest →
    ∃ text, (text, future) ∈ c.inFlight

/-- The answer has a vector for each text that the call computes. -/
def full (c : CachingEmbeddingClient V ε) : Move V ε → Bool
  | .reply index vectors =>
      match c.calls[index]? with
      | some call => call.phase.owned.length ≤ vectors.length
      | none => true
  | _ => true

/-- The move starts a call. -/
def Move.starts : Move V ε → Bool
  | .embed _ => true
  | _ => false

/-- The cases of a move: a call that starts, a call that goes on, a future that is cancelled. -/
inductive Change (c : CachingEmbeddingClient V ε) (full starts : Bool) :
    CachingEmbeddingClient V ε → Prop
  | begins (texts : List Text) (phase : EmbedPhase V ε) (c' : CachingEmbeddingClient V ε)
      (hFull : full = true) (hStarts : starts = true) (hDrops : Drops [] c c')
      (hPhase : c'.Suspended phase) :
      Change c full starts { c' with calls := c'.calls ++ [⟨texts, phase⟩] }
  | computes (texts missing : List Text) (hFull : full = true) (hStarts : starts = true)
      (hTexts : missing.Nodup)
      (hNew : ∀ text ∈ missing, text ∉ c.inFlight.map (·.1)) :
      Change c full starts { c.register missing with
        calls := c.calls ++ [⟨texts, .computing (c.createFutures missing)⟩] }
  | goesOn (index : Nat) (call : EmbedCall V ε) (gone : List (Text × Nat))
      (phase : EmbedPhase V ε) (c' : CachingEmbeddingClient V ε)
      (hStarts : starts = false) (hCall : c.calls[index]? = some call) (hDrops : Drops gone c c')
      (hGone : gone <+: call.phase.owned)
      (hFull : full = true ↔ gone = call.phase.owned) (hPhase : c'.Suspended phase)
      (hLess : c'.weigh ⟨call.texts, phase⟩ < c.weigh call) :
      Change c full starts (put index call.texts (c', phase))
  | cancels (future : Nat) (hFull : full = true) (hStarts : starts = false)
      (hPending : c.settledOf future = .pending)
      (hFuture : ∃ call ∈ c.calls, ∃ got rest, call.phase = .waiting got future rest) :
      Change c full starts (c.settle future (.exception .cancelled))

theorem suspended_resolve (got : List V) (texts : List Text) (c : CachingEmbeddingClient V ε) :
    (resolve got texts c).1.Suspended (resolve got texts c).2 := by
  obtain ⟨hOwned, hWaits⟩ := resolve_stops got texts c
  refine ⟨hOwned, fun got' future rest hWaiting => ?_⟩
  obtain ⟨text, hFlight⟩ := hWaits got' future rest hWaiting
  exact ⟨text, ((drops_resolve got texts c).inFlight _).mpr ⟨hFlight, by simp⟩⟩

theorem suspended_raised (c : CachingEmbeddingClient V ε) (fault : EmbedFault ε) :
    c.Suspended (.raised fault) :=
  ⟨rfl, by simp⟩

/-- A call that owns nothing goes on. -/
theorem change_goesOn {complete : Bool} (hComplete : complete = true)
    (hCall : c.calls[index]? = some call) (hOwned : call.phase.owned = [])
    (hDrops : Drops [] c c') (hPhase : c'.Suspended phase)
    (hLess : c'.weigh ⟨call.texts, phase⟩ < c.weigh call) :
    Change c complete false (put index call.texts (c', phase)) :=
  .goesOn index call [] phase c' rfl hCall hDrops List.nil_prefix (by simp [hComplete, hOwned])
    hPhase
    hLess

theorem change_begin (texts : List Text) :
    Change c true true { (begin texts c).1 with
      calls := (begin texts c).1.calls ++ [⟨texts, (begin texts c).2⟩] } := by
  rw [begin]
  split
  · exact .begins texts _ c rfl rfl (.none rfl rfl rfl rfl) ⟨rfl, by simp⟩
  · split
    · exact .begins texts _ _ rfl rfl (drops_resolve [] texts c) (suspended_resolve [] texts c)
    · obtain ⟨hNodup, hNew⟩ := missing_new c texts
      exact .computes texts _ rfl rfl hNodup hNew

theorem change_reply (hCall : c.calls[index]? = some call)
    (hStep : c.onReply index call vectors = some c') :
    Change c (c.full (.reply index vectors)) false c' := by
  have hFull : c.full (.reply index vectors) =
      decide (call.phase.owned.length ≤ vectors.length) := by
    rw [full, hCall]
  rw [hFull]
  cases hPhase : call.phase with
  | computing futures =>
      simp only [onReply, hPhase, Option.some.injEq] at hStep
      rw [← hStep]
      obtain ⟨hDrops, -⟩ := drops_publish futures vectors c
      have hOwned : call.phase.owned = futures := by rw [hPhase, EmbedPhase.owned]
      have hGone : decide (futures.length ≤ vectors.length) = true ↔
          futures.take vectors.length = call.phase.owned := by
        rw [hOwned, decide_eq_true_iff, List.take_eq_self_iff]
      have hPrefix : futures.take vectors.length <+: call.phase.owned := by
        rw [hOwned]
        exact List.take_prefix _ _
      have hWeigh : c.weigh call = 2 * call.texts.length + 2 := by rw [weigh, hPhase]
      by_cases hWell : (publish futures vectors c).2 = true
      · rw [if_pos hWell]
        have hResolved := hDrops.trans (drops_resolve [] call.texts (publish futures vectors c).1)
        rw [List.append_nil] at hResolved
        have hLeft := weigh_resolve [] call.texts call.texts (publish futures vectors c).1
        exact .goesOn index call _ _ _ rfl hCall hResolved hPrefix hGone (suspended_resolve _ _ _)
          (by rw [hWeigh]; omega)
      · rw [if_neg hWell]
        exact .goesOn index call _ _ _ rfl hCall hDrops hPrefix hGone (suspended_raised _ _)
          (weigh_raised (by rw [hPhase]; rfl) _ _)
  | fetching got text rest =>
      have hOwned : call.phase.owned = [] := by rw [hPhase]; rfl
      have hWeigh : c.weigh call = 2 * rest.length + 2 := by rw [weigh, hPhase]
      have hComplete : decide ((EmbedPhase.fetching got text rest :
          EmbedPhase V ε).owned.length ≤ vectors.length) = true := by simp [EmbedPhase.owned]
      simp only [onReply, hPhase] at hStep
      split at hStep
      · rename_i vector
        rw [Option.some.injEq] at hStep
        rw [← hStep]
        have hRemember : Drops [] c (c.remember text vector) := .none rfl rfl rfl rfl
        have hLeft := weigh_resolve (got ++ [vector]) rest call.texts (c.remember text vector)
        exact change_goesOn hComplete hCall hOwned
          (hRemember.trans (drops_resolve (got ++ [vector]) rest _)) (suspended_resolve _ _ _)
          (by rw [hWeigh]; omega)
      · rw [Option.some.injEq] at hStep
        rw [← hStep]
        exact change_goesOn hComplete hCall hOwned (.none rfl rfl rfl rfl) (suspended_raised _ _)
          (weigh_raised (by rw [hPhase]; rfl) _ _)
  | waiting got future rest => simp [onReply, hPhase] at hStep
  | returned result => simp [onReply, hPhase] at hStep
  | raised fault => simp [onReply, hPhase] at hStep

theorem change_fail (hCall : c.calls[index]? = some call)
    (hStep : c.onFail index call fault = some c') : Change c true false c' := by
  cases hPhase : call.phase with
  | computing futures =>
      simp only [onFail, hPhase, Option.some.injEq] at hStep
      rw [← hStep]
      have hOwned : call.phase.owned = futures := by rw [hPhase, EmbedPhase.owned]
      exact .goesOn index call futures _ _ rfl hCall (drops_reject futures fault c)
        (by rw [hOwned]) (by simp [hOwned]) (suspended_raised _ _)
        (weigh_raised (by rw [hPhase]; rfl) _ _)
  | fetching got text rest =>
      simp only [onFail, hPhase, Option.some.injEq] at hStep
      rw [← hStep]
      exact change_goesOn rfl hCall (by rw [hPhase]; rfl) (.none rfl rfl rfl rfl)
        (suspended_raised _ _) (weigh_raised (by rw [hPhase]; rfl) _ _)
  | waiting got future rest => simp [onFail, hPhase] at hStep
  | returned result => simp [onFail, hPhase] at hStep
  | raised fault => simp [onFail, hPhase] at hStep

theorem change_wake (hCall : c.calls[index]? = some call)
    (hStep : c.onWake index call = some c') : Change c true false c' := by
  cases hPhase : call.phase with
  | waiting got future rest =>
      have hOwned : call.phase.owned = [] := by rw [hPhase]; rfl
      simp only [onWake, hPhase] at hStep
      split at hStep
      · rw [Option.some.injEq] at hStep
        rw [← hStep]
        rename_i vector hResult
        have hWeigh : c.weigh call = 2 * rest.length + 2 := by
          rw [weigh, hPhase]
          simp [hResult, Settled.isPending]
        have hLeft := weigh_resolve (got ++ [vector]) rest call.texts c
        exact change_goesOn rfl hCall hOwned (drops_resolve _ rest c) (suspended_resolve _ _ _)
          (by rw [hWeigh]; omega)
      · rw [Option.some.injEq] at hStep
        rw [← hStep]
        exact change_goesOn rfl hCall hOwned (.none rfl rfl rfl rfl) (suspended_raised _ _)
          (weigh_raised (by rw [hPhase]; rfl) _ _)
      · cases hStep
  | computing futures => simp [onWake, hPhase] at hStep
  | fetching got text rest => simp [onWake, hPhase] at hStep
  | returned result => simp [onWake, hPhase] at hStep
  | raised fault => simp [onWake, hPhase] at hStep

theorem change_cancel (hCall : c.calls[index]? = some call)
    (hStep : c.onCancel index call = some c') : Change c true false c' := by
  cases hPhase : call.phase with
  | waiting got future rest =>
      simp only [onCancel, hPhase] at hStep
      split at hStep
      · rw [Option.some.injEq] at hStep
        rw [← hStep]
        exact .cancels future rfl rfl ‹_› ⟨call, List.mem_of_getElem? hCall, got, rest, hPhase⟩
      · rw [Option.some.injEq] at hStep
        rw [← hStep]
        exact change_goesOn rfl hCall (by rw [hPhase]; rfl) (.none rfl rfl rfl rfl)
          (suspended_raised _ _) (weigh_raised (by rw [hPhase]; rfl) _ _)
  | computing futures => simp [onCancel, hPhase] at hStep
  | fetching got text rest => simp [onCancel, hPhase] at hStep
  | returned result => simp [onCancel, hPhase] at hStep
  | raised fault => simp [onCancel, hPhase] at hStep

/-- A move is one of the cases. -/
theorem step_cases (move : Move V ε) (hStep : step c move = some c') :
    Change c (c.full move) move.starts c' := by
  cases move with
  | embed texts =>
      rw [← Option.some.inj hStep]
      exact change_begin texts
  | reply index vectors =>
      obtain ⟨call, hCall, hReply⟩ := Option.bind_eq_some_iff.mp hStep
      exact change_reply hCall hReply
  | fail index fault =>
      obtain ⟨call, hCall, hFail⟩ := Option.bind_eq_some_iff.mp hStep
      exact change_fail hCall hFail
  | wake index =>
      obtain ⟨call, hCall, hWake⟩ := Option.bind_eq_some_iff.mp hStep
      exact change_wake hCall hWake
  | cancel index =>
      obtain ⟨call, hCall, hCancel⟩ := Option.bind_eq_some_iff.mp hStep
      exact change_cancel hCall hCancel

theorem sound_settle (hSound : Sound c) (settled : Settled V ε) :
    Sound (c.settle future settled) where
  nodup := hSound.nodup
  apart := hSound.apart
  inFlight := hSound.inFlight
  text entry hEntry := (textOf_settle settled entry.2).trans (hSound.text entry hEntry)

theorem owned_concat (call : EmbedCall V ε) (hCalls : c'.calls = c.calls ++ [call]) :
    c'.owned = c.owned ++ call.phase.owned := by
  rw [owned, hCalls, List.flatMap_append, List.flatMap_singleton]
  rfl

/-- A move keeps the invariant. -/
theorem Sound.step {full starts : Bool} (hSound : Sound c) (hChange : Change c full starts c') :
    Sound c' := by
  cases hChange with
  | begins texts phase d hFull hStarts hDrops hPhase =>
      have hOwned : ({ d with calls := d.calls ++ [⟨texts, phase⟩] } :
          CachingEmbeddingClient V ε).owned = c.owned := by
        rw [owned_concat (c := d) ⟨texts, phase⟩ rfl, hPhase.1, List.append_nil, owned,
          hDrops.calls]
        rfl
      refine ⟨hSound.nodup.sublist (hDrops.sublist.map _), ?_, fun entry hEntry => ?_,
        fun entry hEntry => ?_⟩
      · rw [hOwned]
        exact hSound.apart
      · rw [hOwned] at hEntry
        exact (hDrops.inFlight entry).mpr ⟨hSound.inFlight entry hEntry, by simp⟩
      · exact (hDrops.text entry.2).trans (hSound.text entry ((hDrops.inFlight entry).mp hEntry).1)
  | computes texts missing hFull hStarts hTexts hNew =>
      obtain ⟨hCreated, hOld⟩ := futures_register c missing
      have hOwned : ({ c.register missing with
          calls := c.calls ++ [⟨texts, .computing (c.createFutures missing)⟩] } :
          CachingEmbeddingClient V ε).owned = c.owned ++ c.createFutures missing :=
        owned_concat ⟨texts, .computing (c.createFutures missing)⟩ rfl
      have hMem : ∀ entry, entry ∈ (c.register missing).inFlight ↔
          entry ∈ c.createFutures missing ∨ entry ∈ c.inFlight :=
        fun _ => mem_register hSound.nodup hTexts hNew
      refine ⟨Dict.nodup_update hSound.nodup _, ?_, fun entry hEntry => ?_, fun entry hEntry => ?_⟩
      · rw [hOwned, List.map_append, keys_createFutures, List.nodup_append]
        refine ⟨hSound.apart, hTexts, fun text hText other hOther hSame => ?_⟩
        subst hSame
        obtain ⟨entry, hEntry, rfl⟩ := List.mem_map.mp hText
        exact hNew entry.1 hOther (List.mem_map_of_mem (hSound.inFlight entry hEntry))
      · rw [hOwned] at hEntry
        refine (hMem entry).mpr ?_
        rcases List.mem_append.mp hEntry with hBefore | hHere
        · exact .inr (hSound.inFlight entry hBefore)
        · exact .inl hHere
      · rcases (hMem entry).mp hEntry with hHere | hBefore
        · exact hCreated entry hHere
        · have hText := hSound.text entry hBefore
          exact ((hOld entry.2 (lt_of_textOf hText)).1).trans hText
  | goesOn index call gone phase d hStarts hCall hDrops hGone hFull hPhase hLess =>
      exact hSound.put hCall hDrops hGone hPhase.1
  | cancels future hFull hStarts hPending hFuture => exact sound_settle hSound _

theorem Change.maxEntries {full starts : Bool} (hChange : Change c full starts c') :
    c'.maxEntries = c.maxEntries := by
  cases hChange with
  | begins texts phase d hFull hStarts hDrops hPhase => exact hDrops.maxEntries
  | computes texts missing hFull hStarts hTexts hNew => rfl
  | goesOn index call gone phase d hStarts hCall hDrops hGone hFull hPhase hLess =>
      exact hDrops.maxEntries
  | cancels future hFull hStarts hPending hFuture => rfl

theorem sound_new (maxEntries : Nat) : Sound (new maxEntries : CachingEmbeddingClient V ε) where
  nodup := List.nodup_nil
  apart := List.nodup_nil
  inFlight := by simp [owned, new]
  text := by simp [new]

/-! ## The entries that stay behind -/

/-- An entry that nobody will pop. -/
def Stuck (c : CachingEmbeddingClient V ε) (entry : Text × Nat) : Prop :=
  entry ∈ c.inFlight ∧ entry ∉ c.owned

theorem Sound.eq_of_key (hSound : Sound c) {other : Text × Nat} (hEntry : entry ∈ c.inFlight)
    (hOther : other ∈ c.inFlight) (hKey : entry.1 = other.1) : entry = other :=
  List.inj_on_of_nodup_map hSound.nodup hEntry hOther hKey

/-- Once stuck, an entry stays. -/
theorem Stuck.step {full starts : Bool} (hSound : Sound c) (hStuck : c.Stuck entry)
    (hChange : Change c full starts c') : c'.Stuck entry := by
  obtain ⟨hEntry, hNot⟩ := hStuck
  cases hChange with
  | begins texts phase d hFull hStarts hDrops hPhase =>
      refine ⟨(hDrops.inFlight entry).mpr ⟨hEntry, by simp⟩, ?_⟩
      rw [owned_concat (c := d) ⟨texts, phase⟩ rfl, hPhase.1, List.append_nil, owned, hDrops.calls]
      exact hNot
  | computes texts missing hFull hStarts hTexts hNew =>
      refine ⟨(mem_register hSound.nodup hTexts hNew).mpr (.inr hEntry), ?_⟩
      rw [owned_concat (c := c) ⟨texts, .computing (c.createFutures missing)⟩ rfl]
      refine fun hMem => (List.mem_append.mp hMem).elim hNot fun hHere => ?_
      refine hNew entry.1 ?_ (List.mem_map_of_mem hEntry)
      rw [← keys_createFutures c missing]
      exact List.mem_map_of_mem hHere
  | goesOn index call gone phase d hStarts hCall hDrops hGone hFull hPhase hLess =>
      obtain ⟨before, after, hOwned, hOwned'⟩ :=
        owned_put call.texts hDrops.calls hCall hPhase.1
      have hGoneOwned : ∀ other ∈ gone, other ∈ c.owned := by
        intro other hOther
        rw [hOwned]
        exact List.mem_append_left _ (List.mem_append_right _ (hGone.subset hOther))
      refine ⟨(hDrops.inFlight entry).mpr ⟨hEntry, fun hKey => ?_⟩, fun hMem => hNot ?_⟩
      · obtain ⟨other, hOther, hSame⟩ := List.mem_map.mp hKey
        have hOwnedOther := hGoneOwned other hOther
        exact hNot (hSound.eq_of_key (hSound.inFlight other hOwnedOther) hEntry hSame ▸ hOwnedOther)
      · rw [hOwned'] at hMem
        rw [hOwned, List.append_assoc]
        rcases List.mem_append.mp hMem with hBefore | hAfter
        · exact List.mem_append_left _ hBefore
        · exact List.mem_append_right _ (List.mem_append_right _ hAfter)
  | cancels future hFull hStarts hPending hFuture => exact ⟨hEntry, hNot⟩

/-- Nothing is in flight but what some call computes. -/
def Attended (c : CachingEmbeddingClient V ε) : Prop := ∀ entry ∈ c.inFlight, entry ∈ c.owned

/-- As long as the answers are full, every call takes along what it has entered. -/
theorem Attended.step {starts : Bool} (hAttended : Attended c)
    (hChange : Change c true starts c') (hSound : Sound c) :
    Attended c' := by
  intro entry hEntry
  cases hChange with
  | begins texts phase d hFull hStarts hDrops hPhase =>
      rw [owned_concat (c := d) ⟨texts, phase⟩ rfl, hPhase.1, List.append_nil, owned, hDrops.calls]
      exact hAttended entry ((hDrops.inFlight entry).mp hEntry).1
  | computes texts missing hFull hStarts hTexts hNew =>
      rw [owned_concat (c := c) ⟨texts, .computing (c.createFutures missing)⟩ rfl]
      rcases (mem_register hSound.nodup hTexts hNew).mp hEntry with hHere | hBefore
      · exact List.mem_append_right _ hHere
      · exact List.mem_append_left _ (hAttended entry hBefore)
  | goesOn index call gone phase d hStarts hCall hDrops hGone hFull hPhase hLess =>
      obtain ⟨before, after, hOwned, hOwned'⟩ :=
        owned_put call.texts hDrops.calls hCall hPhase.1
      obtain ⟨hBefore, hKept⟩ := (hDrops.inFlight entry).mp hEntry
      have hMem := hAttended entry hBefore
      rw [hOwned] at hMem
      rw [hOwned']
      have hOther : entry ∉ call.phase.owned := by
        intro hHere
        rw [← hFull.mp rfl] at hHere
        exact hKept (List.mem_map_of_mem hHere)
      rcases List.mem_append.mp hMem with hLeft | hAfter
      · exact List.mem_append_left _ ((List.mem_append.mp hLeft).resolve_right hOther)
      · exact List.mem_append_right _ hAfter
  | cancels future hFull hStarts hPending hFuture => exact hAttended entry hEntry

/-- A short answer leaves an entry behind. -/
theorem exists_stuck {starts : Bool} (hSound : Sound c) (hChange : Change c false starts c') :
    ∃ entry, c'.Stuck entry := by
  cases hChange with
  | begins texts phase d hFull hStarts hDrops hPhase => cases hFull
  | computes texts missing hFull hStarts hTexts hNew => cases hFull
  | goesOn index call gone phase d hStarts hCall hDrops hGone hFull hPhase hLess =>
      obtain ⟨before, after, hOwned, hOwned'⟩ :=
        owned_put call.texts hDrops.calls hCall hPhase.1
      obtain ⟨left, hLeft⟩ := hGone
      have hSome : left ≠ [] := by
        rintro rfl
        rw [List.append_nil] at hLeft
        exact absurd (hFull.mpr hLeft) (by simp)
      obtain ⟨entry, rest, rfl⟩ := List.exists_cons_of_ne_nil hSome
      rw [← hLeft] at hOwned
      have hApart := hSound.apart
      rw [hOwned] at hApart
      have hMem : entry ∈ c.owned := by simp [hOwned]
      refine ⟨entry, (hDrops.inFlight entry).mpr ⟨hSound.inFlight entry hMem, ?_⟩, ?_⟩
      · simp only [List.map_append, List.map_cons] at hApart
        grind [List.nodup_append]
      · rw [hOwned']
        intro hOther
        have hKey := List.mem_map_of_mem (f := (·.1)) hOther
        simp only [List.map_append, List.map_cons] at hApart hKey
        grind [List.nodup_append]
  | cancels future hFull hStarts hPending hFuture => cases hFull

/-- The state that a run reaches is sound. -/
theorem sound_run {maxEntries : Nat} {moves : List (Move V ε)}
    (hRun : machine.run moves (new maxEntries) = some c) : Sound c :=
  Coop.Machine.run_keeps (fun _ move _ hSound hStep => hSound.step (step_cases move hStep))
    (sound_new maxEntries) hRun

theorem attended_run {maxEntries : Nat} {moves : List (Move V ε)}
    (hRun : machine.run moves (new maxEntries) = some c)
    (hFull : machine.always full moves (new maxEntries) = true) : Sound c ∧ Attended c := by
  refine Coop.Machine.run_keeps_of_always (I := fun c => Sound c ∧ Attended c)
    (fun d move d' hKept hHere hStep => ?_) ⟨sound_new maxEntries, by simp [Attended, new]⟩ hFull
    hRun
  have hChange := step_cases move hStep
  rw [hHere] at hChange
  exact ⟨hKept.1.step hChange, hKept.2.step hChange hKept.1⟩

theorem weight_put (hCall : c.calls[index]? = some call) (hCalls : c'.calls = c.calls)
    (hSettled : ∀ future, c'.settledOf future = .pending → c.settledOf future = .pending)
    (hLess : c'.weigh ⟨texts, phase⟩ < c.weigh call) :
    (put index texts (c', phase)).weight < c.weight := by
  obtain ⟨before, after, hSplit, -, hSet⟩ := Sequence.exists_around hCall
  have hBefore := sum_weigh_le hSettled before
  have hAfter := sum_weigh_le hSettled after
  rw [weight, weight, hSplit, put]
  dsimp only
  rw [hCalls, hSet]
  simp only [List.map_append, List.map_cons, List.sum_append, List.sum_cons]
  change (before.map c'.weigh).sum + (c'.weigh ⟨texts, phase⟩ + (after.map c'.weigh).sum) < _
  omega

/-- Cancelling a pending future wakes those who wait for it. -/
theorem weight_settle (hCall : call ∈ c.calls) {rest : List Text}
    (hPhase : call.phase = .waiting got future rest) (hPending : c.settledOf future = .pending)
    (hText : c.textOf future ≠ none) :
    (c.settle future (.exception .cancelled)).weight < c.weight := by
  have hDone : (c.settle future (.exception .cancelled)).settledOf future =
      .exception .cancelled := by
    rw [settledOf_settle, if_pos ⟨rfl, hText⟩, hPending]
    rfl
  have hSettled : ∀ other, (c.settle future (.exception .cancelled)).settledOf other = .pending →
      c.settledOf other = .pending := by
    intro other hOther
    by_cases hSame : future = other
    · rw [← hSame]
      exact hPending
    · rwa [settledOf_settle, if_neg fun hBoth => hSame hBoth.1] at hOther
  have hLess : (c.settle future (.exception .cancelled)).weigh call < c.weigh call := by
    rw [weigh, weigh, hPhase]
    dsimp only
    rw [hDone, hPending]
    simp [Settled.isPending]
  obtain ⟨before, after, hSplit⟩ := List.append_of_mem hCall
  have hBefore := sum_weigh_le hSettled before
  have hAfter := sum_weigh_le hSettled after
  rw [weight, weight]
  change (c.calls.map _).sum < _
  rw [hSplit]
  simp only [List.map_append, List.map_cons, List.sum_append, List.sum_cons]
  omega

/-- A future that a call waits for is in flight until it is done. -/
def Awaits (c : CachingEmbeddingClient V ε) (future : Nat) : Prop :=
  ∃ text, c.textOf future = some text ∧
    (c.settledOf future = .pending → (text, future) ∈ c.inFlight)

def Awaited (c : CachingEmbeddingClient V ε) : Prop :=
  ∀ call ∈ c.calls, ∀ got future rest, call.phase = .waiting got future rest → c.Awaits future

theorem Awaits.drops (hAwaits : c.Awaits future) (hDrops : Drops gone c c') (hSound : Sound c)
    (hGone : ∀ entry ∈ gone, entry ∈ c.inFlight) : c'.Awaits future := by
  obtain ⟨text, hText, hFlight⟩ := hAwaits
  refine ⟨text, (hDrops.text future).trans hText, fun hPending => ?_⟩
  obtain ⟨hBefore, hNew | hNotGone⟩ := hDrops.settled future hPending
  · rw [hText] at hNew
    cases hNew
  · have hEntry := hFlight hBefore
    refine (hDrops.inFlight _).mpr ⟨hEntry, fun hKey => hNotGone ?_⟩
    -- The future in flight for the text would be the one that is gone.
    obtain ⟨other, hOther, hSame⟩ := List.mem_map.mp hKey
    obtain rfl := hSound.eq_of_key (hGone other hOther) hEntry hSame
    exact List.mem_map_of_mem hOther

theorem awaits_of_suspended (hSound : Sound c) (hPhase : c.Suspended phase) {rest : List Text}
    (hWaiting : phase = .waiting got future rest) : c.Awaits future := by
  obtain ⟨text, hFlight⟩ := hPhase.2 got future rest hWaiting
  exact ⟨text, hSound.text _ hFlight, fun _ => hFlight⟩

/-- A move keeps what is awaited. -/
theorem Awaited.step {full starts : Bool} (hAwaited : Awaited c) (hSound : Sound c)
    (hChange : Change c full starts c') : Awaited c' := by
  have hSound' := hSound.step hChange
  intro waiter hWaiter got future rest hWaiting
  cases hChange with
  | begins texts phase d hFull hStarts hDrops hPhase =>
      rcases List.mem_append.mp hWaiter with hOld | hNew
      · rw [hDrops.calls] at hOld
        have hStill : d.Awaits future :=
          (hAwaited waiter hOld got future rest hWaiting).drops hDrops hSound (by simp)
        exact hStill
      · rw [List.mem_singleton.mp hNew] at hWaiting
        exact awaits_of_suspended hSound' hPhase hWaiting
  | computes texts missing hFull hStarts hTexts hNew =>
      rcases List.mem_append.mp hWaiter with hOld | hHere
      · obtain ⟨text, hText, hFlight⟩ := hAwaited waiter hOld got future rest hWaiting
        obtain ⟨hText', hSettled⟩ := (futures_register c missing).2 future (lt_of_textOf hText)
        refine ⟨text, hText'.trans hText, fun hPending => ?_⟩
        exact (mem_register hSound.nodup hTexts hNew).mpr (.inr (hFlight (hSettled ▸ hPending)))
      · rw [List.mem_singleton.mp hHere] at hWaiting
        cases hWaiting
  | goesOn index call gone phase d hStarts hCall hDrops hGone hFull hPhase hLess =>
      have hGoneFlight : ∀ entry ∈ gone, entry ∈ c.inFlight := by
        intro entry hEntry
        refine hSound.inFlight entry (List.mem_flatMap.mpr ⟨call, List.mem_of_getElem? hCall, ?_⟩)
        exact hGone.subset hEntry
      rcases List.mem_or_eq_of_mem_set hWaiter with hOld | hHere
      · rw [hDrops.calls] at hOld
        have hStill : d.Awaits future :=
          (hAwaited waiter hOld got future rest hWaiting).drops hDrops hSound hGoneFlight
        exact hStill
      · rw [hHere] at hWaiting
        exact awaits_of_suspended (c := put index call.texts (d, phase)) hSound' hPhase hWaiting
  | cancels cancelled hFull hStarts hPending hFuture =>
      obtain ⟨text, hText, hFlight⟩ := hAwaited waiter hWaiter got future rest hWaiting
      refine ⟨text, (textOf_settle _ _).trans hText, fun hStill => hFlight ?_⟩
      by_cases hSame : cancelled = future
      · rwa [← hSame]
      · rwa [settledOf_settle, if_neg fun hBoth => hSame hBoth.1] at hStill

/-- A move of the calls that are there uses up what is left to do. -/
theorem weight_lt {full : Bool} (hAwaited : Awaited c) (hChange : Change c full false c') :
    c'.weight < c.weight := by
  cases hChange with
  | begins texts phase d hFull hStarts hDrops hPhase => cases hStarts
  | computes texts missing hFull hStarts hTexts hNew => cases hStarts
  | goesOn index call gone phase d hStarts hCall hDrops hGone hFull hPhase hLess =>
      exact weight_put hCall hDrops.calls
        (fun future hPending => (hDrops.settled future hPending).1) hLess
  | cancels future hFull hStarts hPending hFuture =>
      obtain ⟨call, hCall, got, rest, hPhase⟩ := hFuture
      obtain ⟨text, hText, -⟩ := hAwaited call hCall got future rest hPhase
      exact weight_settle hCall hPhase hPending (by rw [hText]; simp)

theorem awaited_run {maxEntries : Nat} {moves : List (Move V ε)}
    (hRun : machine.run moves (new maxEntries) = some c) : Sound c ∧ Awaited c :=
  Coop.Machine.run_keeps (I := fun c => Sound c ∧ Awaited c)
    (fun _ move _ hKept hStep => ⟨hKept.1.step (step_cases move hStep),
      hKept.2.step hKept.1 (step_cases move hStep)⟩)
    ⟨sound_new maxEntries, by simp [Awaited, new]⟩ hRun

/-- Without new calls there are no more moves than are left to do. -/
theorem length_le_weight (moves : List (Move V ε)) (hOld : ∀ move ∈ moves, move.starts = false)
    (hSound : Sound c) (hAwaited : Awaited c) (hRun : machine.run moves c = some c') :
    moves.length ≤ c.weight := by
  induction moves generalizing c with
  | nil => exact Nat.zero_le _
  | cons move rest ih =>
      obtain ⟨d, hStep, hRest⟩ := Coop.Machine.run_cons.mp hRun
      have hChange := step_cases move hStep
      have hLater := ih (fun other hOther => hOld other (List.mem_cons_of_mem move hOther))
        (hSound.step hChange) (hAwaited.step hSound hChange) hRest
      rw [hOld move List.mem_cons_self] at hChange
      have hLess := weight_lt hAwaited hChange
      rw [List.length_cons]
      omega

/-- A call that has not ended waits for the backend, can go on, or waits for a future that a call
at the backend will settle. -/
theorem wakes_or_waits (hAwaited : Awaited c) (hAttended : Attended c)
    (hCall : c.calls[index]? = some call) (hEnded : call.phase.ended = false) :
    (∀ fault, (step c (.fail index fault)).isSome) ∨ (step c (.wake index)).isSome ∨
      ∃ got future rest, call.phase = .waiting got future rest ∧
        ∃ owner ∈ c.calls, ∃ text, (text, future) ∈ owner.phase.owned := by
  cases hPhase : call.phase with
  | computing futures =>
      left
      intro fault
      simp [CachingEmbeddingClient.step, hCall, onFail, hPhase]
  | fetching got text rest =>
      left
      intro fault
      simp [CachingEmbeddingClient.step, hCall, onFail, hPhase]
  | waiting got future rest =>
      right
      obtain ⟨text, hText, hFlight⟩ :=
        hAwaited call (List.mem_of_getElem? hCall) got future rest hPhase
      cases hSettled : c.settledOf future with
      | pending =>
          obtain ⟨owner, hOwner, hOwned⟩ := List.mem_flatMap.mp (hAttended _ (hFlight hSettled))
          exact .inr ⟨got, future, rest, rfl, owner, hOwner, text, hOwned⟩
      | result vector =>
          left
          simp [CachingEmbeddingClient.step, hCall, onWake, hPhase, hSettled]
      | exception fault =>
          left
          simp [CachingEmbeddingClient.step, hCall, onWake, hPhase, hSettled]
  | returned vectors => simp [hPhase, EmbedPhase.ended] at hEnded
  | raised fault => simp [hPhase, EmbedPhase.ended] at hEnded

/-- As long as no answer falls short, no call is stranded: the calls that are there make no more
moves than are left to do, and one that can neither go on nor is at the backend waits for a future
that a call at the backend owns; when no move is left, every call has ended. -/
theorem every_call_ends {maxEntries : Nat} {moves : List (Move V ε)}
    (hRun : machine.run moves (new maxEntries) = some c)
    (hFull : machine.always full moves (new maxEntries) = true) :
    (∀ more c', (∀ move ∈ more, move.starts = false) → machine.run more c = some c' →
      more.length ≤ c.weight) ∧
    (∀ index call, c.calls[index]? = some call → call.phase.ended = false →
      (∀ fault, (step c (.fail index fault)).isSome) ∨ (step c (.wake index)).isSome ∨
      ∃ got future rest, call.phase = .waiting got future rest ∧
        ∃ owner ∈ c.calls, ∃ text, (text, future) ∈ owner.phase.owned) ∧
    ((∀ move : Move V ε, move.starts = false → step c move = none) →
      ∀ call ∈ c.calls, call.phase.ended = true) := by
  obtain ⟨hSound, hAwaited⟩ := awaited_run hRun
  have hAttended := (attended_run hRun hFull).2
  refine ⟨fun more c' hOld hMore => length_le_weight more hOld hSound hAwaited hMore,
    fun index call hCall hEnded => wakes_or_waits hAwaited hAttended hCall hEnded,
    fun hQuiet call hCall => ?_⟩
  -- The owner of a future is at the backend, so it can still fail.
  have hIdle : ∀ owner ∈ c.calls, ∀ fault : EmbedFault ε, owner.phase.owned = [] := by
    intro owner hOwner fault
    obtain ⟨index, hBound, hGet⟩ := List.getElem_of_mem hOwner
    have hOwnerAt : c.calls[index]? = some owner := by rw [List.getElem?_eq_getElem hBound, hGet]
    cases hPhase : owner.phase with
    | computing futures =>
        have hNone := hQuiet (.fail index fault) rfl
        simp [CachingEmbeddingClient.step, hOwnerAt, onFail, hPhase] at hNone
    | fetching got text rest => rfl
    | waiting got future rest => rfl
    | returned vectors => rfl
    | raised fault => rfl
  obtain ⟨index, hBound, hGet⟩ := List.getElem_of_mem hCall
  have hCallAt : c.calls[index]? = some call := by rw [List.getElem?_eq_getElem hBound, hGet]
  by_contra hOpen
  rcases wakes_or_waits hAwaited hAttended hCallAt (by simpa using hOpen) with
    hFail | hWake | ⟨got, future, rest, hWaiting, owner, hOwner, text, hOwned⟩
  · have hSome := hFail .cancelled
    rw [hQuiet (.fail index .cancelled) rfl] at hSome
    cases hSome
  · rw [hQuiet (.wake index) rfl] at hWake
    cases hWake
  · rw [hIdle owner hOwner .cancelled] at hOwned
    cases hOwned

/-- A call at the backend and one that waits for what the first computes. -/
theorem every_call_ends_waiting : ∃ c : CachingEmbeddingClient Nat Unit,
    machine.run [.embed [['a'], ['b']], .embed [['b'], ['a']]] (new 2) = some c ∧
    ∀ more c', (∀ move ∈ more, move.starts = false) → machine.run more c = some c' →
      more.length ≤ c.weight := by
  obtain ⟨c, hRun⟩ := Option.isSome_iff_exists.mp (by decide : (machine.run
    [.embed [['a'], ['b']], .embed [['b'], ['a']]]
    (new 2 : CachingEmbeddingClient Nat Unit)).isSome = true)
  exact ⟨c, hRun, (every_call_ends hRun (by decide)).1⟩

end CachingEmbeddingClient
end Llm
end OctoForge
