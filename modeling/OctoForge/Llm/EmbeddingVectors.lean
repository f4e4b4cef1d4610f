import OctoForge.Llm.EmbeddingFutures

/-!
# The vectors that the embedding cache returns

If the backend gives each text its vector, then so does the cache, whatever the calls do to each
other: a vector is never attached to another text.  The cache holds the texts that were used last.
-/

namespace OctoForge
namespace Llm

variable {V ε : Type}

/-- The texts that the backend was asked for. -/
def EmbedPhase.asked : EmbedPhase V ε → List Text
  | .computing futures => futures.map (·.1)
  | .fetching _ text _ => [text]
  | _ => []

namespace CachingEmbeddingClient

variable {c c' : CachingEmbeddingClient V ε} {future index : Nat} {text : Text}
  {texts : List Text} {vector : V} {got vectors : List V} {call : EmbedCall V ε}
  {fault : EmbedFault ε} {futures : List (Text × Nat)} {phase : EmbedPhase V ε}

section Vectors

variable (vectorOf : Text → V)

/-- The answer is the vector of each text that was asked for. -/
def honest [DecidableEq V] (c : CachingEmbeddingClient V ε) : Move V ε → Bool
  | .reply index vectors =>
      match c.calls[index]? with
      | some call => vectors = call.phase.asked.map vectorOf
      | none => true
  | _ => true

/-- What is remembered is the vector of its text, and it is what was used last. -/
structure Valued (c : CachingEmbeddingClient V ε) : Prop where
  cache : ∀ entry ∈ c.cache, entry.2 = vectorOf entry.1
  futures : ∀ future text vector, c.textOf future = some text →
    c.settledOf future = .result vector → vector = vectorOf text
  recent : c.cache.map (·.1) = Dict.lastDistinct c.maxEntries c.uses

/-- The call has the vectors of the texts it is through with. -/
def Progressed (textOf : Nat → Option Text) (texts : List Text) : EmbedPhase V ε → Prop
  | .computing _ => True
  | .waiting got future rest => ∃ done text,
      texts = done ++ text :: rest ∧ got = done.map vectorOf ∧ textOf future = some text
  | .fetching got text rest => ∃ done, texts = done ++ text :: rest ∧ got = done.map vectorOf
  | .returned vectors => vectors = texts.map vectorOf
  | .raised _ => True

variable {vectorOf}

theorem Valued.remember (hValued : Valued vectorOf c) (text : Text) :
    Valued vectorOf (c.remember text (vectorOf text)) where
  cache entry hEntry := by
    have hPut := Dict.mem_moveToEnd (Dict.mem_of_mem_trim hEntry)
    have hNodup : (c.cache.map (·.1)).Nodup := by
      rw [hValued.recent]
      exact Dict.nodup_lastDistinct c.uses
    rcases (Dict.mem_put hNodup).mp hPut with rfl | ⟨hOld, -⟩
    · rfl
    · exact hValued.cache entry hOld
  futures := hValued.futures
  recent := Dict.keys_trim_moveToEnd_put hValued.recent

theorem Valued.hit (hValued : Valued vectorOf c) (hCached : Dict.get c.cache text = some vector) :
    Valued vectorOf { c with
      cache := Dict.moveToEnd text c.cache, uses := c.uses ++ [text] } where
  cache entry hEntry := hValued.cache entry (Dict.mem_moveToEnd hEntry)
  futures := hValued.futures
  recent := Dict.keys_moveToEnd_use hValued.recent
    (List.mem_map_of_mem (f := (·.1)) (Dict.mem_of_get hCached))

theorem Valued.settle {settled : Settled V ε} (hValued : Valued vectorOf c)
    (hResult : ∀ text vector, c.textOf future = some text → settled = .result vector →
      vector = vectorOf text) : Valued vectorOf (c.settle future settled) where
  cache := hValued.cache
  futures other text vector hText hSettled := by
    rw [textOf_settle] at hText
    rw [settledOf_settle] at hSettled
    by_cases hHere : future = other ∧ c.textOf other ≠ none
    · rw [if_pos hHere] at hSettled
      cases hBefore : c.settledOf other with
      | pending =>
          rw [hBefore] at hSettled
          exact hResult text vector (hHere.1 ▸ hText) hSettled
      | result old =>
          rw [hBefore] at hSettled
          exact hValued.futures other text vector hText (hBefore.trans hSettled)
      | exception fault =>
          rw [hBefore] at hSettled
          cases hSettled
    · rw [if_neg hHere] at hSettled
      exact hValued.futures other text vector hText hSettled
  recent := hValued.recent

theorem Valued.popInFlight (hValued : Valued vectorOf c) (text : Text) :
    Valued vectorOf (c.popInFlight text) :=
  ⟨hValued.cache, hValued.futures, hValued.recent⟩

theorem Valued.reject (hValued : Valued vectorOf c) (futures : List (Text × Nat))
    (fault : EmbedFault ε) : Valued vectorOf (reject futures fault c) := by
  induction futures generalizing c with
  | nil => exact hValued
  | cons entry rest ih =>
      exact ih ((hValued.popInFlight entry.1).settle fun text vector _ hResult => by cases hResult)

theorem Valued.publish (hValued : Valued vectorOf c) (futures : List (Text × Nat))
    (hText : ∀ entry ∈ futures, c.textOf entry.2 = some entry.1) :
    Valued vectorOf (publish futures ((futures.map (·.1)).map vectorOf) c).1 := by
  induction futures generalizing c with
  | nil => exact hValued
  | cons entry rest ih =>
      refine ih (((hValued.remember entry.1).popInFlight entry.1).settle ?_) ?_
      · intro text vector hHere hResult
        have hSame : some entry.1 = some text := (hText entry List.mem_cons_self).symm.trans hHere
        rw [← Option.some.inj hSame]
        exact (Settled.result.inj hResult).symm
      · intro other hOther
        exact (textOf_settle _ _).trans (hText other (List.mem_cons_of_mem entry hOther))

theorem Valued.register (hValued : Valued vectorOf c) (texts : List Text) :
    Valued vectorOf (c.register texts) where
  cache := hValued.cache
  futures future text vector hText hSettled := by
    by_cases hOld : future < c.futures.length
    · obtain ⟨hTextOf, hSettledOf⟩ := (futures_register c texts).2 future hOld
      exact hValued.futures future text vector (hTextOf ▸ hText) (hSettledOf ▸ hSettled)
    · rw [settledOf, CachingEmbeddingClient.register] at hSettled
      dsimp only at hSettled
      rw [List.getElem?_append_right (Nat.le_of_not_lt hOld), List.getElem?_map] at hSettled
      cases hAt : texts[future - c.futures.length]? <;> simp [hAt] at hSettled
  recent := hValued.recent

/-- What is read at once has the vectors of the texts. -/
theorem Valued.resolve (hValued : Valued vectorOf c) (done texts : List Text)
    (hFlight : ∀ entry ∈ c.inFlight, c.textOf entry.2 = some entry.1) :
    Valued vectorOf (resolve (done.map vectorOf) texts c).1 ∧
      Progressed vectorOf c.textOf (done ++ texts) (resolve (done.map vectorOf) texts c).2 := by
  induction texts generalizing c done with
  | nil =>
      refine ⟨hValued, ?_⟩
      rw [List.append_nil]
      rfl
  | cons text rest ih =>
      have hNext : ∀ d : CachingEmbeddingClient V ε, Valued vectorOf d → d.inFlight = c.inFlight →
          d.textOf = c.textOf →
          Valued vectorOf (CachingEmbeddingClient.resolve (done.map vectorOf ++ [vectorOf text])
            rest
            d).1 ∧ Progressed vectorOf c.textOf (done ++ text :: rest)
              (CachingEmbeddingClient.resolve (done.map vectorOf ++ [vectorOf text]) rest d).2 := by
        intro d hThere hInFlight hTextOf
        have hRest := ih hThere (done ++ [text]) (by rwa [hInFlight, hTextOf])
        rwa [List.map_append, List.map_singleton, List.append_assoc, hTextOf] at hRest
      rw [CachingEmbeddingClient.resolve]
      cases hCached : Dict.get c.cache text with
      | some vector =>
          have hVector := hValued.cache _ (Dict.mem_of_get hCached)
          dsimp only at hVector ⊢
          rw [hVector]
          exact hNext _ (hValued.hit hCached) rfl rfl
      | none =>
          dsimp only
          cases hEntry : Dict.get c.inFlight text with
          | none => exact ⟨hValued, done, rfl, rfl⟩
          | some future =>
              have hText := hFlight _ (Dict.mem_of_get hEntry)
              dsimp only at hText ⊢
              cases hSettled : c.settledOf future with
              | pending => exact ⟨hValued, done, text, rfl, rfl, hText⟩
              | result vector =>
                  dsimp only
                  rw [hValued.futures future text vector hText hSettled]
                  exact hNext c hValued rfl rfl
              | exception fault => exact ⟨hValued, trivial⟩

/-! ## Every state -/

/-- Everything that was remembered and got is the vector of its text. -/
structure Right (vectorOf : Text → V) (c : CachingEmbeddingClient V ε) : Prop where
  sound : Sound c
  valued : Valued vectorOf c
  calls : ∀ call ∈ c.calls, Progressed vectorOf c.textOf call.texts call.phase

/-- What a call has got stays right as long as the futures are those of their texts. -/
theorem Progressed.mono {before after : Nat → Option Text}
    (hKept : ∀ future text, before future = some text → after future = some text)
    (hProgressed : Progressed vectorOf before texts phase) :
    Progressed vectorOf after texts phase := by
  cases phase with
  | waiting got future rest =>
      obtain ⟨done, text, hTexts, hGot, hText⟩ := hProgressed
      exact ⟨done, text, hTexts, hGot, hKept future text hText⟩
  | computing futures => exact hProgressed
  | fetching got text rest => exact hProgressed
  | returned vectors => exact hProgressed
  | raised fault => exact hProgressed

/-- A call goes on with what is right. -/
theorem right_put {gone : List (Text × Nat)} (hRight : Right vectorOf c)
    (hSound : Sound (put index texts (c', phase))) (hDrops : Drops gone c c')
    (hValued : Valued vectorOf c') (hPhase : Progressed vectorOf c.textOf texts phase) :
    Right vectorOf (put index texts (c', phase)) := by
  have hTextOf : c'.textOf = c.textOf := funext hDrops.text
  refine ⟨hSound, ⟨hValued.cache, hValued.futures, hValued.recent⟩, fun call hCall => ?_⟩
  change Progressed vectorOf c'.textOf call.texts call.phase
  rw [hTextOf]
  rcases List.mem_or_eq_of_mem_set hCall with hOld | hHere
  · rw [hDrops.calls] at hOld
    exact hRight.calls call hOld
  · rw [hHere]
    exact hPhase

theorem right_begin (hRight : Right vectorOf c) (hSound : Sound { (begin texts c).1 with
      calls := (begin texts c).1.calls ++ [⟨texts, (begin texts c).2⟩] }) :
    Right vectorOf { (begin texts c).1 with
      calls := (begin texts c).1.calls ++ [⟨texts, (begin texts c).2⟩] } := by
  have hBegun : Valued vectorOf (begin texts c).1 ∧ (begin texts c).1.calls = c.calls ∧
      Progressed vectorOf (begin texts c).1.textOf texts (begin texts c).2 ∧
      ∀ future text, c.textOf future = some text → (begin texts c).1.textOf future = some text := by
    rw [begin]
    split
    · rename_i hNone
      rw [hNone]
      exact ⟨hRight.valued, rfl, rfl, fun _ _ hText => hText⟩
    · split
      · obtain ⟨hValued, hProgressed⟩ := hRight.valued.resolve [] texts hRight.sound.text
        have hDrops := drops_resolve [] texts c
        have hTextOf : (resolve [] texts c).1.textOf = c.textOf := funext hDrops.text
        refine ⟨hValued, hDrops.calls, ?_, fun future text hText => ?_⟩
        · rw [hTextOf]
          exact hProgressed
        · rwa [hTextOf]
      · refine ⟨hRight.valued.register _, rfl, trivial, fun future text hText => ?_⟩
        exact ((futures_register c _).2 future (lt_of_textOf hText)).1.trans hText
  obtain ⟨hValued, hCalls, hProgressed, hKept⟩ := hBegun
  refine ⟨hSound, ⟨hValued.cache, hValued.futures, hValued.recent⟩, fun call hCall => ?_⟩
  rcases List.mem_append.mp hCall with hOld | hHere
  · rw [hCalls] at hOld
    exact (hRight.calls call hOld).mono hKept
  · rw [List.mem_singleton.mp hHere]
    exact hProgressed

theorem right_reply (hRight : Right vectorOf c) (hSound : Sound c')
    (hCall : c.calls[index]? = some call) (hHonest : vectors = call.phase.asked.map vectorOf)
    (hStep : c.onReply index call vectors = some c') : Right vectorOf c' := by
  have hProgressed := hRight.calls call (List.mem_of_getElem? hCall)
  cases hPhase : call.phase with
  | computing futures =>
      rw [hPhase] at hHonest
      simp only [onReply, hPhase, Option.some.injEq] at hStep
      rw [← hStep] at hSound ⊢
      have hText : ∀ entry ∈ futures, c.textOf entry.2 = some entry.1 := by
        intro entry hEntry
        refine hRight.sound.text entry (hRight.sound.inFlight entry ?_)
        refine List.mem_flatMap.mpr ⟨call, List.mem_of_getElem? hCall, ?_⟩
        rw [hPhase]
        exact hEntry
      have hValued := hRight.valued.publish futures hText
      change vectors = (futures.map (·.1)).map vectorOf at hHonest
      rw [← hHonest] at hValued
      obtain ⟨hDrops, hWell⟩ := drops_publish futures vectors c
      have hFlight : ∀ entry ∈ (publish futures vectors c).1.inFlight,
          (publish futures vectors c).1.textOf entry.2 = some entry.1 := by
        intro entry hEntry
        exact (hDrops.text entry.2).trans
          (hRight.sound.text entry ((hDrops.inFlight entry).mp hEntry).1)
      have hAll : (publish futures vectors c).2 = true := hWell.mpr (by rw [hHonest]; simp)
      rw [if_pos hAll] at hSound ⊢
      obtain ⟨hResolved, hDone⟩ := hValued.resolve [] call.texts hFlight
      have hTextOf : (publish futures vectors c).1.textOf = c.textOf := funext hDrops.text
      rw [hTextOf] at hDone
      exact right_put hRight hSound (hDrops.trans (drops_resolve _ _ _)) hResolved hDone
  | fetching got text rest =>
      rw [hPhase] at hHonest hProgressed
      obtain ⟨done, hTexts, rfl⟩ := hProgressed
      change vectors = [vectorOf text] at hHonest
      simp only [onReply, hPhase, hHonest, Option.some.injEq] at hStep
      rw [← hStep] at hSound ⊢
      have hRemember : Drops [] c (c.remember text (vectorOf text)) := .none rfl rfl rfl rfl
      have hResolved := (hRight.valued.remember text).resolve (done ++ [text]) rest
        hRight.sound.text
      rw [List.map_append, List.map_singleton, List.append_assoc, List.singleton_append,
        ← hTexts] at hResolved
      exact right_put hRight hSound (hRemember.trans (drops_resolve _ _ _)) hResolved.1 hResolved.2
  | waiting got future rest => simp [onReply, hPhase] at hStep
  | returned result => simp [onReply, hPhase] at hStep
  | raised fault => simp [onReply, hPhase] at hStep

theorem right_fail (hRight : Right vectorOf c) (hSound : Sound c')
    (hStep : c.onFail index call fault = some c') : Right vectorOf c' := by
  cases hPhase : call.phase with
  | computing futures =>
      simp only [onFail, hPhase, Option.some.injEq] at hStep
      rw [← hStep] at hSound ⊢
      exact right_put hRight hSound (drops_reject futures fault c)
        (hRight.valued.reject futures fault) trivial
  | fetching got text rest =>
      simp only [onFail, hPhase, Option.some.injEq] at hStep
      rw [← hStep] at hSound ⊢
      exact right_put hRight hSound (.none rfl rfl rfl rfl) hRight.valued trivial
  | waiting got future rest => simp [onFail, hPhase] at hStep
  | returned result => simp [onFail, hPhase] at hStep
  | raised fault => simp [onFail, hPhase] at hStep

theorem right_wake (hRight : Right vectorOf c) (hSound : Sound c')
    (hCall : c.calls[index]? = some call) (hStep : c.onWake index call = some c') :
    Right vectorOf c' := by
  have hProgressed := hRight.calls call (List.mem_of_getElem? hCall)
  cases hPhase : call.phase with
  | waiting got future rest =>
      rw [hPhase] at hProgressed
      obtain ⟨done, text, hTexts, rfl, hText⟩ := hProgressed
      simp only [onWake, hPhase] at hStep
      split at hStep
      · rename_i vector hResult
        rw [Option.some.injEq, hRight.valued.futures future text vector hText hResult] at hStep
        rw [← hStep] at hSound ⊢
        have hResolved := hRight.valued.resolve (done ++ [text]) rest hRight.sound.text
        rw [List.map_append, List.map_singleton, List.append_assoc, List.singleton_append,
          ← hTexts] at hResolved
        exact right_put hRight hSound (drops_resolve _ _ _) hResolved.1 hResolved.2
      · rw [Option.some.injEq] at hStep
        rw [← hStep] at hSound ⊢
        exact right_put hRight hSound (.none rfl rfl rfl rfl) hRight.valued trivial
      · cases hStep
  | computing futures => simp [onWake, hPhase] at hStep
  | fetching got text rest => simp [onWake, hPhase] at hStep
  | returned result => simp [onWake, hPhase] at hStep
  | raised fault => simp [onWake, hPhase] at hStep

theorem right_cancel (hRight : Right vectorOf c) (hSound : Sound c')
    (hStep : c.onCancel index call = some c') : Right vectorOf c' := by
  cases hPhase : call.phase with
  | waiting got future rest =>
      simp only [onCancel, hPhase] at hStep
      split at hStep
      · rw [Option.some.injEq] at hStep
        rw [← hStep] at hSound ⊢
        have hSettled : Valued vectorOf (c.settle future (.exception .cancelled)) :=
          hRight.valued.settle fun text vector _ hResult => by cases hResult
        refine ⟨hSound, hSettled, fun other hOther => ?_⟩
        refine (hRight.calls other hOther).mono fun asked text hText => ?_
        exact (textOf_settle _ _).trans hText
      · rw [Option.some.injEq] at hStep
        rw [← hStep] at hSound ⊢
        exact right_put hRight hSound (.none rfl rfl rfl rfl) hRight.valued trivial
  | computing futures => simp [onCancel, hPhase] at hStep
  | fetching got text rest => simp [onCancel, hPhase] at hStep
  | returned result => simp [onCancel, hPhase] at hStep
  | raised fault => simp [onCancel, hPhase] at hStep

/-- A move keeps everything right if the answer is that of the backend. -/
theorem Right.step [DecidableEq V] (hRight : Right vectorOf c) (move : Move V ε)
    (hHonest : honest vectorOf c move = true) (hStep : step c move = some c') :
    Right vectorOf c' := by
  have hSound := hRight.sound.step (step_cases move hStep)
  cases move with
  | embed texts =>
      rw [← Option.some.inj hStep] at hSound ⊢
      exact right_begin hRight hSound
  | reply index vectors =>
      obtain ⟨call, hCall, hReply⟩ := Option.bind_eq_some_iff.mp hStep
      rw [honest, hCall] at hHonest
      exact right_reply hRight hSound hCall (of_decide_eq_true hHonest) hReply
  | fail index fault =>
      obtain ⟨call, -, hFail⟩ := Option.bind_eq_some_iff.mp hStep
      exact right_fail hRight hSound hFail
  | wake index =>
      obtain ⟨call, hCall, hWake⟩ := Option.bind_eq_some_iff.mp hStep
      exact right_wake hRight hSound hCall hWake
  | cancel index =>
      obtain ⟨call, -, hCancel⟩ := Option.bind_eq_some_iff.mp hStep
      exact right_cancel hRight hSound hCancel

/-- Over any order of calls, answers, failures and cancellations, if the backend gives each text
its vector then so does every call that returns, and the cache holds, with their vectors, the texts
that were used last. -/
theorem vectors_of_texts [DecidableEq V] (vectorOf : Text → V) {maxEntries : Nat}
    {moves : List (Move V ε)} (hRun : machine.run moves (new maxEntries) = some c)
    (hHonest : machine.always (honest vectorOf) moves (new maxEntries) = true) :
    (∀ call ∈ c.calls, ∀ vectors, call.phase = .returned vectors →
      vectors = call.texts.map vectorOf) ∧
    (∀ entry ∈ c.cache, entry.2 = vectorOf entry.1) ∧
    c.cache.map (·.1) = Dict.lastDistinct maxEntries c.uses := by
  have hNew : Right vectorOf (new maxEntries : CachingEmbeddingClient V ε) := by
    refine ⟨sound_new maxEntries, ⟨by simp [new], by simp [new, textOf], ?_⟩, by simp [new]⟩
    simp [new, Dict.lastDistinct, List.rtake]
  have hRight := Coop.Machine.run_keeps_of_always (I := Right vectorOf)
    (fun _ move _ hHere hMove hStep => hHere.step move hMove hStep) hNew hHonest hRun
  have hSize : c.maxEntries = maxEntries :=
    Coop.Machine.run_keeps (I := fun c => c.maxEntries = maxEntries)
      (fun _ move _ hHere hStep => (step_cases move hStep).maxEntries.trans hHere) rfl hRun
  refine ⟨fun call hCall vectors hReturned => ?_, hRight.valued.cache, ?_⟩
  · have hProgressed := hRight.calls call hCall
    rw [hReturned] at hProgressed
    exact hProgressed
  · rw [← hSize]
    exact hRight.valued.recent

/-- Two calls share a text, and a third finds that it has fallen out of a cache of two. -/
def sharing : List (Move Nat Unit) :=
  [.embed [['a'], ['b']], .embed [['b'], ['c'], ['b']], .reply 1 [3], .reply 0 [1, 2], .wake 1,
    .embed [['a'], ['c']], .reply 2 [3], .reply 1 [3]]

theorem vectors_of_texts_sharing : ∃ c, machine.run sharing (new 2) = some c ∧
    (∀ call ∈ c.calls, ∀ vectors, call.phase = .returned vectors →
      vectors = call.texts.map fun text =>
        if text = ['a'] then 1 else if text = ['b'] then 2 else 3) ∧
    (∀ entry ∈ c.cache, entry.2 =
      if entry.1 = ['a'] then 1 else if entry.1 = ['b'] then 2 else 3) ∧
    c.cache.map (·.1) = Dict.lastDistinct 2 c.uses := by
  obtain ⟨c, hRun⟩ := Option.isSome_iff_exists.mp
    (by decide : (machine.run sharing (new 2)).isSome = true)
  exact ⟨c, hRun, vectors_of_texts
    (fun text => if text = ['a'] then 1 else if text = ['b'] then 2 else 3) hRun (by decide)⟩

end Vectors
end CachingEmbeddingClient
end Llm
end OctoForge
