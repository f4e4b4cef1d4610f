import OctoForge.Search.Capping

/-!
# A second ranking

`rerank` sorts a shortlist by the scores of a cross-encoder and moves the best hit that the query
names to the front.  The caps of a mixed search keep the front where it is when the first pass
returns, and sort once more by the scores when it does not.
-/

namespace OctoForge
namespace Search

variable {ρ τ K : Type} [Field K] [LinearOrder K] [DecidableEq τ]

namespace Reading

variable (reading : Reading ρ)

/-- The hits with other scores, sorted by them. -/
def rescored (hits : List (Hit ρ K)) (scores : List K) : List (Hit ρ K) :=
  (hits.zipWith (fun hit score => ⟨hit.record, score⟩) scores).mergeSort reading.hitLe

/-- `rerank`; `none` when it raises, because there are not as many scores as hits. -/
def rerank (hits : List (Hit ρ K)) (scores : List K) (k : Nat) (query : String) :
    Option (List (Hit ρ K)) :=
  if k = 0 then some []
  else if hits.length ≠ scores.length then none
  else
    let sorted := reading.rescored hits scores
    match sorted.find? fun hit => reading.titled query hit.record with
    | none => some (sorted.take k)
    | some exact =>
        some ((exact :: sorted.eraseP fun hit => reading.titled query hit.record).take k)

/-- The first hit is one that the query names. -/
def NamedFirst (query : String) (hits : List (Hit ρ K)) : Prop :=
  ∃ first rest, hits = first :: rest ∧ reading.titled query first.record = true

/-- Some hit is one that the query names. -/
def Named (query : String) (hits : List (Hit ρ K)) : Prop :=
  ∃ hit ∈ hits, reading.titled query hit.record = true

omit [Field K] [LinearOrder K] in
theorem namedFirst_cons {query : String} {first : Hit ρ K} {rest : List (Hit ρ K)} :
    reading.NamedFirst query (first :: rest) ↔ reading.titled query first.record = true := by
  simp [NamedFirst]

instance (query : String) : (hits : List (Hit ρ K)) → Decidable (reading.NamedFirst query hits)
  | [] => isFalse fun ⟨_, _, hNil, _⟩ => List.cons_ne_nil _ _ hNil.symm
  | _ :: _ => decidable_of_iff' _ (namedFirst_cons reading)

instance (query : String) (hits : List (Hit ρ K)) : Decidable (reading.Named query hits) :=
  inferInstanceAs (Decidable (∃ hit ∈ hits, reading.titled query hit.record = true))

/-- The caps leave the first hit where it is: the first pass returns, or no hit that the query
does not name is sorted before the first one.  The exception are two hits, of which one has to be
of another type. -/
def KeepsFirst (kind : ρ → τ) (query : String) (k : Nat) : List (Hit ρ K) → Prop
  | [] => True
  | first :: rest =>
      (Shares.pass (fun hit => kind hit.record) (share k) k {} (first :: rest)).isLeft = true ∨
        ∀ hit ∈ rest, reading.titled query hit.record = false → reading.hitLe hit first = true →
          k = 2 ∧ kind hit.record = kind first.record ∧
            ∃ other ∈ rest, kind other.record ≠ kind first.record

variable {reading} {kind : ρ → τ} {query : String} {k : Nat} {hit other first : Hit ρ K}
  {hits rest before after : List (Hit ρ K)} {scores : List K}

/-! ## The order of hits -/

/-- Hits that go before each other have one title. -/
theorem title_eq_of_hitLe (hLe : reading.hitLe hit other = true)
    (hGe : reading.hitLe other hit = true) :
    reading.title hit.record = reading.title other.record := by
  rw [hitLe_iff] at hLe hGe
  rcases hLe with hLess | ⟨hScore, hTitle⟩
  · rcases hGe with hMore | ⟨hSame, -⟩
    · exact absurd hLess (lt_asymm hMore)
    · exact absurd hSame hLess.ne
  · rcases hGe with hMore | ⟨hSame, hBack⟩
    · exact absurd hScore hMore.ne
    · exact le_antisymm hTitle hBack

theorem hitLe_refl (hit : Hit ρ K) : reading.hitLe hit hit = true :=
  hitLe_iff.mpr (.inr ⟨rfl, le_refl _⟩)

omit [Field K] [LinearOrder K] in
theorem titled_eq_of_title (query : String) (hTitle : reading.title hit.record = reading.title other.record) :
    reading.titled query hit.record = reading.titled query other.record := by
  rw [titled, titled, hTitle]

/-- A named hit and one that is not named are told apart by the order. -/
theorem not_hitLe_of_named (hNamed : reading.titled query hit.record = true)
    (hOther : reading.titled query other.record = false)
    (hLe : reading.hitLe hit other = true) : reading.hitLe other hit = false := by
  by_contra hGe
  rw [Bool.not_eq_false] at hGe
  have hSame := titled_eq_of_title query (title_eq_of_hitLe hLe hGe)
  rw [hNamed, hOther] at hSame
  cases hSame

/-- The first of the sorted hits goes before each of them. -/
theorem hitLe_of_mergeSort (hSorted : hits.mergeSort reading.hitLe = first :: rest)
    (hMem : hit ∈ hits) : reading.hitLe first hit = true :=
  Sequence.le_of_mergeSort hitLe_trans hitLe_total hSorted hMem

/-! ## The hits of a second ranking -/

/-- Sorted hits, of which the best that the query names has been moved to the front. -/
structure Fronted (reading : Reading ρ) (query : String) (first : Hit ρ K)
    (before after : List (Hit ρ K)) : Prop where
  sorted : (before ++ first :: after).Pairwise fun hit other => reading.hitLe hit other = true
  named : reading.titled query first.record = true
  others : ∀ hit ∈ before, reading.titled query hit.record = false

omit [Field K] [LinearOrder K] in
theorem find?_cases (p : Hit ρ K → Bool) (hits : List (Hit ρ K)) :
    (hits.find? p = none ∧ ∀ hit ∈ hits, p hit = false) ∨
      ∃ first before after, hits = before ++ first :: after ∧ p first = true ∧
        (∀ hit ∈ before, p hit = false) ∧ hits.find? p = some first ∧
        hits.eraseP p = before ++ after := by
  cases hFind : hits.find? p with
  | none => exact .inl ⟨rfl, fun hit hMem => by simpa using List.find?_eq_none.mp hFind hit hMem⟩
  | some first =>
      obtain ⟨hFirst, before, after, rfl, hBefore⟩ := List.find?_eq_some_iff_append.mp hFind
      have hOthers : ∀ hit ∈ before, p hit = false := fun hit hMem => by
        simpa using hBefore hit hMem
      refine .inr ⟨first, before, after, rfl, hFirst, hOthers, rfl, ?_⟩
      rw [List.eraseP_append_right _ (fun hit hMem => by simp [hOthers hit hMem]),
        List.eraseP_cons_of_pos hFirst]

/-- The records of the hits, in the order of the hits. -/
def records (hits : List (Hit ρ K)) : List ρ := hits.map (·.record)

omit [Field K] [LinearOrder K] in
theorem named_iff : Named reading query hits ↔
    ∃ record ∈ records hits, reading.titled query record = true := by
  simp [Named, records]

omit [Field K] [LinearOrder K] in
theorem records_zipWith (hLength : hits.length = scores.length) :
    records (hits.zipWith (fun hit score => ⟨hit.record, score⟩) scores) = records hits := by
  induction hits generalizing scores with
  | nil => rfl
  | cons hit rest ih =>
      cases scores with
      | nil => simp at hLength
      | cons score more =>
          have hMore : rest.length = more.length := by simpa using hLength
          have hRest := ih hMore
          simp only [records, List.zipWith_cons_cons, List.map_cons] at hRest ⊢
          rw [hRest]

omit [Field K] in
theorem perm_records_rescored (hLength : hits.length = scores.length) :
    (records (reading.rescored hits scores)).Perm (records hits) := by
  rw [← records_zipWith hLength]
  exact (List.mergeSort_perm _ _).map _

omit [Field K] in
theorem named_rescored (hLength : hits.length = scores.length) :
    Named reading query (reading.rescored hits scores) ↔ Named reading query hits := by
  have hPerm : (records (reading.rescored hits scores)).Perm (records hits) :=
    perm_records_rescored hLength
  rw [named_iff, named_iff]
  exact exists_congr fun record => and_congr_left fun _ => hPerm.mem_iff

omit [Field K] in
theorem rerank_eq_none (hK : 0 < k) :
    reading.rerank hits scores k query = none ↔ hits.length ≠ scores.length := by
  rw [rerank, if_neg (Nat.ne_of_gt hK)]
  constructor
  · intro hNone
    by_contra hSame
    rw [if_neg (not_not.mpr hSame)] at hNone
    dsimp only at hNone
    split at hNone
    · cases hNone
    · cases hNone
  · exact fun hOther => if_pos hOther

/-- Of a shortlist that has a named hit, the second ranking puts the best such hit first. -/
theorem rerank_named (hK : 0 < k) {reranked : List (Hit ρ K)}
    (hRerank : reading.rerank hits scores k query = some reranked)
    (hNamed : Named reading query hits) :
    ∃ first before after, reranked = (first :: (before ++ after)).take k ∧
      reading.rescored hits scores = before ++ first :: after ∧
      Fronted reading query first before after := by
  have hLength : hits.length = scores.length := by
    by_contra hOther
    rw [(rerank_eq_none hK).mpr hOther] at hRerank
    cases hRerank
  rw [rerank, if_neg (Nat.ne_of_gt hK), if_neg (not_not.mpr hLength)] at hRerank
  have hSorted : (reading.rescored hits scores).Pairwise
      fun hit other => reading.hitLe hit other = true :=
    List.pairwise_mergeSort hitLe_trans hitLe_total _
  rcases find?_cases (fun hit => reading.titled query hit.record) (reading.rescored hits scores)
    with ⟨-, hNone⟩ | ⟨first, before, after, hSplit, hFirst, hOthers, hFind, hErase⟩
  · obtain ⟨hit, hHit, hTitled⟩ := (named_rescored hLength).mpr hNamed
    rw [hNone hit hHit] at hTitled
    cases hTitled
  · simp only [hFind, hErase, Option.some.injEq] at hRerank
    exact ⟨first, before, after, hRerank.symm, hSplit, hSplit ▸ hSorted, hFirst, hOthers⟩

end Reading

/-! ## What the caps make of it -/

section Capped

variable {α : Type} {kind : α → τ} {cap k : Nat} {s : Shares α τ} {first : α} {hits rest : List α}

/-- What has been taken stays in front. -/
theorem Shares.prefix_pass (kind : α → τ) (cap k : Nat) (s : Shares α τ) (hits : List α) :
    (∀ taken, Shares.pass kind cap k s hits = .inl taken → s.taken <+: taken) ∧
      ∀ s', Shares.pass kind cap k s hits = .inr s' → s.taken <+: s'.taken := by
  induction hits generalizing s with
  | nil =>
      constructor
      · intro taken hPass
        cases hPass
      · intro s' hPass
        obtain rfl := Sum.inr.inj hPass
        exact List.prefix_rfl
  | cons hit rest ih =>
      have hGrows : s.taken <+: (s.add kind cap hit).taken := by
        unfold Shares.add
        split
        · exact List.prefix_rfl
        · exact List.prefix_append _ _
      rw [Shares.pass]
      split
      · constructor
        · intro taken hPass
          obtain rfl := Sum.inl.inj hPass
          exact List.prefix_rfl
        · intro s' hPass
          cases hPass
      · exact ⟨fun taken hPass => hGrows.trans ((ih _).1 taken hPass),
          fun s' hPass => hGrows.trans ((ih _).2 s' hPass)⟩

theorem Shares.pass_cons (kind : α → τ) (hK : 0 < k) (hCap : 0 < cap) (first : α) (rest : List α) :
    Shares.pass kind cap k {} (first :: rest) =
      Shares.pass kind cap k (Shares.add kind cap {} first) rest ∧
        (Shares.add kind cap {} first).taken = [first] := by
  have hRoom : ([] : List α).length ≠ k := Nat.ne_of_lt hK
  have hNone : ¬(0 : Nat) = cap := Nat.ne_of_lt hCap
  refine ⟨by rw [Shares.pass, if_neg hRoom], ?_⟩
  simp only [Shares.add, if_neg hNone, List.nil_append]

/-- The first hit is taken first, and the first pass does not return before the second. -/
theorem Shares.pass_first (hK : 0 < k) (hCap : 0 < cap)
    (hPass : Shares.pass kind cap k {} (first :: rest) = .inr s) :
    (∃ more, s.taken = first :: more) ∧ (rest ≠ [] → k ≠ 1) := by
  obtain ⟨hNext, hTaken⟩ := Shares.pass_cons kind hK hCap first rest
  rw [hNext] at hPass
  constructor
  · obtain ⟨more, hMore⟩ := (Shares.prefix_pass kind cap k _ rest).2 s hPass
    rw [hTaken] at hMore
    exact ⟨more, hMore.symm⟩
  · rintro hRest rfl
    obtain ⟨second, others, rfl⟩ := List.exists_cons_of_ne_nil hRest
    rw [Shares.pass, hTaken, if_pos List.length_singleton] at hPass
    cases hPass

theorem Shares.pass_first_inl (hK : 0 < k) (hCap : 0 < cap) {taken : List α}
    (hPass : Shares.pass kind cap k {} (first :: rest) = .inl taken) :
    ∃ more, taken = first :: more := by
  obtain ⟨hNext, hTaken⟩ := Shares.pass_cons kind hK hCap first rest
  rw [hNext] at hPass
  obtain ⟨more, hMore⟩ := (Shares.prefix_pass kind cap k _ rest).1 taken hPass
  rw [hTaken] at hMore
  exact ⟨more, hMore.symm⟩

end Capped

namespace Reading

variable {reading : Reading ρ} {kind : ρ → τ} {query : String} {k : Nat} {hit first : Hit ρ K}
  {rest before after : List (Hit ρ K)}

/-- The caps leave sorted hits with the first hit first. -/
theorem capTypes_sorted (reading : Reading ρ) (kind : ρ → τ) (hK : 0 < k)
    (hSorted : (first :: rest).Pairwise fun hit other => reading.hitLe hit other = true) :
    ∃ more, capTypes (fun hit => kind hit.record) reading.hitLe (first :: rest) k =
      first :: more := by
  rcases capTypes_cases (fun hit => kind hit.record) reading.hitLe (first :: rest) k with
    ⟨-, -, -, s, -, -, -, hPass, hCap⟩ | ⟨s, hSplit, hPass, hCap⟩
  · obtain ⟨more, hTaken⟩ := Shares.pass_first_inl hK (share_pos k) hPass
    exact ⟨more, hCap.trans hTaken⟩
  · obtain ⟨⟨more, hTaken⟩, -⟩ := Shares.pass_first hK (share_pos k) hPass
    have hFilled : s.filled k = first :: (more ++ s.skipped.take (k - s.taken.length)) := by
      rw [Shares.filled, hTaken, List.cons_append]
    have hLe : ∀ hit ∈ more ++ s.skipped.take (k - s.taken.length),
        reading.hitLe first hit = true := by
      intro hit hHit
      have hThere : hit ∈ s.filled k := hFilled ▸ List.mem_cons_of_mem first hHit
      rcases List.mem_cons.mp (hSplit.filled_subset hThere) with rfl | hRest
      · exact hitLe_refl hit
      · exact (List.pairwise_cons.mp hSorted).1 hit hRest
    rw [hCap, hFilled]
    exact Sequence.mergeSort_first hitLe_trans hitLe_total hLe

section Fronts

variable (hFront : Fronted reading query first before after)

include hFront

omit [Field K] in
theorem Fronted.rest_sorted :
    (before ++ after).Pairwise fun hit other => reading.hitLe hit other = true := by
  refine hFront.sorted.sublist ?_
  exact (List.Sublist.refl before).append (List.sublist_cons_self first after)

/-- The first hit goes before all that the query names. -/
theorem Fronted.first_le (hHit : hit ∈ first :: (before ++ after))
    (hNamed : reading.titled query hit.record = true) : reading.hitLe first hit = true := by
  rcases List.mem_cons.mp hHit with rfl | hRest
  · exact hitLe_refl hit
  · rcases List.mem_append.mp hRest with hBefore | hAfter
    · rw [hFront.others hit hBefore] at hNamed
      cases hNamed
    · exact (List.pairwise_cons.mp (List.pairwise_append.mp hFront.sorted).2.1).1 hit hAfter

/-- What goes before a hit that goes before the first one is not named either. -/
theorem Fronted.not_named {other : Hit ρ K} (hOther : other ∈ before ++ after)
    (hBefore : reading.hitLe other hit = true) (hHit : reading.titled query hit.record = false)
    (hFirst : reading.hitLe hit first = true) : reading.titled query other.record = false := by
  by_contra hNamed
  rw [Bool.not_eq_false] at hNamed
  have hLe := hFront.first_le (List.mem_cons_of_mem first hOther) hNamed
  have hBack := not_hitLe_of_named hFront.named hHit (hitLe_trans _ _ _ hLe hBefore)
  rw [hFirst] at hBack
  cases hBack

/-- Beside a hit that goes before the first one, no named hit is sorted first. -/
theorem Fronted.not_namedFirst {shown : List (Hit ρ K)} (hShown : shown ⊆ first :: (before ++ after))
    (hHit : hit ∈ shown) (hOther : reading.titled query hit.record = false)
    (hBefore : reading.hitLe hit first = true) :
    ¬NamedFirst reading query (shown.mergeSort reading.hitLe) := by
  rintro ⟨top, more, hSorted, hNamed⟩
  have hTop := hShown (Sequence.mem_of_mergeSort hSorted)
  have hLe := hitLe_trans _ _ _ (hFront.first_le hTop hNamed)
    (hitLe_of_mergeSort hSorted hHit)
  have hBack := not_hitLe_of_named hFront.named hOther hLe
  rw [hBefore] at hBack
  cases hBack

end Fronts

/-- The first hit of its type behind the front is as good as any of them. -/
theorem exists_best_of_type (kind : ρ → τ) {t : τ} (hHit : hit ∈ rest) (hType : kind hit.record = t)
    (hSorted : rest.Pairwise fun hit other => reading.hitLe hit other = true) :
    ∃ best more, ofType (fun hit => kind hit.record) t rest = best :: more ∧ best ∈ rest ∧
      kind best.record = t ∧ reading.hitLe best hit = true := by
  have hThere : hit ∈ ofType (fun hit => kind hit.record) t rest := mem_ofType.mpr ⟨hHit, hType⟩
  obtain ⟨best, more, hOf⟩ := List.exists_cons_of_ne_nil (List.ne_nil_of_mem hThere)
  have hBest : best ∈ ofType (fun hit => kind hit.record) t rest := hOf ▸ List.mem_cons_self
  have hPairwise : (ofType (fun hit => kind hit.record) t rest).Pairwise
      fun hit other => reading.hitLe hit other = true := hSorted.sublist List.filter_sublist
  refine ⟨best, more, hOf, (mem_ofType.mp hBest).1, (mem_ofType.mp hBest).2, ?_⟩
  rw [hOf] at hThere hPairwise
  rcases List.mem_cons.mp hThere with rfl | hMore
  · exact hitLe_refl hit
  · exact (List.pairwise_cons.mp hPairwise).1 hit hMore

end Reading

section Capped

variable {α : Type} {kind : α → τ} {k : Nat} {s : Shares α τ} {first best : α} {rest more : List α}

/-- The first hit of another type than that of the front is taken. -/
theorem Shares.Split.first_of_other (hSplit : Split kind (share k) k (first :: rest) s)
    (hOf : ofType kind (kind best) rest = best :: more) (hOther : kind best ≠ kind first) :
    best ∈ s.filled k := by
  have hAll : ofType kind (kind best) (first :: rest) = best :: more := by
    rw [ofType, List.filter_cons_of_neg (by simpa using Ne.symm hOther)]
    exact hOf
  have hMem : best ∈ ofType kind (kind best) s.taken := by
    obtain ⟨cap, hCap⟩ := Nat.exists_eq_succ_of_ne_zero (Nat.ne_of_gt (share_pos k))
    rw [hSplit.taken, hAll, hCap, List.take_succ_cons]
    exact List.mem_cons_self
  exact List.mem_append_left _ (mem_ofType.mp hMem).1

/-- The second hit of the type of the front is shown, but for one case of two hits. -/
theorem Shares.Split.second_of_same (hSplit : Split kind (share k) k (first :: rest) s)
    (hTaken : ∃ more, s.taken = first :: more) (hK : 2 ≤ k)
    (hOf : ofType kind (kind first) rest = best :: more)
    (hAlone : k = 2 → ∀ other ∈ rest, kind other = kind first) : best ∈ s.filled k := by
  have hAll : ofType kind (kind first) (first :: rest) = first :: best :: more := by
    rw [ofType, List.filter_cons_of_pos (by simp)]
    exact congrArg (first :: ·) hOf
  by_cases hMany : 2 ≤ share k
  · have hMem : best ∈ ofType kind (kind first) s.taken := by
      obtain ⟨cap, hCap⟩ := Nat.exists_eq_add_of_le' hMany
      rw [hSplit.taken, hAll, hCap, List.take_succ_cons, List.take_succ_cons]
      exact List.mem_cons_of_mem first List.mem_cons_self
    exact List.mem_append_left _ (mem_ofType.mp hMem).1
  · have hOne : share k = 1 := by
      have hPos := share_pos k
      omega
    obtain rfl : k = 2 := by
      have hHalf := le_two_shares k
      omega
    -- All hits are of one type: the front is taken, and one more fills the rest.
    have hOnly : ∀ hit ∈ first :: rest, kind hit = kind first := fun hit hHit => by
      rcases List.mem_cons.mp hHit with rfl | hRest
      · rfl
      · exact hAlone rfl hit hRest
    obtain ⟨hFirst, hSecond⟩ := hSplit.alone hOnly
    have hRest : first :: rest = first :: best :: more := by
      rw [← hAll]
      exact (ofType_eq_self hOnly).symm
    rw [Shares.filled, hFirst, hSecond, hOne, hRest]
    simp

/-- Two hits of two types are one of each, with nothing to fill. -/
theorem Shares.Split.two_types (hSplit : Split kind (share 2) 2 (first :: rest) s)
    {other hit : α} (hOther : other ∈ rest) (hNe : kind other ≠ kind first)
    (hHit : hit ∈ s.filled 2) (hSame : kind hit = kind first) : hit = first := by
  have hShare : share 2 = 1 := by decide
  have hFirst : ofType kind (kind first) s.taken = [first] := by
    rw [hSplit.taken, hShare, ofType, List.filter_cons_of_pos (by simp)]
    rfl
  have hSecond : 0 < (ofType kind (kind other) s.taken).length := by
    have hThere : other ∈ ofType kind (kind other) (first :: rest) :=
      mem_ofType.mpr ⟨List.mem_cons_of_mem first hOther, rfl⟩
    have hSome := List.length_pos_of_mem hThere
    rw [hSplit.taken, hShare, List.length_take]
    omega
  have hBoth := two_types_le kind (Ne.symm hNe) s.taken
  rw [hFirst, List.length_singleton] at hBoth
  have hNone : 2 - s.taken.length = 0 := by omega
  rw [Shares.filled, hNone, List.take_zero, List.append_nil] at hHit
  have hThere : hit ∈ ofType kind (kind first) s.taken := mem_ofType.mpr ⟨hHit, hSame⟩
  rw [hFirst] at hThere
  exact List.mem_singleton.mp hThere

end Capped

namespace Reading

variable {reading : Reading ρ} {kind : ρ → τ} {query : String} {k : Nat} {hit first : Hit ρ K}
  {before after : List (Hit ρ K)}

/-- Hits that are filled up and sorted, with a named one first: no other hit goes before the front,
but for the case of two hits. -/
theorem keeps_of_namedFirst {s : Shares (Hit ρ K) τ}
    (hFront : Fronted reading query first before after)
    (hSplit : Shares.Split (fun hit => kind hit.record) (share k) k (first :: (before ++ after)) s)
    (hTaken : ∃ more, s.taken = first :: more) (hSingle : before ++ after ≠ [] → k ≠ 1) (hK : 0 < k)
    (hNamed : NamedFirst reading query ((s.filled k).mergeSort reading.hitLe))
    (hHit : hit ∈ before ++ after) (hOther : reading.titled query hit.record = false)
    (hBefore : reading.hitLe hit first = true) :
    k = 2 ∧ kind hit.record = kind first.record ∧
      ∃ other ∈ before ++ after, kind other.record ≠ kind first.record := by
  -- The best hit of the same type would be sorted before the front, if it were shown.
  obtain ⟨best, more, hOf, hBest, hType, hLe⟩ :=
    exists_best_of_type kind hHit rfl hFront.rest_sorted
  have hBestOther := hFront.not_named hBest hLe hOther hBefore
  have hAway : best ∉ s.filled k := fun hThere =>
    hFront.not_namedFirst hSplit.filled_subset hThere hBestOther (hitLe_trans _ _ _ hLe hBefore)
      hNamed
  have hSame : kind hit.record = kind first.record := by
    by_contra hNe
    rw [← hType] at hOf hNe
    exact hAway (hSplit.first_of_other hOf hNe)
  have hTwo : 2 ≤ k := by
    have hMore := hSingle (List.ne_nil_of_mem hHit)
    omega
  by_contra hNot
  refine hAway (hSplit.second_of_same hTaken hTwo (hSame ▸ hOf) fun hIs other hThere => ?_)
  by_contra hNe
  exact hNot ⟨hIs, hSame, other, hThere, hNe⟩

/-- Hits that are filled up and sorted have a named one first, when no other hit goes before the
front, but for the case of two hits. -/
theorem namedFirst_of_keeps {s : Shares (Hit ρ K) τ}
    (hFront : Fronted reading query first before after)
    (hSplit : Shares.Split (fun hit => kind hit.record) (share k) k (first :: (before ++ after)) s)
    (hTaken : ∃ more, s.taken = first :: more)
    (hKeeps : ∀ hit ∈ before ++ after, reading.titled query hit.record = false →
      reading.hitLe hit first = true → k = 2 ∧ kind hit.record = kind first.record ∧
        ∃ other ∈ before ++ after, kind other.record ≠ kind first.record) :
    NamedFirst reading query ((s.filled k).mergeSort reading.hitLe) := by
  obtain ⟨more, hFirst⟩ := hTaken
  have hFilled : first ∈ s.filled k := by
    rw [Shares.filled, hFirst]
    exact List.mem_cons_self
  obtain ⟨top, others, hSorted⟩ := List.exists_cons_of_ne_nil
    (List.ne_nil_of_mem (List.mem_mergeSort.mpr hFilled : first ∈ (s.filled k).mergeSort _))
  refine ⟨top, others, hSorted, ?_⟩
  by_contra hOther
  rw [Bool.not_eq_true] at hOther
  have hTop := Sequence.mem_of_mergeSort hSorted
  have hRest : top ∈ before ++ after := by
    rcases List.mem_cons.mp (hSplit.filled_subset hTop) with rfl | hRest
    · rw [hFront.named] at hOther
      cases hOther
    · exact hRest
  -- So there are two hits of two types, and the one of the front's type is the front.
  obtain ⟨rfl, hSame, other, hThere, hNe⟩ :=
    hKeeps top hRest hOther (hitLe_of_mergeSort hSorted hFilled)
  obtain rfl := hSplit.two_types hThere hNe hTop hSame
  rw [hFront.named] at hOther
  cases hOther

/-- The caps leave a hit that the query names first, exactly where nothing that goes before it by
the scores is sorted with it. -/
theorem capTypes_fronted (kind : ρ → τ) (hK : 0 < k)
    (hFront : Fronted reading query first before after) :
    NamedFirst reading query
        (capTypes (fun hit => kind hit.record) reading.hitLe (first :: (before ++ after)) k) ↔
      KeepsFirst reading kind query k (first :: (before ++ after)) := by
  rcases capTypes_cases (fun hit => kind hit.record) reading.hitLe (first :: (before ++ after)) k
    with ⟨-, -, -, s, -, -, -, hPass, hCap⟩ | ⟨s, hSplit, hPass, hCap⟩
  · obtain ⟨more, hTaken⟩ := Shares.pass_first_inl hK (share_pos k) hPass
    rw [hCap]
    exact ⟨fun _ => .inl (by rw [hPass]; rfl), fun _ => ⟨first, more, hTaken, hFront.named⟩⟩
  · obtain ⟨hTaken, hSingle⟩ := Shares.pass_first hK (share_pos k) hPass
    have hEarly : ¬(Shares.pass (fun hit : Hit ρ K => kind hit.record) (share k) k {}
        (first :: (before ++ after))).isLeft = true := by
      rw [hPass]
      exact Bool.false_ne_true
    rw [hCap, KeepsFirst, or_iff_right hEarly]
    constructor
    · exact fun hNamed _ hHit => keeps_of_namedFirst hFront hSplit hTaken hSingle hK hNamed hHit
    · exact namedFirst_of_keeps hFront hSplit hTaken

end Reading

end Search
end OctoForge
