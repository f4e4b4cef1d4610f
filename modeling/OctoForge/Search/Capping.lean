import OctoForge.Search.Ranking

/-!
# A share for each type

A mixed ranking is cut to `k` hits so that no type has more than a share of them, unless there
is nothing else to show.  The first pass takes a hit unless its type has its share already, and
returns when it has `k`; otherwise hits that were skipped fill the rest, and all are sorted
again.

What the first pass has taken of a type are the first ones of it, as many as its share, and
what it has skipped are the others.  With the half of `k` as the share of a type, only one
type can have skipped hits when there is room for them.
-/

namespace OctoForge
namespace Search

variable {α τ : Type} [DecidableEq τ]

/-- `taken`, `skipped` and `per_type` of the first pass. -/
structure Shares (α τ : Type) where
  taken : List α := []
  skipped : List α := []
  perType : τ → Nat := fun _ => 0

namespace Shares

/-- The body of the first pass. -/
def add (kind : α → τ) (cap : Nat) (s : Shares α τ) (hit : α) : Shares α τ :=
  if s.perType (kind hit) = cap then { s with skipped := s.skipped ++ [hit] }
  else
    { s with
      taken := s.taken ++ [hit]
      perType := Function.update s.perType (kind hit) (s.perType (kind hit) + 1) }

/-- The first pass: what is returned from it, or what it leaves. -/
def pass (kind : α → τ) (cap k : Nat) : Shares α τ → List α → List α ⊕ Shares α τ
  | s, [] => .inr s
  | s, hit :: rest =>
      if s.taken.length = k then .inl s.taken else pass kind cap k (s.add kind cap hit) rest

/-- `taken + skipped[: k - len(taken)]`. -/
def filled (k : Nat) (s : Shares α τ) : List α := s.taken ++ s.skipped.take (k - s.taken.length)

end Shares

/-- `ceil(k/2)`, and one at least. -/
def share (k : Nat) : Nat := max 1 ((k + 1) / 2)

/-- `_cap_types`, for hits that are sorted by `le`. -/
def capTypes (kind : α → τ) (le : α → α → Bool) (hits : List α) (k : Nat) : List α :=
  match Shares.pass kind (share k) k {} hits with
  | .inl taken => taken
  | .inr s => (s.filled k).mergeSort le

theorem share_pos (k : Nat) : 0 < share k := Nat.lt_of_lt_of_le Nat.one_pos (Nat.le_max_left _ _)

theorem le_two_shares (k : Nat) : k ≤ 2 * share k := by
  have hHalf : (k + 1) / 2 ≤ share k := Nat.le_max_right _ _
  omega

/-! ## The first pass -/

/-- The hits of one type. -/
def ofType (kind : α → τ) (t : τ) (hits : List α) : List α := hits.filter fun hit => kind hit = t

section OfType

variable {kind : α → τ} {t : τ} {hit : α} {hits more : List α}

@[simp] theorem ofType_append : ofType kind t (hits ++ more) = ofType kind t hits ++ ofType kind t more :=
  List.filter_append hits more

theorem mem_ofType : hit ∈ ofType kind t hits ↔ hit ∈ hits ∧ kind hit = t := by
  simp [ofType]

theorem ofType_concat_self (kind : α → τ) (hits : List α) (hit : α) :
    ofType kind (kind hit) (hits ++ [hit]) = ofType kind (kind hit) hits ++ [hit] := by
  rw [ofType_append]
  simp [ofType]

theorem ofType_concat_ne (hOther : kind hit ≠ t) :
    ofType kind t (hits ++ [hit]) = ofType kind t hits := by
  rw [ofType_append]
  simp [ofType, hOther]

theorem ofType_eq_self (hOnly : ∀ hit ∈ hits, kind hit = t) : ofType kind t hits = hits :=
  List.filter_eq_self.mpr fun hit hHit => decide_eq_true (hOnly hit hHit)

theorem length_ofType : (ofType kind t hits).length = hits.countP fun hit => kind hit = t :=
  List.countP_eq_length_filter.symm

end OfType

namespace Shares

variable {kind : α → τ} {cap k : Nat} {s : Shares α τ} {hit : α} {done hits : List α}

/-- What the first pass has made of the hits up to here. -/
structure Split (kind : α → τ) (cap k : Nat) (done : List α) (s : Shares α τ) : Prop where
  taken : ∀ t, ofType kind t s.taken = (ofType kind t done).take cap
  skipped : ∀ t, ofType kind t s.skipped = (ofType kind t done).drop cap
  perType : ∀ t, s.perType t = (ofType kind t s.taken).length
  perm : (s.taken ++ s.skipped).Perm done
  room : s.taken.length ≤ k

theorem Split.nil (kind : α → τ) (cap k : Nat) : Split kind cap k [] {} where
  taken _ := by simp [ofType]
  skipped _ := by simp [ofType]
  perType _ := rfl
  perm := List.Perm.refl []
  room := Nat.zero_le k

/-- The types of the others are not touched by a hit. -/
theorem Split.other (hSplit : Split kind cap k done s) {t : τ} (hOther : kind hit ≠ t) :
    ofType kind t s.taken = (ofType kind t (done ++ [hit])).take cap ∧
      ofType kind t s.skipped = (ofType kind t (done ++ [hit])).drop cap := by
  rw [ofType_concat_ne hOther]
  exact ⟨hSplit.taken t, hSplit.skipped t⟩

/-- A hit whose type has its share is skipped. -/
theorem Split.skip (hSplit : Split kind cap k done s) (hFull : s.perType (kind hit) = cap) :
    Split kind cap k (done ++ [hit]) { s with skipped := s.skipped ++ [hit] } := by
  -- The type has its share, so there are as many hits of it already.
  have hMany : cap ≤ (ofType kind (kind hit) done).length := by
    rw [hSplit.perType, hSplit.taken, List.length_take] at hFull
    omega
  refine ⟨fun t => ?_, fun t => ?_, hSplit.perType, ?_, hSplit.room⟩
  · by_cases hSame : kind hit = t
    · subst hSame
      rw [ofType_concat_self, List.take_append_of_le_length hMany]
      exact hSplit.taken _
    · exact (hSplit.other hSame).1
  · by_cases hSame : kind hit = t
    · subst hSame
      rw [ofType_concat_self, ofType_concat_self, List.drop_append_of_le_length hMany,
        hSplit.skipped]
    · rw [ofType_concat_ne hSame]
      exact (hSplit.other hSame).2
  · rw [← List.append_assoc]
    exact hSplit.perm.append_right [hit]

/-- A hit whose type has room is taken. -/
theorem Split.take (hSplit : Split kind cap k done s) (hRoom : s.taken.length ≠ k)
    (hFree : s.perType (kind hit) ≠ cap) :
    Split kind cap k (done ++ [hit])
      { s with
        taken := s.taken ++ [hit]
        perType := Function.update s.perType (kind hit) (s.perType (kind hit) + 1) } := by
  have hCount := hSplit.perType (kind hit)
  have hTaken := hSplit.taken (kind hit)
  have hSkipped := hSplit.skipped (kind hit)
  -- So far no hit of the type has been skipped, and this one fits in.
  have hFew : (ofType kind (kind hit) done).length < cap := by
    rw [hTaken, List.length_take] at hCount
    omega
  have hFits : (ofType kind (kind hit) (done ++ [hit])).length ≤ cap := by
    rw [ofType_concat_self, List.length_append, List.length_singleton]
    omega
  refine ⟨fun t => ?_, fun t => ?_, fun t => ?_, ?_, ?_⟩
  · by_cases hSame : kind hit = t
    · subst hSame
      rw [List.take_of_length_le hFits, ofType_concat_self, ofType_concat_self, hTaken,
        List.take_of_length_le (Nat.le_of_lt hFew)]
    · rw [ofType_concat_ne hSame]
      exact (hSplit.other hSame).1
  · by_cases hSame : kind hit = t
    · subst hSame
      rw [List.drop_of_length_le hFits]
      rw [List.drop_of_length_le (Nat.le_of_lt hFew)] at hSkipped
      exact hSkipped
    · exact (hSplit.other hSame).2
  · show Function.update s.perType (kind hit) (s.perType (kind hit) + 1) t =
      (ofType kind t (s.taken ++ [hit])).length
    by_cases hSame : kind hit = t
    · subst hSame
      rw [Function.update_self, ofType_concat_self, List.length_append, hCount]
      rfl
    · rw [Function.update_of_ne (Ne.symm hSame), ofType_concat_ne hSame]
      exact hSplit.perType t
  · show (s.taken ++ [hit] ++ s.skipped).Perm (done ++ [hit])
    have hSwap : (s.taken ++ [hit] ++ s.skipped).Perm (s.taken ++ s.skipped ++ [hit]) := by
      rw [List.append_assoc, List.append_assoc]
      exact List.perm_append_comm.append_left s.taken
    exact hSwap.trans (hSplit.perm.append_right [hit])
  · -- The pass looks at the room before it takes a hit.
    show (s.taken ++ [hit]).length ≤ k
    have hBound := hSplit.room
    rw [List.length_append, List.length_singleton]
    omega

theorem Split.add (hSplit : Split kind cap k done s) (hRoom : s.taken.length ≠ k) (hit : α) :
    Split kind cap k (done ++ [hit]) (s.add kind cap hit) := by
  unfold Shares.add
  split
  · exact hSplit.skip (by assumption)
  · exact hSplit.take hRoom (by assumption)

/-- Hits of one type are taken up to the share. -/
theorem Split.alone (hSplit : Split kind cap k done s) {t : τ} (hOnly : ∀ hit ∈ done, kind hit = t) :
    s.taken = done.take cap ∧ s.skipped = done.drop cap := by
  have hTaken := hSplit.taken t
  have hSkipped := hSplit.skipped t
  have hSub : s.taken ++ s.skipped ⊆ done := hSplit.perm.subset
  rw [ofType_eq_self hOnly] at hTaken hSkipped
  rw [ofType_eq_self fun hit hHit => hOnly hit (hSub (List.mem_append_left _ hHit))] at hTaken
  rw [ofType_eq_self fun hit hHit => hOnly hit (hSub (List.mem_append_right _ hHit))] at hSkipped
  exact ⟨hTaken, hSkipped⟩

/-- The pass returns `k` hits before it has seen them all, or it has seen them all. -/
theorem pass_cases (hSplit : Split kind cap k done s) (hits : List α) :
    (∃ before hit after s', hits = before ++ hit :: after ∧ Split kind cap k (done ++ before) s' ∧
        s'.taken.length = k ∧ pass kind cap k s hits = .inl s'.taken) ∨
      ∃ s', Split kind cap k (done ++ hits) s' ∧ pass kind cap k s hits = .inr s' := by
  induction hits generalizing done s with
  | nil => exact .inr ⟨s, by rwa [List.append_nil], rfl⟩
  | cons hit rest ih =>
      rw [pass]
      split
      · rename_i hFull
        exact .inl ⟨[], hit, rest, s, rfl, by rwa [List.append_nil], hFull, rfl⟩
      · rename_i hRoom
        rcases ih (hSplit.add hRoom hit) with ⟨before, next, after, s', rfl, hHere, hFull, hPass⟩ |
          ⟨s', hHere, hPass⟩
        · rw [List.append_assoc, List.singleton_append] at hHere
          exact .inl ⟨hit :: before, next, after, s', rfl, hHere, hFull, hPass⟩
        · rw [List.append_assoc, List.singleton_append] at hHere
          exact .inr ⟨s', hHere, hPass⟩

/-- A type has skipped hits only when it has its share. -/
theorem Split.full (hSplit : Split kind cap k done s) (hSkipped : hit ∈ s.skipped) :
    (ofType kind (kind hit) s.taken).length = cap := by
  have hOf : hit ∈ (ofType kind (kind hit) done).drop cap := by
    rw [← hSplit.skipped]
    exact mem_ofType.mpr ⟨hSkipped, rfl⟩
  have hLong := List.length_pos_of_mem hOf
  rw [List.length_drop] at hLong
  rw [hSplit.taken, List.length_take]
  omega

/-- Two types that have their shares have two shares. -/
theorem two_types_le (kind : α → τ) {t t' : τ} (hOther : t ≠ t') (taken : List α) :
    (ofType kind t taken).length + (ofType kind t' taken).length ≤ taken.length := by
  rw [length_ofType, length_ofType, List.length_eq_countP_add_countP (fun hit => kind hit = t)]
  refine Nat.add_le_add_left (List.countP_mono_left fun hit _ hSame => ?_) _
  simp only [decide_eq_true_eq] at hSame ⊢
  exact fun hThat => hOther (hThat.symm.trans hSame)

/-- With room for skipped hits, they are all of one type. -/
theorem Split.one_type (hSplit : Split kind (share k) k done s) (hRoom : s.taken.length < k)
    {other : α} (hSkipped : hit ∈ s.skipped) (hOther : other ∈ s.skipped) :
    kind other = kind hit := by
  by_contra hNe
  have hFirst := hSplit.full hSkipped
  have hSecond := hSplit.full hOther
  -- Two full shares are the half of `k` each: nothing would be left to fill.
  have hBoth := two_types_le kind (Ne.symm hNe) s.taken
  have hHalf := le_two_shares k
  omega

/-- What fills the rest is of one type: the first hits of it that were skipped. -/
theorem Split.ofType_fill (hSplit : Split kind (share k) k done s) (t : τ) :
    ∃ n, ofType kind t (s.skipped.take (k - s.taken.length)) = (ofType kind t s.skipped).take n := by
  by_cases hRoom : s.taken.length < k
  · by_cases hNone : ofType kind t s.skipped = []
    · refine ⟨0, List.eq_nil_iff_forall_not_mem.mpr fun hit hMem => ?_⟩
      obtain ⟨hTake, hType⟩ := mem_ofType.mp hMem
      have hThere := mem_ofType.mpr ⟨List.mem_of_mem_take hTake, hType⟩
      rw [hNone] at hThere
      exact List.not_mem_nil hThere
    · obtain ⟨hit, hThere⟩ := List.exists_mem_of_ne_nil _ hNone
      obtain ⟨hSkipped, hType⟩ := mem_ofType.mp hThere
      have hAll : ∀ other ∈ s.skipped, kind other = t := fun other hOther =>
        (hSplit.one_type hRoom hSkipped hOther).trans hType
      refine ⟨k - s.taken.length, ?_⟩
      rw [ofType_eq_self hAll]
      exact ofType_eq_self fun other hOther => hAll other (List.mem_of_mem_take hOther)
  · have hNo : k - s.taken.length = 0 := by omega
    exact ⟨0, by rw [hNo]; rfl⟩

theorem Split.ofType_filled (hSplit : Split kind (share k) k done s) (t : τ) :
    ∃ n, ofType kind t (s.filled k) = (ofType kind t done).take n := by
  obtain ⟨n, hFill⟩ := hSplit.ofType_fill t
  refine ⟨share k + n, ?_⟩
  rw [filled, ofType_append, hFill, hSplit.taken, hSplit.skipped, List.take_add]

/-- What is skipped and does not fill the rest is of a type with its share at most; of a type with
more, all hits of the other types are taken. -/
theorem Split.others_taken (hSplit : Split kind (share k) k done s) {t : τ}
    (hMore : share k < (ofType kind t (s.filled k)).length) (hDone : hit ∈ done)
    (hOther : kind hit ≠ t) : hit ∈ s.taken := by
  rw [filled, ofType_append, List.length_append, hSplit.taken, List.length_take] at hMore
  -- A type has more than its share only through a hit that fills up.
  obtain ⟨extra, hExtra⟩ := List.exists_mem_of_length_pos
    (show 0 < (ofType kind t (s.skipped.take (k - s.taken.length))).length by omega)
  obtain ⟨hTake, hType⟩ := mem_ofType.mp hExtra
  have hRoom : s.taken.length < k := by
    have hSome := List.length_pos_of_mem hTake
    rw [List.length_take] at hSome
    omega
  rcases List.mem_append.mp (hSplit.perm.mem_iff.mpr hDone) with hTaken | hSkipped
  · exact hTaken
  · have hSame := hSplit.one_type hRoom (List.mem_of_mem_take hTake) hSkipped
    exact absurd (hSame.trans hType) hOther

theorem Split.length_filled (hSplit : Split kind cap k done s) :
    (s.filled k).length = min k done.length := by
  have hRoom := hSplit.room
  have hLength := hSplit.perm.length_eq
  rw [List.length_append] at hLength
  rw [filled, List.length_append, List.length_take]
  omega

theorem Split.nodup (hSplit : Split kind cap k done s) (hNodup : done.Nodup) :
    (s.taken ++ s.skipped).Nodup := hSplit.perm.nodup_iff.mpr hNodup

omit [DecidableEq τ] in
theorem filled_sublist (k : Nat) (s : Shares α τ) : (s.filled k).Sublist (s.taken ++ s.skipped) :=
  (List.Sublist.refl s.taken).append (List.take_sublist _ s.skipped)

theorem Split.filled_subset (hSplit : Split kind cap k done s) : s.filled k ⊆ done :=
  List.Subset.trans (filled_sublist k s).subset hSplit.perm.subset

end Shares

/-! ## The hits that are shown -/

/-- Nothing is left out for diversity alone: there are as many hits as there can be, a type has
more than its half only when the others have all of theirs, and of each type it is the first
ones that are shown. -/
structure Diverse (kind : α → τ) (hits : List α) (k : Nat) (shown : List α) : Prop where
  length : shown.length = min k hits.length
  once : shown.Nodup
  among : shown ⊆ hits
  crowded : ∀ t, (k + 1) / 2 < (ofType kind t shown).length →
    ∀ hit ∈ hits, kind hit ≠ t → hit ∈ shown
  earliest : ∀ t, ∃ n, (ofType kind t shown).Perm ((ofType kind t hits).take n)

variable {kind : α → τ} {le : α → α → Bool} {hits : List α} {k : Nat}

theorem share_eq (hK : 0 < k) : share k = (k + 1) / 2 := by
  unfold share
  omega

theorem capTypes_cases (kind : α → τ) (le : α → α → Bool) (hits : List α) (k : Nat) :
    (∃ before hit after s, hits = before ++ hit :: after ∧
        Shares.Split kind (share k) k before s ∧ s.taken.length = k ∧
        Shares.pass kind (share k) k {} hits = .inl s.taken ∧ capTypes kind le hits k = s.taken) ∨
      ∃ s, Shares.Split kind (share k) k hits s ∧
        Shares.pass kind (share k) k {} hits = .inr s ∧
        capTypes kind le hits k = (s.filled k).mergeSort le := by
  rcases Shares.pass_cases (Shares.Split.nil kind (share k) k) hits with
    ⟨before, hit, after, s, hHits, hSplit, hFull, hPass⟩ | ⟨s, hSplit, hPass⟩
  · exact .inl ⟨before, hit, after, s, hHits, hSplit, hFull, hPass, by rw [capTypes, hPass]⟩
  · exact .inr ⟨s, hSplit, hPass, by rw [capTypes, hPass]⟩

theorem Shares.Split.diverse {s : Shares α τ} (hSplit : Split kind (share k) k hits s)
    (hNodup : hits.Nodup) (hK : 0 < k) : Diverse kind hits k (s.filled k) where
  length := hSplit.length_filled
  once := (hSplit.nodup hNodup).sublist (filled_sublist k s)
  among := hSplit.filled_subset
  crowded t hMore hit hHit hOther := by
    rw [← share_eq hK] at hMore
    exact List.mem_append_left _ (hSplit.others_taken hMore hHit hOther)
  earliest t := by
    obtain ⟨n, hOf⟩ := hSplit.ofType_filled t
    exact ⟨n, hOf ▸ List.Perm.refl _⟩

/-- Sorting the hits that are shown does not matter. -/
theorem Diverse.perm {shown sorted : List α} (hDiverse : Diverse kind hits k shown)
    (hPerm : sorted.Perm shown) : Diverse kind hits k sorted where
  length := hPerm.length_eq.trans hDiverse.length
  once := hPerm.nodup_iff.mpr hDiverse.once
  among := List.Subset.trans hPerm.subset hDiverse.among
  crowded t hMore hit hHit hOther := by
    have hSame : (ofType kind t sorted).length = (ofType kind t shown).length :=
      (hPerm.filter _).length_eq
    exact hPerm.mem_iff.mpr (hDiverse.crowded t (hSame ▸ hMore) hit hHit hOther)
  earliest t := by
    obtain ⟨n, hOf⟩ := hDiverse.earliest t
    exact ⟨n, (hPerm.filter _).trans hOf⟩

theorem diverse_capTypes (hNodup : hits.Nodup) (hK : 0 < k) :
    Diverse kind hits k (capTypes kind le hits k) := by
  rcases capTypes_cases kind le hits k with
    ⟨before, hit, after, s, rfl, hSplit, hFull, -, hCap⟩ | ⟨s, hSplit, -, hCap⟩
  · rw [hCap]
    have hLength := hSplit.perm.length_eq
    have hBefore : before.Sublist (before ++ hit :: after) := List.sublist_append_left before _
    have hTaken : s.taken.Sublist (s.taken ++ s.skipped) := List.sublist_append_left s.taken _
    refine ⟨?_, (hSplit.nodup (hNodup.sublist hBefore)).sublist hTaken,
      fun shown hShown => hBefore.subset (hSplit.perm.subset (hTaken.subset hShown)),
      fun t hMore => ?_, fun t => ?_⟩
    · simp only [List.length_append, List.length_cons] at hLength ⊢
      omega
    · -- The first pass gives a type no more than its share.
      rw [← share_eq hK, hSplit.taken, List.length_take] at hMore
      omega
    · refine ⟨min (share k) (ofType kind t before).length, ?_⟩
      rw [hSplit.taken, ofType_append, List.take_append_of_le_length (Nat.min_le_right _ _),
        List.take_eq_take_min]
  · rw [hCap]
    exact (hSplit.diverse hNodup hK).perm (List.mergeSort_perm _ le)

end Search
end OctoForge
