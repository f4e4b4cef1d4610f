import OctoForge.Json.Loads

/-!
# The fuel of the reader

Every value takes at least one character, so that the fuel a text is read with is never used up.
-/

namespace OctoForge
namespace Json

variable {α : Type} {reprFloat : Text → Text} {t rest : Text} {n : Nat}

/-- Either some characters have been taken, or the text is refused for what is in it. -/
def Takes (t : Text) : Except LoadsError (α × Text) → Prop
  | .error error => error ≠ .fuel
  | .ok (_, rest) => rest.length < t.length

theorem Takes.mono {result : Except LoadsError (α × Text)} {longer : Text}
    (hTakes : Takes t result) (hLonger : t.length ≤ longer.length) : Takes longer result := by
  cases result with
  | error error => exact hTakes
  | ok found => exact Nat.lt_of_lt_of_le hTakes hLonger

theorem Takes.map {β : Type} {result : Except LoadsError (α × Text)} (hTakes : Takes t result)
    (f : α → β) : Takes t (result.map fun found => (f found.1, found.2)) := by
  cases result with
  | error error => exact hTakes
  | ok found => exact hTakes

/-- What is read next takes from what is left. -/
theorem Takes.bind {β : Type} {result : Except LoadsError (α × Text)}
    {next : α × Text → Except LoadsError (β × Text)} (hTakes : Takes t result)
    (hNext : ∀ value rest, rest.length < t.length → Takes t (next (value, rest))) :
    Takes t (result >>= next) := by
  cases result with
  | error error => exact hTakes
  | ok found =>
      obtain ⟨value, rest⟩ := found
      exact hNext value rest hTakes

theorem length_skip_le (t : Text) : (skip t).length ≤ t.length :=
  (List.dropWhile_suffix isSpace).length_le

/-! ## Strings -/

theorem length_decodeHex {found : Nat × Text} (hRead : decodeHex t = some found) :
    found.2.length < t.length := by
  match t with
  | a :: b :: c :: d :: rest =>
      rw [decodeHex] at hRead
      simp only [Option.bind_eq_bind, Option.bind_eq_some_iff, Option.pure_def] at hRead
      obtain ⟨_, -, _, -, _, -, _, -, hSame⟩ := hRead
      obtain rfl := Option.some.inj hSame
      simp only [List.length_cons]
      omega
  | [] => cases hRead
  | [_] => cases hRead
  | [_, _] => cases hRead
  | [_, _, _] => cases hRead

theorem takes_scanLow (high : Nat) (t : Text) : Takes t (scanLow high t) := by
  rw [scanLow.eq_def]
  split
  · rename_i rest
    cases hRead : decodeHex rest with
    | none => exact LoadsError.noConfusion
    | some found =>
        have hShorter := length_decodeHex hRead
        dsimp only
        split
        · simp only [Takes, List.length_cons]
          omega
        · exact LoadsError.noConfusion
  · exact LoadsError.noConfusion

theorem takes_scanCodePoint (t : Text) : Takes t (scanCodePoint t) := by
  rw [scanCodePoint]
  cases hRead : decodeHex t with
  | none => exact LoadsError.noConfusion
  | some found =>
      have hShorter := length_decodeHex hRead
      dsimp only
      split
      · exact (takes_scanLow found.1 found.2).mono hShorter.le
      split
      · exact LoadsError.noConfusion
      · exact hShorter

theorem takes_scanEscape (t : Text) : Takes t (scanEscape t) := by
  rw [scanEscape.eq_def]
  split
  case h_9 rest => exact (takes_scanCodePoint rest).mono (Nat.le_succ _)
  case h_10 => exact LoadsError.noConfusion
  all_goals exact Nat.lt_succ_self _

theorem takes_scanString (hFuel : t.length < n) : Takes t (scanString n t) := by
  induction n generalizing t with
  | zero => exact absurd hFuel (Nat.not_lt_zero _)
  | succ n ih =>
      cases t with
      | nil => exact LoadsError.noConfusion
      | cons c rest =>
          rw [List.length_cons] at hFuel
          rw [scanString]
          split
          · exact Nat.lt_succ_self _
          split
          · refine ((takes_scanEscape rest).mono (Nat.le_succ _)).bind fun d behind hBehind => ?_
            rw [List.length_cons] at hBehind
            exact ((ih (by omega)).mono (by rw [List.length_cons]; omega)).bind
              fun found left hLeft => hLeft
          split
          · exact LoadsError.noConfusion
          · exact ((ih (by omega)).mono (Nat.le_succ _)).bind fun found behind hBehind => hBehind

/-! ## Values -/

theorem length_takeDigits_le (t : Text) : (takeDigits t).2.length ≤ t.length :=
  (List.dropWhile_suffix Char.isDigit).length_le

theorem length_scanNatural {found : Text × Text} (hScan : scanNatural t = some found) :
    found.2.length < t.length := by
  cases t with
  | nil => cases hScan
  | cons c rest =>
      rw [scanNatural] at hScan
      split at hScan
      · obtain rfl := Option.some.inj hScan
        exact Nat.lt_succ_self _
      split at hScan
      · obtain rfl := Option.some.inj hScan
        exact Nat.lt_succ_of_le (length_takeDigits_le rest)
      · cases hScan

theorem length_scanInteger {found : Text × Text} (hScan : scanInteger t = some found) :
    found.2.length < t.length := by
  rw [scanInteger.eq_def] at hScan
  split at hScan
  · obtain ⟨natural, hNatural, rfl⟩ := Option.map_eq_some_iff.mp hScan
    exact (length_scanNatural hNatural).trans (Nat.lt_succ_self _)
  · exact length_scanNatural hScan

theorem length_scanFraction_le (t : Text) : (scanFraction t).2.length ≤ t.length := by
  rw [scanFraction.eq_def]
  split
  · rename_i rest
    split
    · exact Nat.le_refl _
    · exact (length_takeDigits_le rest).trans (Nat.le_succ _)
  · exact Nat.le_refl _

theorem length_scanSign_le (t : Text) : (scanSign t).2.length ≤ t.length := by
  rw [scanSign.eq_def]
  split
  · exact Nat.le_succ _
  · exact Nat.le_succ _
  · exact Nat.le_refl _

theorem length_scanExponent_le (t : Text) : (scanExponent t).2.length ≤ t.length := by
  rw [scanExponent.eq_def]
  split
  · exact Nat.le_refl _
  · rename_i e rest
    split
    · split
      · exact Nat.le_refl _
      · exact ((length_takeDigits_le _).trans (length_scanSign_le rest)).trans (Nat.le_succ _)
    · exact Nat.le_refl _

theorem length_scanNumber {found : Json × Text} (hScan : scanNumber reprFloat t = some found) :
    found.2.length < t.length := by
  rw [scanNumber] at hScan
  obtain ⟨⟨integer, behind⟩, hInteger, rfl⟩ := Option.map_eq_some_iff.mp hScan
  have hRest := ((length_scanExponent_le _).trans (length_scanFraction_le behind)).trans_lt
    (length_scanInteger hInteger)
  dsimp only
  split
  · exact hRest
  · exact hRest

theorem length_scanWord {words : List Word} (hWords : ∀ word ∈ words, word.1 ≠ [])
    {found : Json × Text} (hScan : scanWord words t = some found) : found.2.length < t.length := by
  rw [scanWord] at hScan
  obtain ⟨word, hWord, rfl⟩ := Option.map_eq_some_iff.mp hScan
  have hStart : word.1.isPrefixOf t = true := by simpa using List.find?_some hWord
  have hLength := (List.isPrefixOf_iff_prefix.mp hStart).length_le
  have hSome := List.length_pos_iff.mpr (hWords word (List.mem_of_find?_eq_some hWord))
  dsimp only
  rw [List.length_drop]
  omega

theorem takes_scanPlain (t : Text) : Takes t (scanPlain reprFloat t) := by
  rw [scanPlain]
  cases hFound : (scanWord literals t).or ((scanNumber reprFloat t).or (scanWord constants t)) with
  | none => exact LoadsError.noConfusion
  | some found =>
      rcases Option.or_eq_some_iff.mp hFound with hWord | ⟨-, hRest⟩
      · exact length_scanWord (by decide) hWord
      rcases Option.or_eq_some_iff.mp hRest with hNumber | ⟨-, hWord⟩
      · exact length_scanNumber hNumber
      · exact length_scanWord (by decide) hWord

/-- So much fuel suffices for every scanner. -/
structure Suffices (reprFloat : Text → Text) (n : Nat) : Prop where
  value : ∀ t : Text, 2 * t.length < n → Takes t (scanValue reprFloat n t)
  items : ∀ t : Text, 2 * t.length + 1 < n → Takes t (scanItems reprFloat n t)
  members : ∀ t : Text, 2 * t.length + 1 < n → Takes t (scanMembers reprFloat n t)

theorem takes_scanValue (hFueled : Suffices reprFloat n) (t : Text)
    (hFuel : 2 * t.length < n + 1) : Takes t (scanValue reprFloat (n + 1) t) := by
  cases t with
  | nil => exact LoadsError.noConfusion
  | cons c rest =>
      have hSkip := length_skip_le rest
      rw [List.length_cons] at hFuel
      rw [scanValue]
      split
      · exact ((takes_scanString (t := rest) (by omega)).mono (Nat.le_succ _)).map
          fun found => Json.string (String.ofList found)
      split
      · split
        · rename_i behind hEnd
          rw [hEnd, List.length_cons] at hSkip
          simp only [Takes, List.length_cons]
          omega
        · exact ((hFueled.members _ (by omega)).mono (hSkip.trans (Nat.le_succ _))).map
            fun found => Json.object (Dict.ofPairs found)
      split
      · split
        · rename_i behind hEnd
          rw [hEnd, List.length_cons] at hSkip
          simp only [Takes, List.length_cons]
          omega
        · exact ((hFueled.items _ (by omega)).mono (hSkip.trans (Nat.le_succ _))).map Json.array
      · exact takes_scanPlain _

theorem takes_scanItems (hFueled : Suffices reprFloat n) (t : Text)
    (hFuel : 2 * t.length + 1 < n + 1) : Takes t (scanItems reprFloat (n + 1) t) := by
  rw [scanItems]
  refine (hFueled.value t (by omega)).bind fun item rest hRest => ?_
  have hSkip := length_skip_le rest
  dsimp only
  split
  · rename_i behind hEnd
    rw [hEnd, List.length_cons] at hSkip
    simp only [Takes, pure, Except.pure]
    omega
  · rename_i behind hMore
    rw [hMore, List.length_cons] at hSkip
    have hNext := length_skip_le behind
    exact ((hFueled.items (skip behind) (by omega)).mono (by omega)).bind
      fun items left hLeft => hLeft
  · exact LoadsError.noConfusion

theorem takes_scanMembers (hFueled : Suffices reprFloat n) (t : Text)
    (hFuel : 2 * t.length + 1 < n + 1) : Takes t (scanMembers reprFloat (n + 1) t) := by
  rw [scanMembers.eq_def]
  split
  · rename_i hZero
    cases hZero
  · rename_i m rest hFuelIs
    obtain rfl := Nat.succ.inj hFuelIs
    rw [List.length_cons] at hFuel
    refine ((takes_scanString (t := rest) (by omega)).mono (Nat.le_succ _)).bind
      fun name behind hBehind => ?_
    have hSkip := length_skip_le behind
    rw [List.length_cons] at hBehind
    dsimp only
    split
    · rename_i colon hColon
      rw [hColon, List.length_cons] at hSkip
      have hNext := length_skip_le colon
      refine ((hFueled.value (skip colon) (by omega)).mono ?_).bind fun value left hLeft => ?_
      · rw [List.length_cons]
        omega
      have hAfter := length_skip_le left
      dsimp only
      rw [List.length_cons] at hLeft
      split
      · rename_i ended hEnd
        rw [hEnd, List.length_cons] at hAfter
        simp only [Takes, pure, Except.pure, List.length_cons]
        omega
      · rename_i more hMore
        rw [hMore, List.length_cons] at hAfter
        have hLast := length_skip_le more
        refine ((hFueled.members (skip more) (by omega)).mono ?_).bind fun members last hIs => hIs
        rw [List.length_cons]
        omega
      · exact LoadsError.noConfusion
    · exact LoadsError.noConfusion
  · exact LoadsError.noConfusion

theorem suffices_all (n : Nat) : Suffices reprFloat n := by
  induction n with
  | zero =>
      exact ⟨fun _ hFuel => absurd hFuel (Nat.not_lt_zero _),
        fun _ hFuel => absurd hFuel (Nat.not_lt_zero _),
        fun _ hFuel => absurd hFuel (Nat.not_lt_zero _)⟩
  | succ n ih => exact ⟨takes_scanValue ih, takes_scanItems ih, takes_scanMembers ih⟩

/-- The fuel is never used up. -/
theorem loads_ne_fuel (t : Text) : loads reprFloat t ≠ .error .fuel := by
  rw [loads]
  split
  · intro hSame
    cases hSame
  · have hSkip := length_skip_le t
    have hTakes : Takes (skip t) (scanValue reprFloat (2 * t.length + 1) (skip t)) :=
      (suffices_all _).value (skip t) (by omega)
    cases hScan : scanValue reprFloat (2 * t.length + 1) (skip t) with
    | error error =>
        rw [hScan] at hTakes
        rintro hSame
        exact hTakes (Except.error.inj hSame)
    | ok found =>
        change (if (skip found.2).isEmpty then _ else _) ≠ _
        split
        · intro hSame
          cases hSame
        · intro hSame
          cases hSame

end Json
end OctoForge
