import OctoForge.Json.Loads

/-!
# What is printed is read

`json.loads` of what `json.dumps` has printed, with `ensure_ascii` or without.
-/

namespace OctoForge
namespace Json

variable {post : Char → Text} {t rest : Text} {n : Nat} {c : Char}

-- What holds of the characters of a text is decided by trying these, and not all that there are.
instance decidableForallMem (t : Text) (p : Char → Prop) [DecidablePred p] :
    Decidable (∀ c ∈ t, p c) := List.decidableBAll p t

/-! ## Strings -/

theorem hexValue_digitChar : ∀ {d : Nat}, d < 16 → hexValue (Nat.digitChar d) = some d := by
  decide

theorem decodeHex_hexDigits (hSmall : n < 0x10000) (rest : Text) :
    decodeHex (hexDigits n ++ rest) = some (n, rest) := by
  simp only [hexDigits, List.cons_append, List.nil_append, decodeHex]
  rw [hexValue_digitChar (by omega), hexValue_digitChar (by omega), hexValue_digitChar (by omega),
    hexValue_digitChar (by omega)]
  simp only [Option.bind_eq_bind, Option.bind_some, Option.pure_def, Option.some.injEq,
    Prod.mk.injEq, and_true]
  omega

/-- How the characters beyond ASCII may be written in a string. -/
structure Transparent (post : Char → Text) : Prop where
  ascii : ∀ c, c.toNat < 127 → post c = [c]
  some : ∀ c, post c ≠ []
  read : ∀ c, 127 ≤ c.toNat → ∀ n rest, scanString (n + 1) (post c ++ rest) =
    (scanString n rest).map fun found => (c :: found.1, found.2)

/-- A character that is not escaped. -/
theorem scanString_plain (hQuote : c ≠ '"') (hBackslash : c ≠ '\\') (hPrinted : 32 ≤ c.toNat) :
    scanString (n + 1) (c :: rest) =
      (scanString n rest).map fun found => (c :: found.1, found.2) := by
  rw [scanString, if_neg hQuote, if_neg hBackslash, if_neg (Nat.not_lt.mpr hPrinted)]
  rfl

/-- A character that is escaped. -/
theorem scanString_escaped {code : Text} (hRead : scanEscape (code ++ rest) = .ok (c, rest)) :
    scanString (n + 1) ('\\' :: code ++ rest) =
      (scanString n rest).map fun found => (c :: found.1, found.2) := by
  rw [List.cons_append, scanString, if_neg (by decide), if_pos rfl, hRead]
  rfl

theorem scanEscape_hexDigits (hSmall : n < 0x10000) (hHigh : ¬IsHigh n)
    (hLow : ¬IsLow n) :
    scanEscape ('u' :: hexDigits n ++ rest) = .ok (Char.ofNat n, rest) := by
  rw [List.cons_append, scanEscape, scanCodePoint, decodeHex_hexDigits hSmall]
  exact (if_neg hHigh).trans (if_neg hLow)

theorem scanEscape_pair {high low : Nat} (hHigh : IsHigh high) (hLow : IsLow low) :
    scanEscape ('u' :: hexDigits high ++ unicodeEscape low ++ rest) =
      .ok (Char.ofNat (joinSurrogates high low), rest) := by
  rw [List.append_assoc, List.cons_append, scanEscape, scanCodePoint,
    decodeHex_hexDigits (by omega)]
  refine (if_pos hHigh).trans ?_
  rw [unicodeEscape, List.cons_append, List.cons_append, scanLow, decodeHex_hexDigits (by omega)]
  exact if_pos hLow

theorem transparent_plain : Transparent fun c => [c] where
  ascii _ _ := rfl
  some c := List.cons_ne_nil c []
  read c hLarge n rest := by
    refine scanString_plain ?_ ?_ (by omega)
    · rintro rfl
      exact absurd hLarge (by decide)
    · rintro rfl
      exact absurd hLarge (by decide)

theorem toNat_cases (c : Char) : c.toNat < 0xD800 ∨ 0xDFFF < c.toNat ∧ c.toNat < 0x110000 :=
  c.valid

/-- Twenty bits, ten of them in each half. -/
theorem joinSurrogates_split (m : Nat) :
    joinSurrogates (0xD800 + m / 0x400) (0xDC00 + m % 0x400) = 0x10000 + m := by
  unfold joinSurrogates
  omega

theorem transparent_asciiOf : Transparent asciiOf where
  ascii c hSmall := if_pos hSmall
  some c := by
    rw [asciiOf]
    split
    · exact List.cons_ne_nil c []
    · split
      · exact List.cons_ne_nil _ _
      · exact List.cons_ne_nil _ _
  read c hLarge n rest := by
    have hCases := toNat_cases c
    rw [asciiOf, if_neg (Nat.not_lt.mpr hLarge)]
    split
    · rename_i hBasic
      refine scanString_escaped ?_
      rw [scanEscape_hexDigits hBasic (by omega) (by omega), Char.ofNat_toNat]
    · rename_i hBeyond
      have hRead : scanEscape ('u' :: hexDigits (0xD800 + (c.toNat - 0x10000) / 0x400) ++
          unicodeEscape (0xDC00 + (c.toNat - 0x10000) % 0x400) ++ rest) = .ok (c, rest) := by
        rw [scanEscape_pair (by omega) (by omega), joinSurrogates_split,
          Nat.add_sub_cancel' (Nat.not_lt.mp hBeyond), Char.ofNat_toNat]
      exact scanString_escaped hRead

/-- What is written in ASCII stays as it is. -/
theorem Transparent.flatMap (hPost : Transparent post) (hAscii : ∀ c ∈ t, c.toNat < 127) :
    t.flatMap post = t := by
  induction t with
  | nil => rfl
  | cons c rest ih =>
      rw [List.flatMap_cons, hPost.ascii c (hAscii c List.mem_cons_self),
        ih fun d hMem => hAscii d (List.mem_cons_of_mem c hMem)]
      rfl

/-- A character with an escape of its own. -/
theorem scanString_coded (hPost : Transparent post) (code : Text) (hCode : escape c = '\\' :: code)
    (hAscii : ∀ d ∈ code, d.toNat < 127)
    (hRead : ∀ rest, scanEscape (code ++ rest) = .ok (c, rest)) :
    scanString (n + 1) ((escape c).flatMap post ++ rest) =
      (scanString n rest).map fun found => (c :: found.1, found.2) := by
  rw [hCode, hPost.flatMap (List.forall_mem_cons.mpr ⟨by decide, hAscii⟩)]
  exact scanString_escaped (hRead rest)

theorem hexDigits_of_control (hControl : n < 32) :
    hexDigits n = ['0', '0', Nat.digitChar (n / 16), Nat.digitChar (n % 16)] := by
  have hFirst : n / 4096 = 0 := by omega
  have hSecond : n / 256 % 16 = 0 := by omega
  have hThird : n / 16 % 16 = n / 16 := by omega
  rw [hexDigits, hFirst, hSecond, hThird]
  rfl

theorem ascii_hexDigits (hControl : n < 32) : ∀ d ∈ hexDigits n, d.toNat < 127 := by
  have hHex : ∀ d < 16, (Nat.digitChar d).toNat < 127 := by decide
  rw [hexDigits_of_control hControl]
  simp only [List.forall_mem_cons]
  exact ⟨by decide, by decide, hHex _ (by omega), hHex _ (by omega), List.forall_mem_nil _⟩

/-- A character of a string. -/
theorem scanString_escape (hPost : Transparent post) (c : Char) :
    scanString (n + 1) ((escape c).flatMap post ++ rest) =
      (scanString n rest).map fun found => (c :: found.1, found.2) := by
  by_cases hQuote : c = '"'
  · subst hQuote
    exact scanString_coded hPost ['"'] rfl (by decide) fun _ => rfl
  by_cases hBackslash : c = '\\'
  · subst hBackslash
    exact scanString_coded hPost ['\\'] rfl (by decide) fun _ => rfl
  by_cases hNewline : c = '\n'
  · subst hNewline
    exact scanString_coded hPost ['n'] rfl (by decide) fun _ => rfl
  by_cases hReturn : c = '\r'
  · subst hReturn
    exact scanString_coded hPost ['r'] rfl (by decide) fun _ => rfl
  by_cases hTab : c = '\t'
  · subst hTab
    exact scanString_coded hPost ['t'] rfl (by decide) fun _ => rfl
  have hCode : escape c = if c.toNat = 8 then ['\\', 'b'] else if c.toNat = 12 then ['\\', 'f']
      else if c.toNat < 32 then
        ['\\', 'u', '0', '0', Nat.digitChar (c.toNat / 16), Nat.digitChar (c.toNat % 16)]
      else [c] := by
    rw [escape]
    all_goals assumption
  split at hCode
  · rename_i hBack
    refine scanString_coded hPost _ hCode (by decide) fun _ => ?_
    rw [List.singleton_append, scanEscape, ← hBack, Char.ofNat_toNat]
  split at hCode
  · rename_i hFeed
    refine scanString_coded hPost _ hCode (by decide) fun _ => ?_
    rw [List.singleton_append, scanEscape, ← hFeed, Char.ofNat_toNat]
  split at hCode
  · rename_i hControl
    rw [← hexDigits_of_control hControl] at hCode
    refine scanString_coded hPost _ hCode
      (List.forall_mem_cons.mpr ⟨by decide, ascii_hexDigits hControl⟩) fun _ => ?_
    rw [scanEscape_hexDigits (by omega) (by omega) (by omega), Char.ofNat_toNat]
  · rename_i hPrinted
    rw [hCode, List.flatMap_singleton]
    by_cases hSmall : c.toNat < 127
    · rw [hPost.ascii c hSmall]
      exact scanString_plain hQuote hBackslash (Nat.not_lt.mp hPrinted)
    · exact hPost.read c (Nat.not_lt.mp hSmall) n rest

theorem scanString_flatMap (hPost : Transparent post) (t rest : Text) (hFuel : t.length < n) :
    scanString n ((t.flatMap escape).flatMap post ++ '"' :: rest) = .ok (t, rest) := by
  induction t generalizing n with
  | nil =>
      obtain ⟨n, rfl⟩ := Nat.exists_eq_succ_of_ne_zero (Nat.ne_of_gt hFuel)
      rfl
  | cons c t ih =>
      obtain ⟨n, rfl⟩ := Nat.exists_eq_succ_of_ne_zero (Nat.ne_of_gt (Nat.zero_lt_of_lt hFuel))
      rw [List.flatMap_cons, List.flatMap_append, List.append_assoc, scanString_escape hPost,
        ih (Nat.lt_of_succ_lt_succ hFuel)]
      rfl

theorem escape_ne_nil (c : Char) : escape c ≠ [] := by
  rw [escape.eq_def]
  split
  all_goals try exact List.cons_ne_nil _ _
  repeat' split
  all_goals exact List.cons_ne_nil _ _

theorem length_le_flatMap {f : Char → Text} (hSome : ∀ c, f c ≠ []) (t : Text) :
    t.length ≤ (t.flatMap f).length := by
  induction t with
  | nil => exact Nat.zero_le _
  | cons c rest ih =>
      have hFirst := List.length_pos_iff.mpr (hSome c)
      rw [List.flatMap_cons, List.length_append, List.length_cons]
      omega

/-- A string takes at least as much room as it has characters. -/
theorem length_le_code (hPost : Transparent post) (t : Text) :
    t.length ≤ ((t.flatMap escape).flatMap post).length :=
  (length_le_flatMap escape_ne_nil t).trans (length_le_flatMap hPost.some _)

/-! ## Numbers -/

/-- The characters a number may go on with. -/
def isNumeral (c : Char) : Bool := c.isDigit || ['.', 'e', 'E', '+', '-'].contains c

/-- A number before this text is over. -/
def Stops (rest : Text) : Prop := ∀ c ∈ rest.head?, isNumeral c = false

theorem Stops.not_digit {rest : Text} (hStops : Stops (c :: rest)) : c.isDigit = false :=
  (Bool.or_eq_false_iff.mp (hStops c rfl)).1

theorem Stops.ne {rest : Text} (hStops : Stops (c :: rest)) {d : Char}
    (hNumeral : isNumeral d = true) : c ≠ d := by
  rintro rfl
  rw [hStops c rfl] at hNumeral
  exact absurd hNumeral Bool.false_ne_true

theorem takeDigits_append (hStops : Stops rest) (t : Text) :
    takeDigits (t ++ rest) = ((takeDigits t).1, (takeDigits t).2 ++ rest) := by
  induction t with
  | nil =>
      cases rest with
      | nil => rfl
      | cons c rest =>
          simp [takeDigits, hStops.not_digit]
  | cons c t ih =>
      cases hDigit : c.isDigit with
      | true =>
          simp only [takeDigits, Prod.mk.injEq] at ih ⊢
          simp [hDigit, ih]
      | false => simp [takeDigits, hDigit]

theorem scanNatural_append {digits left : Text} (hStops : Stops rest)
    (hScan : scanNatural t = some (digits, left)) :
    scanNatural (t ++ rest) = some (digits, left ++ rest) := by
  cases t with
  | nil => cases hScan
  | cons c t =>
      rw [scanNatural] at hScan
      rw [List.cons_append, scanNatural, takeDigits_append hStops]
      split
      · rename_i hZero
        rw [if_pos hZero] at hScan
        obtain ⟨rfl, rfl⟩ := Prod.mk.inj (Option.some.inj hScan)
        rfl
      · rename_i hOther
        rw [if_neg hOther] at hScan
        split
        · rename_i hDigit
          rw [if_pos hDigit] at hScan
          obtain ⟨rfl, rfl⟩ := Prod.mk.inj (Option.some.inj hScan)
          rfl
        · rename_i hNone
          rw [if_neg hNone] at hScan
          cases hScan

theorem scanInteger_of_ne_minus (hPlain : c ≠ '-') :
    scanInteger (c :: t) = scanNatural (c :: t) := by
  rw [scanInteger]
  rintro rest hSame
  exact hPlain (List.cons.inj hSame).1

theorem scanInteger_append {digits left : Text} (hStops : Stops rest)
    (hScan : scanInteger t = some (digits, left)) :
    scanInteger (t ++ rest) = some (digits, left ++ rest) := by
  cases t with
  | nil => cases hScan
  | cons c t =>
      by_cases hMinus : c = '-'
      · subst hMinus
        rw [scanInteger] at hScan
        obtain ⟨⟨natural, behind⟩, hNatural, hSame⟩ := Option.map_eq_some_iff.mp hScan
        obtain ⟨rfl, rfl⟩ := Prod.mk.inj hSame
        rw [List.cons_append, scanInteger, scanNatural_append hStops hNatural]
        rfl
      · rw [scanInteger_of_ne_minus hMinus] at hScan
        rw [List.cons_append, scanInteger_of_ne_minus hMinus]
        exact scanNatural_append hStops hScan

theorem scanFraction_of_ne (hOther : c ≠ '.') : scanFraction (c :: t) = ([], c :: t) := by
  rw [scanFraction]
  rintro rest hSame
  exact hOther (List.cons.inj hSame).1

theorem scanFraction_append (hStops : Stops rest) (t : Text) :
    scanFraction (t ++ rest) = ((scanFraction t).1, (scanFraction t).2 ++ rest) := by
  cases t with
  | nil =>
      cases rest with
      | nil => rfl
      | cons c rest => exact scanFraction_of_ne (hStops.ne (by decide))
  | cons c t =>
      by_cases hPoint : c = '.'
      · subst hPoint
        rw [List.cons_append, scanFraction, scanFraction, takeDigits_append hStops]
        split
        · rfl
        · rfl
      · rw [List.cons_append, scanFraction_of_ne hPoint, scanFraction_of_ne hPoint]
        rfl

theorem scanSign_of_ne (hMinus : c ≠ '-') (hPlus : c ≠ '+') : scanSign (c :: t) = ([], c :: t) := by
  rw [scanSign]
  · rintro rest hSame
    exact hMinus (List.cons.inj hSame).1
  · rintro rest hSame
    exact hPlus (List.cons.inj hSame).1

theorem scanSign_append (hStops : Stops rest) (t : Text) :
    scanSign (t ++ rest) = ((scanSign t).1, (scanSign t).2 ++ rest) := by
  cases t with
  | nil =>
      cases rest with
      | nil => rfl
      | cons c rest => exact scanSign_of_ne (hStops.ne (by decide)) (hStops.ne (by decide))
  | cons c t =>
      by_cases hMinus : c = '-'
      · subst hMinus
        rfl
      by_cases hPlus : c = '+'
      · subst hPlus
        rfl
      rw [List.cons_append, scanSign_of_ne hMinus hPlus, scanSign_of_ne hMinus hPlus]
      rfl

theorem scanExponent_append (hStops : Stops rest) (t : Text) :
    scanExponent (t ++ rest) = ((scanExponent t).1, (scanExponent t).2 ++ rest) := by
  cases t with
  | nil =>
      cases rest with
      | nil => rfl
      | cons c rest =>
          have hNone : ¬(c = 'e' ∨ c = 'E') :=
            not_or.mpr ⟨hStops.ne (by decide), hStops.ne (by decide)⟩
          exact if_neg hNone
  | cons c t =>
      rw [List.cons_append, scanExponent, scanExponent, scanSign_append hStops,
        takeDigits_append hStops]
      split
      · split
        · rfl
        · rfl
      · rfl

variable {reprFloat : Text → Text} {value : Json}

/-- A number is read in the same way whatever follows it. -/
theorem scanNumber_append {left : Text} (hStops : Stops rest)
    (hScan : scanNumber reprFloat t = some (value, left)) :
    scanNumber reprFloat (t ++ rest) = some (value, left ++ rest) := by
  rw [scanNumber] at hScan ⊢
  obtain ⟨⟨integer, behind⟩, hInteger, hSame⟩ := Option.map_eq_some_iff.mp hScan
  rw [scanInteger_append hStops hInteger, Option.map_some]
  simp only [scanFraction_append hStops, scanExponent_append hStops] at hSame ⊢
  split
  · rename_i hWhole
    rw [if_pos hWhole] at hSame
    obtain ⟨rfl, rfl⟩ := Prod.mk.inj hSame
    rfl
  · rename_i hFloat
    rw [if_neg hFloat] at hSame
    obtain ⟨rfl, rfl⟩ := Prod.mk.inj hSame
    rfl

/-- A number starts with a digit or a minus. -/
theorem head_of_scanNumber {found : Json × Text} (hScan : scanNumber reprFloat t = some found) :
    ∃ c rest, t = c :: rest ∧ (c = '-' ∨ c.isDigit = true) := by
  rw [scanNumber] at hScan
  obtain ⟨integer, hInteger, -⟩ := Option.map_eq_some_iff.mp hScan
  cases t with
  | nil => cases hInteger
  | cons c t =>
      refine ⟨c, t, rfl, ?_⟩
      by_cases hMinus : c = '-'
      · exact .inl hMinus
      rw [scanInteger_of_ne_minus hMinus, scanNatural] at hInteger
      split at hInteger
      · rename_i hZero
        exact .inr (hZero ▸ rfl)
      split at hInteger
      · rename_i hDigit
        exact .inr hDigit
      · cases hInteger

/-- No digit is in front that does not count. -/
theorem head_toDigits (hPos : 0 < n) :
    ∃ c rest, Nat.toDigits 10 n = c :: rest ∧ c ≠ '0' ∧ ∀ d ∈ c :: rest, d.isDigit = true := by
  have hDigits : ∀ d ∈ Nat.toDigits 10 n, d.isDigit = true := fun _ hMem =>
    Nat.isDigit_of_mem_toDigits (by decide) (by decide) hMem
  suffices hHead : ∀ c ∈ (Nat.toDigits 10 n).head?, c ≠ '0' by
    cases hText : Nat.toDigits 10 n with
    | nil => exact absurd hText Nat.toDigits_ne_nil
    | cons c rest =>
        rw [hText] at hHead hDigits
        exact ⟨c, rest, rfl, hHead c rfl, hDigits⟩
  induction n using Nat.strong_induction_on with
  | _ n ih =>
      rcases Nat.lt_or_ge n 10 with hSmall | hLarge
      · rw [Nat.toDigits_of_lt_base hSmall]
        rintro c hHead
        obtain rfl := Option.some.inj hHead
        have hNonzero : ∀ d < 10, 0 < d → Nat.digitChar d ≠ '0' := by decide
        exact hNonzero n hSmall hPos
      · have hTenth : 0 < n / 10 := Nat.div_pos hLarge (by decide)
        rw [Nat.toDigits_of_base_le (by decide) hLarge,
          List.head?_append_of_ne_nil _ Nat.toDigits_ne_nil]
        exact ih (n / 10) (Nat.div_lt_self hPos (by decide)) hTenth
          fun _ hMem => Nat.isDigit_of_mem_toDigits (by decide) (by decide) hMem

theorem takeDigits_of_all (hDigits : ∀ d ∈ t, d.isDigit = true) : takeDigits t = (t, []) := by
  rw [takeDigits, List.takeWhile_eq_self_iff.mpr hDigits, List.dropWhile_eq_nil_iff.mpr hDigits]

theorem scanNatural_toDigits (n : Nat) :
    scanNatural (Nat.toDigits 10 n) = some (Nat.toDigits 10 n, []) := by
  rcases Nat.eq_zero_or_pos n with rfl | hPos
  · rw [Nat.toDigits_zero]
    rfl
  · obtain ⟨c, rest, hText, hNonzero, hDigits⟩ := head_toDigits hPos
    obtain ⟨hFirst, hRest⟩ := List.forall_mem_cons.mp hDigits
    rw [hText, scanNatural, if_neg hNonzero, if_pos hFirst, takeDigits_of_all hRest]

theorem scanNumber_ofInt (value : Int) :
    scanNumber reprFloat (Text.ofInt value) = some (.number value, []) := by
  have hInteger : scanInteger (Text.ofInt value) = some (Text.ofInt value, []) := by
    rw [Text.ofInt, Int.toString_eq_repr]
    cases value with
    | ofNat n =>
        show scanInteger n.repr.toList = some (n.repr.toList, [])
        rw [Nat.toList_repr]
        cases hText : Nat.toDigits 10 n with
        | nil => exact absurd hText Nat.toDigits_ne_nil
        | cons c rest =>
            rw [scanInteger_of_ne_minus, ← hText, scanNatural_toDigits]
            rintro rfl
            have hMinus : '-' ∈ Nat.toDigits 10 n := hText ▸ List.mem_cons_self
            exact absurd (Nat.isDigit_of_mem_toDigits (by decide) (by decide) hMinus) (by decide)
    | negSucc n =>
        show scanInteger ("-" ++ n.succ.repr).toList = some (("-" ++ n.succ.repr).toList, [])
        have hMinus : "-".toList = ['-'] := by decide
        rw [String.toList_append, Nat.toList_repr, hMinus, List.singleton_append, scanInteger,
          scanNatural_toDigits]
        rfl
  rw [scanNumber, hInteger]
  show some (Json.number ((Text.readInt? (Text.ofInt value)).getD 0), []) = _
  rw [Text.readInt?_ofInt]
  rfl

/-! ## Values -/

section Proper

variable (reprFloat : Text → Text)

/-- What `repr` writes for a float. -/
structure IsFloat (digits : Text) : Prop where
  printed : ∀ c ∈ digits, 32 ≤ c.toNat
  ascii : ∀ c ∈ digits, c.toNat < 127
  read : digits ∈ ["NaN".toList, "Infinity".toList, "-Infinity".toList] ∨
    scanNumber reprFloat digits = some (.float digits, [])

/-- What a dictionary of Python may hold: no name comes twice. -/
inductive Proper : Json → Prop
  | null : Proper .null
  | bool (value : Bool) : Proper (.bool value)
  | number (value : Int) : Proper (.number value)
  | float {digits : Text} (isFloat : IsFloat reprFloat digits) : Proper (.float digits)
  | string (value : String) : Proper (.string value)
  | array {items : List Json} (proper : ∀ item ∈ items, Proper item) : Proper (.array items)
  | object {members : List (String × Json)} (names : (members.map (·.1)).Nodup)
      (proper : ∀ member ∈ members, Proper member.2) : Proper (.object members)

end Proper

@[simp] theorem proper_null : Proper reprFloat .null := .null

@[simp] theorem proper_bool (value : Bool) : Proper reprFloat (.bool value) := .bool value

@[simp] theorem proper_number (value : Int) : Proper reprFloat (.number value) := .number value

@[simp] theorem proper_string (value : String) : Proper reprFloat (.string value) := .string value

@[simp] theorem proper_array {items : List Json} :
    Proper reprFloat (.array items) ↔ ∀ item ∈ items, Proper reprFloat item := by
  constructor
  · intro hProper
    cases hProper with
    | array proper => exact proper
  · exact .array

@[simp] theorem proper_object {members : List (String × Json)} :
    Proper reprFloat (.object members) ↔
      (members.map (·.1)).Nodup ∧ ∀ member ∈ members, Proper reprFloat member.2 := by
  constructor
  · intro hProper
    cases hProper with
    | object names proper => exact ⟨names, proper⟩
  · rintro ⟨hNames, hMembers⟩
    exact .object hNames hMembers

/-- A value that is no word is read as a number. -/
theorem scanPlain_of_scanNumber {found : Json × Text}
    (hScan : scanNumber reprFloat t = some found) : scanPlain reprFloat t = .ok found := by
  obtain ⟨c, rest, rfl, hHead⟩ := head_of_scanNumber hScan
  have hWord : scanWord literals (c :: rest) = none := by
    have hOther : ∀ d : Char, d ≠ '-' → d.isDigit = false → (d == c) = false := by
      intro d hMinus hDigit
      refine beq_eq_false_iff_ne.mpr ?_
      rintro rfl
      rcases hHead with rfl | hIs
      · exact hMinus rfl
      · exact absurd (hDigit.symm.trans hIs) Bool.false_ne_true
    simp [scanWord, literals, List.isPrefixOf, hOther]
  rw [scanPlain, hWord, hScan]
  rfl

/-- Where a value starts that is neither a string nor an array nor an object. -/
theorem scanValue_of_plain (hQuote : c ≠ '"') (hObject : c ≠ '{') (hArray : c ≠ '[') :
    scanValue reprFloat (n + 1) (c :: t) = scanPlain reprFloat (c :: t) := by
  rw [scanValue, if_neg hQuote, if_neg hObject, if_neg hArray]

theorem scanValue_of_scanNumber {found : Json × Text}
    (hScan : scanNumber reprFloat t = some found) : scanValue reprFloat (n + 1) t = .ok found := by
  have hPlain := scanPlain_of_scanNumber hScan
  obtain ⟨c, rest, rfl, hHead⟩ := head_of_scanNumber hScan
  rw [← hPlain]
  refine scanValue_of_plain ?_ ?_ ?_
  all_goals
    rintro rfl
    revert hHead
    decide

theorem skip_of_not_space (hStart : isSpace c = false) : skip (c :: t) = c :: t := by
  rw [skip, List.dropWhile_cons_of_neg (by simp [hStart])]

theorem toNat_of_isDigit (hDigit : c.isDigit = true) : 48 ≤ c.toNat ∧ c.toNat ≤ 57 :=
  Char.isDigit_iff_toNat.mp hDigit

/-- A value is not printed with white space in front, nor with the end of an array. -/
abbrev StartsValue (c : Char) : Prop := isSpace c = false ∧ c ≠ ']' ∧ c.toNat < 127

theorem startsValue_of_digit (hHead : c = '-' ∨ c.isDigit = true) : StartsValue c := by
  rcases hHead with rfl | hDigit
  · decide
  · refine ⟨?_, ?_, Nat.lt_of_le_of_lt (toNat_of_isDigit hDigit).2 (by decide)⟩
    · by_contra hSpace
      rw [Bool.not_eq_false, isSpace] at hSpace
      simp only [Bool.or_eq_true, decide_eq_true_eq] at hSpace
      rcases hSpace with ((rfl | rfl) | rfl) | rfl
      all_goals exact absurd hDigit (by decide)
    · rintro rfl
      exact absurd hDigit (by decide)

theorem head_dumps (hProper : Proper reprFloat value) :
    ∃ c t, value.dumps = c :: t ∧ StartsValue c := by
  cases hProper with
  | null => exact ⟨'n', "ull".toList, rfl, by decide⟩
  | bool value =>
      cases value with
      | false => exact ⟨'f', "alse".toList, rfl, by decide⟩
      | true => exact ⟨'t', "rue".toList, rfl, by decide⟩
  | number value =>
      have hScan : scanNumber reprFloat (Text.ofInt value) = some (.number value, []) :=
        scanNumber_ofInt value
      obtain ⟨c, t, hText, hHead⟩ := head_of_scanNumber hScan
      exact ⟨c, t, hText, startsValue_of_digit hHead⟩
  | @float digits isFloat =>
      rcases isFloat.read with hWord | hScan
      · simp only [List.mem_cons, List.not_mem_nil, or_false] at hWord
        rcases hWord with rfl | rfl | rfl
        · exact ⟨'N', "aN".toList, rfl, by decide⟩
        · exact ⟨'I', "nfinity".toList, rfl, by decide⟩
        · exact ⟨'-', "Infinity".toList, rfl, by decide⟩
      · obtain ⟨c, t, rfl, hHead⟩ := head_of_scanNumber hScan
        exact ⟨c, t, rfl, startsValue_of_digit hHead⟩
  | string value => exact ⟨'"', _, rfl, by decide⟩
  | array proper => exact ⟨'[', _, rfl, by decide⟩
  | object names proper => exact ⟨'{', _, rfl, by decide⟩

theorem code_head (hPost : Transparent post) (hProper : Proper reprFloat value) (rest : Text) :
    ∃ c t, value.dumps.flatMap post ++ rest = c :: t ∧ StartsValue c := by
  obtain ⟨c, t, hText, hStarts⟩ := head_dumps hProper
  rw [hText, List.flatMap_cons, hPost.ascii c hStarts.2.2]
  exact ⟨c, _, rfl, hStarts⟩

theorem skip_code (hPost : Transparent post) (hProper : Proper reprFloat value) (rest : Text) :
    skip (value.dumps.flatMap post ++ rest) = value.dumps.flatMap post ++ rest := by
  obtain ⟨c, t, hText, hStarts⟩ := code_head hPost hProper rest
  rw [hText, skip_of_not_space hStarts.1]

theorem mem_ofInt {value : Int} (hMem : c ∈ Text.ofInt value) : c = '-' ∨ c.isDigit = true := by
  have hDigits : ∀ n : Nat, ∀ c ∈ Nat.toDigits 10 n, c.isDigit = true := fun n c hMem =>
    Nat.isDigit_of_mem_toDigits (by decide) (by decide) hMem
  rw [Text.ofInt, Int.toString_eq_repr] at hMem
  cases value with
  | ofNat n =>
      change c ∈ n.repr.toList at hMem
      rw [Nat.toList_repr] at hMem
      exact .inr (hDigits n c hMem)
  | negSucc n =>
      change c ∈ ("-" ++ n.succ.repr).toList at hMem
      have hMinus : "-".toList = ['-'] := by decide
      rw [String.toList_append, Nat.toList_repr, hMinus] at hMem
      rcases List.mem_cons.mp hMem with hIs | hDigit
      · exact .inl hIs
      · exact .inr (hDigits _ c hDigit)

theorem code_ofInt (hPost : Transparent post) (value : Int) :
    (Text.ofInt value).flatMap post = Text.ofInt value :=
  hPost.flatMap fun _ hMem => (startsValue_of_digit (mem_ofInt hMem)).2.2

theorem code_quoted (hPost : Transparent post) (t rest : Text) :
    (quoted t).flatMap post ++ rest =
      '"' :: ((t.flatMap escape).flatMap post ++ '"' :: rest) := by
  have hQuote : post '"' = ['"'] := hPost.ascii '"' (by decide)
  simp [quoted, hQuote]

/-! ### One step of the reader -/

theorem scanValue_string {found : Text} (hScan : scanString n t = .ok (found, rest)) :
    scanValue reprFloat (n + 1) ('"' :: t) = .ok (.string (String.ofList found), rest) := by
  rw [scanValue, if_pos rfl, hScan]
  rfl

theorem scanValue_array {items : List Json} (hSkip : skip t = c :: rest) (hSome : c ≠ ']')
    {left : Text} (hScan : scanItems reprFloat n (c :: rest) = .ok (items, left)) :
    scanValue reprFloat (n + 1) ('[' :: t) = .ok (.array items, left) := by
  rw [scanValue, if_neg (by decide), if_neg (by decide), if_pos rfl, hSkip]
  split
  · rename_i hEnd
    exact absurd (List.cons.inj hEnd).1 hSome
  · rw [hScan]
    rfl

theorem scanValue_object {members : List (String × Json)} (hSkip : skip t = '"' :: rest)
    {left : Text} (hScan : scanMembers reprFloat n ('"' :: rest) = .ok (members, left)) :
    scanValue reprFloat (n + 1) ('{' :: t) = .ok (.object (Dict.ofPairs members), left) := by
  rw [scanValue, if_neg (by decide), if_pos rfl, hSkip]
  change (scanMembers reprFloat n ('"' :: rest)).map _ = _
  rw [hScan]
  rfl

theorem scanItems_last {item : Json} (hItem : scanValue reprFloat n t = .ok (item, ']' :: rest)) :
    scanItems reprFloat (n + 1) t = .ok ([item], rest) := by
  rw [scanItems, hItem]
  rfl

theorem scanItems_more {item : Json} {items : List Json} {left : Text}
    (hItem : scanValue reprFloat n t = .ok (item, ',' :: rest))
    (hItems : scanItems reprFloat n (skip rest) = .ok (items, left)) :
    scanItems reprFloat (n + 1) t = .ok (item :: items, left) := by
  rw [scanItems, hItem]
  change (scanItems reprFloat n (skip rest) >>= _) = _
  rw [hItems]
  rfl

theorem scanMembers_last {name behind : Text} (hName : scanString n t = .ok (name, ':' :: behind))
    (hValue : scanValue reprFloat n (skip behind) = .ok (value, '}' :: rest)) :
    scanMembers reprFloat (n + 1) ('"' :: t) = .ok ([(String.ofList name, value)], rest) := by
  rw [scanMembers, hName]
  change (scanValue reprFloat n (skip behind) >>= _) = _
  rw [hValue]
  rfl

theorem scanMembers_more {name behind left : Text} {members : List (String × Json)}
    (hName : scanString n t = .ok (name, ':' :: behind))
    (hValue : scanValue reprFloat n (skip behind) = .ok (value, ',' :: rest))
    (hMembers : scanMembers reprFloat n (skip rest) = .ok (members, left)) :
    scanMembers reprFloat (n + 1) ('"' :: t) =
      .ok ((String.ofList name, value) :: members, left) := by
  rw [scanMembers, hName]
  change (scanValue reprFloat n (skip behind) >>= _) = _
  rw [hValue]
  change (scanMembers reprFloat n (skip rest) >>= _) = _
  rw [hMembers]
  rfl

/-! ### What is printed -/

theorem scanString_code (hPost : Transparent post) (t rest : Text)
    (hFuel : ((quoted t).flatMap post ++ rest).length ≤ n) :
    scanString n ((t.flatMap escape).flatMap post ++ '"' :: rest) = .ok (t, rest) := by
  refine scanString_flatMap hPost t rest ?_
  have hLength := length_le_code hPost t
  rw [code_quoted hPost, List.length_cons, List.length_append, List.length_cons] at hFuel
  omega

theorem stops_cons (hNumeral : isNumeral c = false) (t : Text) : Stops (c :: t) := by
  rintro d hHead
  obtain rfl := Option.some.inj hHead
  exact hNumeral

theorem skip_space (t : Text) : skip (' ' :: t) = skip t := rfl

theorem dumpItems_cons (item : Json) (items : List Json) :
    ∃ tail, dumpItems (item :: items) = item.dumps ++ tail := by
  cases items with
  | nil => exact ⟨[], (List.append_nil _).symm⟩
  | cons second items => exact ⟨_, by rw [dumpItems, List.append_assoc]; exact List.cons_ne_nil _ _⟩

theorem code_array (hPost : Transparent post) (items : List Json) (rest : Text) :
    (Json.array items).dumps.flatMap post ++ rest =
      '[' :: ((dumpItems items).flatMap post ++ ']' :: rest) := by
  have hOpen : post '[' = ['['] := hPost.ascii _ (by decide)
  have hClose : post ']' = [']'] := hPost.ascii _ (by decide)
  simp [dumps, hOpen, hClose]

theorem code_object (hPost : Transparent post) (members : List (String × Json)) (rest : Text) :
    (Json.object members).dumps.flatMap post ++ rest =
      '{' :: ((dumpMembers members).flatMap post ++ '}' :: rest) := by
  have hOpen : post '{' = ['{'] := hPost.ascii _ (by decide)
  have hClose : post '}' = ['}'] := hPost.ascii _ (by decide)
  simp [dumps, hOpen, hClose]

theorem code_items (hPost : Transparent post) (item second : Json) (items : List Json)
    (rest : Text) :
    (dumpItems (item :: second :: items)).flatMap post ++ rest =
      item.dumps.flatMap post ++
        ',' :: ' ' :: ((dumpItems (second :: items)).flatMap post ++ rest) := by
  have hComma : post ',' = [','] := hPost.ascii _ (by decide)
  have hSpace : post ' ' = [' '] := hPost.ascii _ (by decide)
  rw [dumpItems]
  · simp [hComma, hSpace]
  · exact List.cons_ne_nil _ _

theorem code_member (hPost : Transparent post) (name : String) (value : Json) (rest : Text) :
    (dumpMembers [(name, value)]).flatMap post ++ rest =
      '"' :: ((name.toList.flatMap escape).flatMap post ++
        '"' :: ':' :: ' ' :: (value.dumps.flatMap post ++ rest)) := by
  have hColon : post ':' = [':'] := hPost.ascii _ (by decide)
  have hSpace : post ' ' = [' '] := hPost.ascii _ (by decide)
  rw [dumpMembers, List.append_assoc, List.flatMap_append, List.append_assoc, code_quoted hPost]
  simp [hColon, hSpace]

theorem code_members (hPost : Transparent post) (name : String) (value : Json)
    (second : String × Json) (members : List (String × Json)) (rest : Text) :
    (dumpMembers ((name, value) :: second :: members)).flatMap post ++ rest =
      '"' :: ((name.toList.flatMap escape).flatMap post ++ '"' :: ':' :: ' ' ::
        (value.dumps.flatMap post ++
          ',' :: ' ' :: ((dumpMembers (second :: members)).flatMap post ++ rest))) := by
  have hColon : post ':' = [':'] := hPost.ascii _ (by decide)
  have hComma : post ',' = [','] := hPost.ascii _ (by decide)
  have hSpace : post ' ' = [' '] := hPost.ascii _ (by decide)
  rw [dumpMembers]
  · rw [List.append_assoc, List.append_assoc, List.append_assoc, List.flatMap_append,
      List.append_assoc, code_quoted hPost]
    simp [hColon, hComma, hSpace]
  · exact List.cons_ne_nil _ _

/-- The members of an object start with a quote. -/
theorem dumpMembers_cons (hPost : Transparent post) (member : String × Json)
    (members : List (String × Json)) (rest : Text) :
    ∃ t, (dumpMembers (member :: members)).flatMap post ++ rest = '"' :: t := by
  obtain ⟨name, value⟩ := member
  cases members with
  | nil => exact ⟨_, code_member hPost name value rest⟩
  | cons second members => exact ⟨_, code_members hPost name value second members rest⟩

mutual

theorem scanValue_dumps (hPost : Transparent post) : ∀ {value : Json} {n : Nat} {rest : Text},
    Proper reprFloat value → Stops rest →
    2 * (value.dumps.flatMap post ++ rest).length < n →
    scanValue reprFloat n (value.dumps.flatMap post ++ rest) = .ok (value, rest)
  | _, 0, _, _, _, hFuel => absurd hFuel (Nat.not_lt_zero _)
  | .null, n + 1, rest, _, _, _ => by
      rw [dumps, hPost.flatMap (by decide)]
      rfl
  | .bool true, n + 1, rest, _, _, _ => by
      rw [dumps, hPost.flatMap (by decide)]
      rfl
  | .bool false, n + 1, rest, _, _, _ => by
      rw [dumps, hPost.flatMap (by decide)]
      rfl
  | .number value, n + 1, rest, _, hStops, _ => by
      rw [dumps, code_ofInt hPost]
      exact scanValue_of_scanNumber (scanNumber_append hStops (scanNumber_ofInt value))
  | .float digits, n + 1, rest, .float isFloat, hStops, _ => by
      rw [dumps, hPost.flatMap isFloat.ascii]
      rcases isFloat.read with hWord | hScan
      · simp only [List.mem_cons, List.not_mem_nil, or_false] at hWord
        rcases hWord with rfl | rfl | rfl
        all_goals rfl
      · exact scanValue_of_scanNumber (scanNumber_append hStops hScan)
  | .string value, n + 1, rest, _, _, hFuel => by
      rw [dumps] at hFuel ⊢
      rw [code_quoted hPost,
        scanValue_string (scanString_code hPost value.toList rest (by omega)), String.ofList_toList]
  | .array [], n + 1, rest, _, _, _ => by
      rw [dumps, hPost.flatMap (by decide)]
      rfl
  | .array (item :: items), n + 1, rest, .array proper, _, hFuel => by
      rw [code_array hPost] at hFuel ⊢
      rw [List.length_cons] at hFuel
      have hItems : scanItems reprFloat n
          ((dumpItems (item :: items)).flatMap post ++ ']' :: rest) = .ok (item :: items, rest) :=
        scanItems_dumps hPost (List.cons_ne_nil item items) proper (by omega)
      obtain ⟨tail, hTail⟩ := dumpItems_cons item items
      rw [hTail, List.flatMap_append, List.append_assoc] at hItems ⊢
      obtain ⟨c, t, hText, hSpace, hEnd, -⟩ := code_head hPost (proper item List.mem_cons_self)
        (tail.flatMap post ++ ']' :: rest)
      rw [hText] at hItems ⊢
      exact scanValue_array (skip_of_not_space hSpace) hEnd hItems
  | .object [], n + 1, rest, _, _, _ => by
      rw [dumps, hPost.flatMap (by decide)]
      rfl
  | .object (member :: members), n + 1, rest, .object names proper, _, hFuel => by
      rw [code_object hPost] at hFuel ⊢
      rw [List.length_cons] at hFuel
      have hMembers : scanMembers reprFloat n
          ((dumpMembers (member :: members)).flatMap post ++ '}' :: rest) =
            .ok (member :: members, rest) :=
        scanMembers_dumps hPost (List.cons_ne_nil member members) proper (by omega)
      obtain ⟨t, hText⟩ := dumpMembers_cons hPost member members ('}' :: rest)
      rw [hText] at hMembers ⊢
      rw [scanValue_object (skip_of_not_space rfl) hMembers, Dict.ofPairs_of_nodup names]

theorem scanItems_dumps (hPost : Transparent post) : ∀ {items : List Json} {n : Nat} {rest : Text},
    items ≠ [] → (∀ item ∈ items, Proper reprFloat item) →
    2 * ((dumpItems items).flatMap post ++ ']' :: rest).length + 1 < n →
    scanItems reprFloat n ((dumpItems items).flatMap post ++ ']' :: rest) = .ok (items, rest)
  | [], _, _, hSome, _, _ => absurd rfl hSome
  | _, 0, _, _, _, hFuel => absurd hFuel (Nat.not_lt_zero _)
  | [item], n + 1, rest, _, hProper, hFuel => by
      rw [dumpItems] at hFuel ⊢
      exact scanItems_last (scanValue_dumps hPost (hProper item List.mem_cons_self)
        (stops_cons (by decide) rest) (by omega))
  | item :: second :: items, n + 1, rest, _, hProper, hFuel => by
      obtain ⟨hItem, hItems⟩ := List.forall_mem_cons.mp hProper
      rw [code_items hPost] at hFuel ⊢
      refine scanItems_more (scanValue_dumps hPost hItem (stops_cons (by decide) _) (by omega)) ?_
      have hRest : scanItems reprFloat n
          ((dumpItems (second :: items)).flatMap post ++ ']' :: rest) =
            .ok (second :: items, rest) := by
        refine scanItems_dumps hPost (List.cons_ne_nil second items) hItems ?_
        simp only [List.length_append, List.length_cons] at hFuel ⊢
        omega
      rw [skip_space]
      obtain ⟨tail, hTail⟩ := dumpItems_cons second items
      rw [hTail, List.flatMap_append, List.append_assoc] at hRest ⊢
      rw [skip_code hPost (hItems second List.mem_cons_self)]
      exact hRest

theorem scanMembers_dumps (hPost : Transparent post) :
    ∀ {members : List (String × Json)} {n : Nat} {rest : Text},
    members ≠ [] → (∀ member ∈ members, Proper reprFloat member.2) →
    2 * ((dumpMembers members).flatMap post ++ '}' :: rest).length + 1 < n →
    scanMembers reprFloat n ((dumpMembers members).flatMap post ++ '}' :: rest) =
      .ok (members, rest)
  | [], _, _, hSome, _, _ => absurd rfl hSome
  | _, 0, _, _, _, hFuel => absurd hFuel (Nat.not_lt_zero _)
  | [(name, value)], n + 1, rest, _, hProper, hFuel => by
      have hValue := hProper (name, value) List.mem_cons_self
      have hName := length_le_code hPost name.toList
      rw [code_member hPost] at hFuel ⊢
      simp only [List.length_append, List.length_cons] at hFuel
      have hRest : scanValue reprFloat n (value.dumps.flatMap post ++ '}' :: rest) =
          .ok (value, '}' :: rest) := by
        refine scanValue_dumps hPost hValue (stops_cons (by decide) rest) ?_
        simp only [List.length_append, List.length_cons]
        omega
      rw [scanMembers_last (scanString_flatMap hPost name.toList _ (by omega))
        (by rw [skip_space, skip_code hPost hValue]; exact hRest), String.ofList_toList]
  | (name, value) :: second :: members, n + 1, rest, _, hProper, hFuel => by
      obtain ⟨hValue, hMembers⟩ := List.forall_mem_cons.mp hProper
      have hName := length_le_code hPost name.toList
      rw [code_members hPost] at hFuel ⊢
      simp only [List.length_append, List.length_cons] at hFuel
      have hFirst : scanValue reprFloat n (value.dumps.flatMap post ++
          ',' :: ' ' :: ((dumpMembers (second :: members)).flatMap post ++ '}' :: rest)) =
            .ok (value,
              ',' :: ' ' :: ((dumpMembers (second :: members)).flatMap post ++ '}' :: rest)) := by
        refine scanValue_dumps hPost hValue (stops_cons (by decide) _) ?_
        simp only [List.length_append, List.length_cons]
        omega
      have hRest : scanMembers reprFloat n
          ((dumpMembers (second :: members)).flatMap post ++ '}' :: rest) =
            .ok (second :: members, rest) := by
        refine scanMembers_dumps hPost (List.cons_ne_nil second members) hMembers ?_
        simp only [List.length_append, List.length_cons]
        omega
      obtain ⟨t, hText⟩ := dumpMembers_cons hPost second members ('}' :: rest)
      rw [scanMembers_more (scanString_flatMap hPost name.toList _ (by omega))
        (by rw [skip_space, skip_code hPost hValue]; exact hFirst)
        (by rw [skip_space, hText, skip_of_not_space rfl, ← hText]; exact hRest),
        String.ofList_toList]

end

/-- What is printed is read, with white space behind it too. -/
theorem loads_dumps_append (hPost : Transparent post) (hProper : Proper reprFloat value)
    (hSpace : ∀ c ∈ rest, isSpace c = true) :
    loads reprFloat (value.dumps.flatMap post ++ rest) = .ok value := by
  have hStops : Stops rest := by
    intro c hHead
    have hIs := hSpace c (List.mem_of_mem_head? hHead)
    rw [isSpace] at hIs
    simp only [Bool.or_eq_true, decide_eq_true_eq] at hIs
    rcases hIs with ((rfl | rfl) | rfl) | rfl
    all_goals rfl
  obtain ⟨c, t, hText, hStarts⟩ := code_head hPost hProper rest
  have hNone : (value.dumps.flatMap post ++ rest).head? ≠ some '\uFEFF' := by
    rw [hText, List.head?_cons]
    intro hSame
    obtain rfl := Option.some.inj hSame
    exact absurd hStarts.2.2 (by decide)
  rw [loads, if_neg hNone, skip_code hPost hProper,
    scanValue_dumps hPost hProper hStops (Nat.lt_succ_self _)]
  have hEnd : skip rest = [] := List.dropWhile_eq_nil_iff.mpr hSpace
  show (if (skip rest).isEmpty then _ else _) = _
  rw [hEnd]
  rfl

/-! ## The characters that are printed -/

theorem printed_escape (c : Char) : ∀ d ∈ escape c, 32 ≤ d.toNat := by
  have hHex : ∀ d < 16, 32 ≤ (Nat.digitChar d).toNat := by decide
  rw [escape.eq_def]
  split
  · decide
  · decide
  · decide
  · decide
  · decide
  · split
    · decide
    split
    · decide
    split
    · rename_i hControl
      simp only [List.forall_mem_cons]
      exact ⟨by decide, by decide, by decide, by decide, hHex _ (by omega), hHex _ (by omega),
        List.forall_mem_nil _⟩
    · rename_i hPrinted
      exact List.forall_mem_singleton.mpr (Nat.not_lt.mp hPrinted)

theorem printed_quoted (t : Text) : ∀ c ∈ quoted t, 32 ≤ c.toNat := by
  intro c hMem
  rw [quoted, List.mem_append, List.mem_append] at hMem
  rcases hMem with (hQuote | hInner) | hQuote
  · obtain rfl := List.mem_singleton.mp hQuote
    decide
  · obtain ⟨d, -, hEscaped⟩ := List.mem_flatMap.mp hInner
    exact printed_escape d c hEscaped
  · obtain rfl := List.mem_singleton.mp hQuote
    decide

theorem printed_dumpItems {items : List Json}
    (hItems : ∀ item ∈ items, ∀ c ∈ item.dumps, 32 ≤ c.toNat) :
    ∀ c ∈ dumpItems items, 32 ≤ c.toNat := by
  induction items with
  | nil => exact List.forall_mem_nil _
  | cons item items ih =>
      obtain ⟨hFirst, hRest⟩ := List.forall_mem_cons.mp hItems
      cases items with
      | nil => exact hFirst
      | cons second items =>
          rw [dumpItems]
          · exact List.forall_mem_append.mpr
              ⟨List.forall_mem_append.mpr ⟨hFirst, by decide⟩, ih hRest⟩
          · exact List.cons_ne_nil _ _

theorem printed_dumpMembers {members : List (String × Json)}
    (hMembers : ∀ member ∈ members, ∀ c ∈ member.2.dumps, 32 ≤ c.toNat) :
    ∀ c ∈ dumpMembers members, 32 ≤ c.toNat := by
  induction members with
  | nil => exact List.forall_mem_nil _
  | cons member members ih =>
      obtain ⟨hFirst, hRest⟩ := List.forall_mem_cons.mp hMembers
      obtain ⟨name, value⟩ := member
      have hMember : ∀ c ∈ quoted name.toList ++ [':', ' '] ++ value.dumps, 32 ≤ c.toNat :=
        List.forall_mem_append.mpr
          ⟨List.forall_mem_append.mpr ⟨printed_quoted name.toList, by decide⟩, hFirst⟩
      cases members with
      | nil => exact hMember
      | cons second members =>
          rw [dumpMembers]
          · exact List.forall_mem_append.mpr
              ⟨List.forall_mem_append.mpr ⟨hMember, by decide⟩, ih hRest⟩
          · exact List.cons_ne_nil _ _

/-- No control character is printed. -/
theorem printed_dumps (hProper : Proper reprFloat value) : ∀ c ∈ value.dumps, 32 ≤ c.toNat := by
  induction hProper with
  | null => decide
  | bool value =>
      cases value with
      | false => decide
      | true => decide
  | number value =>
      intro c hMem
      rcases mem_ofInt hMem with rfl | hDigit
      · decide
      · exact (by decide : 32 ≤ 48).trans (toNat_of_isDigit hDigit).1
  | float isFloat => exact isFloat.printed
  | string value => exact printed_quoted value.toList
  | array proper ih =>
      exact List.forall_mem_append.mpr
        ⟨List.forall_mem_append.mpr ⟨by decide, printed_dumpItems ih⟩, by decide⟩
  | object names proper ih =>
      exact List.forall_mem_append.mpr
        ⟨List.forall_mem_append.mpr ⟨by decide, printed_dumpMembers ih⟩, by decide⟩

theorem printed_hexDigits {n : Nat} (hSmall : n < 0x10000) :
    ∀ c ∈ unicodeEscape n, 32 ≤ c.toNat ∧ c.toNat < 127 := by
  have hHex : ∀ d < 16, 32 ≤ (Nat.digitChar d).toNat ∧ (Nat.digitChar d).toNat < 127 := by decide
  simp only [unicodeEscape, hexDigits, List.forall_mem_cons]
  exact ⟨by decide, by decide, hHex _ (by omega), hHex _ (by omega), hHex _ (by omega),
    hHex _ (by omega), List.forall_mem_nil _⟩

/-- What is printed with `ensure_ascii` is printable ASCII. -/
theorem printed_dumpsAscii (hProper : Proper reprFloat value) :
    ∀ c ∈ value.dumpsAscii, 32 ≤ c.toNat ∧ c.toNat < 127 := by
  intro c hMem
  obtain ⟨d, hDumped, hCoded⟩ := List.mem_flatMap.mp hMem
  have hCases := toNat_cases d
  rw [asciiOf] at hCoded
  split at hCoded
  · rename_i hSmall
    obtain rfl := List.mem_singleton.mp hCoded
    exact ⟨printed_dumps hProper c hDumped, hSmall⟩
  split at hCoded
  · rename_i hBasic
    exact printed_hexDigits hBasic c hCoded
  · rcases List.mem_append.mp hCoded with hHigh | hLow
    · exact printed_hexDigits (by omega) c hHigh
    · exact printed_hexDigits (by omega) c hLow

theorem loads_dumps (hProper : Proper reprFloat value) :
    loads reprFloat value.dumps = .ok value := by
  have hRead := loads_dumps_append transparent_plain hProper (List.forall_mem_nil _)
  rwa [List.append_nil, List.flatMap_singleton'] at hRead

theorem loads_dumpsAscii (hProper : Proper reprFloat value) :
    loads reprFloat value.dumpsAscii = .ok value := by
  have hRead := loads_dumps_append transparent_asciiOf hProper (List.forall_mem_nil _)
  rwa [List.append_nil] at hRead

end Json
end OctoForge
