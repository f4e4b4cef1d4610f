import OctoForge.Text

/-!
# Host bindings

A binding is a hostname, or `*.` before one: the pattern stands for exactly one label.
`str.lower` is an argument.
-/

namespace OctoForge
namespace External

/-- `WILDCARD_PREFIX`. -/
def wildcardStart : Text := "*.".toList

/-- `rstrip(".")`. -/
def stripDots (t : Text) : Text := t.rdropWhile (· == '.')

/-- What a host is compared as: stripped, in lower case and without trailing dots. -/
def canonicalHost (lower : Text → Text) (host : Text) : Text := stripDots (lower host.strip)

/-- `normalize_host`; the error is the text of `InvalidSecretError`. -/
def normalizeHost (lower : Text → Text) (raw : Text) : Except Text Text :=
  let host := canonicalHost lower raw
  if host.isEmpty || '/' ∈ host || ':' ∈ host || ' ' ∈ host then
    .error ("allowed_host must be a bare hostname ('api.example.com') or a ".toList ++
      "one-level pattern ('*.example.com')".toList)
  else if !wildcardStart.isPrefixOf host then
    if '*' ∈ host then
      .error "a wildcard is only allowed as the leading label, e.g. '*.example.com'".toList
    else .ok host
  else
    let suffix := host.drop wildcardStart.length
    if '*' ∈ suffix then
      .error "only one wildcard label is allowed, e.g. '*.example.com'".toList
    else if suffix.count '.' < 1 || [] ∈ suffix.splitOn '.' then
      .error (['\''] ++ host ++
        "' is too broad: a pattern must name at least a domain and a suffix, e.g. ".toList ++
        "'*.example.com'".toList)
    else .ok host

/-- `host_matches`. -/
def hostMatches (lower : Text → Text) (binding host : Text) : Bool :=
  let target := canonicalHost lower host
  if '*' ∈ target then false
  else if !wildcardStart.isPrefixOf binding then binding == target
  else
    let suffix := '.' :: binding.drop wildcardStart.length
    if suffix.isSuffixOf target then
      let label := target.take (target.length - suffix.length)
      !label.isEmpty && !label.contains '.'
    else false

/-! ## What a binding covers -/

variable {lower : Text → Text} {raw binding host : Text}

/-- A host, as it is compared, that is the suffix of a pattern behind one label. -/
def OneLabel (suffix target : Text) : Prop :=
  ∃ label, target = label ++ '.' :: suffix ∧ label ≠ [] ∧ '.' ∉ label

/-- `host_matches`, of the host as it is compared. -/
theorem hostMatches_iff : hostMatches lower binding host = true ↔
    '*' ∉ canonicalHost lower host ∧
      ((¬wildcardStart <+: binding ∧ canonicalHost lower host = binding) ∨
        ∃ suffix, binding = wildcardStart ++ suffix ∧
          OneLabel suffix (canonicalHost lower host)) := by
  unfold hostMatches
  simp only
  by_cases hStar : '*' ∈ canonicalHost lower host
  · rw [if_pos hStar]
    exact ⟨fun hFalse => absurd hFalse (by decide), fun hBoth => absurd hStar hBoth.1⟩
  · rw [if_neg hStar]
    by_cases hPattern : wildcardStart <+: binding
    · obtain ⟨suffix, rfl⟩ := hPattern
      have hBegins : wildcardStart.isPrefixOf (wildcardStart ++ suffix) = true :=
        List.isPrefixOf_iff_prefix.mpr (List.prefix_append _ _)
      rw [if_neg (by rw [hBegins]; decide), List.drop_left]
      constructor
      · intro hMatches
        refine ⟨hStar, .inr ⟨suffix, rfl, ?_⟩⟩
        split at hMatches
        · rename_i hEnds
          obtain ⟨label, hLabel⟩ := List.isSuffixOf_iff_suffix.mp hEnds
          -- What stands before the suffix is the label.
          have hTake : (canonicalHost lower host).take
              ((canonicalHost lower host).length - ('.' :: suffix).length) = label := by
            rw [← hLabel, List.length_append, Nat.add_sub_cancel, List.take_left]
          rw [hTake] at hMatches
          simp only [Bool.and_eq_true, Bool.not_eq_true', List.isEmpty_eq_false_iff,
            List.contains_eq_mem, decide_eq_false_iff_not] at hMatches
          exact ⟨label, hLabel.symm, hMatches.1, hMatches.2⟩
        · cases hMatches
      · rintro ⟨-, ⟨hNot, -⟩ | ⟨other, hSame, label, hLabel, hSome, hDot⟩⟩
        · exact absurd (List.prefix_append _ _) hNot
        · obtain rfl := List.append_cancel_left hSame
          have hEnds : ('.' :: suffix).isSuffixOf (canonicalHost lower host) = true :=
            List.isSuffixOf_iff_suffix.mpr ⟨label, hLabel.symm⟩
          rw [if_pos hEnds, hLabel, List.length_append, Nat.add_sub_cancel, List.take_left]
          simpa using ⟨hSome, hDot⟩
    · have hBegins : wildcardStart.isPrefixOf binding = false := by
        rw [Bool.eq_false_iff]
        exact fun hPrefix => hPattern (List.isPrefixOf_iff_prefix.mp hPrefix)
      rw [if_pos (by rw [hBegins]; rfl), beq_iff_eq]
      constructor
      · exact fun hSame => ⟨hStar, .inl ⟨hPattern, hSame.symm⟩⟩
      · rintro ⟨-, ⟨-, hSame⟩ | ⟨suffix, rfl, -⟩⟩
        · exact hSame.symm
        · exact absurd (List.prefix_append _ _) hPattern

/-- What follows the wildcard of a pattern that is accepted. -/
structure PatternSuffix (suffix : Text) : Prop where
  dot : '.' ∈ suffix
  labels : [] ∉ suffix.splitOn '.'

theorem patternSuffix_of_normalizeHost {suffix : Text}
    (hAccepted : normalizeHost lower raw = .ok (wildcardStart ++ suffix)) : PatternSuffix suffix := by
  unfold normalizeHost at hAccepted
  simp only at hAccepted
  split at hAccepted
  · cases hAccepted
  · split at hAccepted
    · rename_i hPlain
      split at hAccepted
      · cases hAccepted
      · rw [Except.ok.inj hAccepted] at hPlain
        have hBegins : wildcardStart.isPrefixOf (wildcardStart ++ suffix) = true :=
          List.isPrefixOf_iff_prefix.mpr (List.prefix_append _ _)
        rw [hBegins] at hPlain
        cases hPlain
    · split at hAccepted
      · cases hAccepted
      · split at hAccepted
        · cases hAccepted
        · rename_i hBroad
          rw [Except.ok.inj hAccepted, List.drop_left] at hBroad
          simp only [Bool.or_eq_true, decide_eq_true_eq, not_or, Nat.lt_one_iff,
            List.count_eq_zero, not_not] at hBroad
          exact ⟨hBroad.1, hBroad.2⟩

theorem PatternSuffix.filter_labels {suffix : Text} (hSuffix : PatternSuffix suffix) :
    (suffix.splitOn '.').filter (· ≠ []) = suffix.splitOn '.' := by
  refine List.filter_eq_self.mpr fun label hLabel => decide_eq_true ?_
  rintro rfl
  exact hSuffix.labels hLabel

theorem two_le_labels {suffix : Text} (hDot : '.' ∈ suffix) :
    2 ≤ (suffix.splitOn '.').length := by
  obtain ⟨before, after, rfl⟩ := List.append_of_mem hDot
  have hBefore := List.length_pos_of_ne_nil (List.splitOn_ne_nil '.' before)
  have hAfter := List.length_pos_of_ne_nil (List.splitOn_ne_nil '.' after)
  rw [List.splitOn_append_cons_self, List.length_append]
  omega

/-- The labels of a host, without empty ones. -/
def namedLabels (target : Text) : List Text := (target.splitOn '.').filter (· ≠ [])

/-- What a pattern does not cover: its apex, subdomains of subdomains, hosts of less than three
labels, and hosts that end in the same characters. -/
structure Narrow (lower : Text → Text) (binding suffix host : Text) : Prop where
  apex : canonicalHost lower host = suffix → hostMatches lower binding host = false
  deeper : ∀ outer inner, canonicalHost lower host = outer ++ '.' :: (inner ++ '.' :: suffix) →
    hostMatches lower binding host = false
  labels : (namedLabels (canonicalHost lower host)).length < 3 →
    hostMatches lower binding host = false
  ending : ∀ front, canonicalHost lower host = front ++ suffix → front.getLast? ≠ some '.' →
    hostMatches lower binding host = false

theorem narrow_of_patternSuffix {suffix : Text} (hSuffix : PatternSuffix suffix) (host : Text) :
    Narrow lower (wildcardStart ++ suffix) suffix host := by
  have hLabel : hostMatches lower (wildcardStart ++ suffix) host = true →
      OneLabel suffix (canonicalHost lower host) := by
    intro hMatches
    rcases (hostMatches_iff.mp hMatches).2 with ⟨hNot, -⟩ | ⟨other, hSame, hOne⟩
    · exact absurd (List.prefix_append _ _) hNot
    · rwa [List.append_cancel_left hSame]
  refine ⟨fun hApex => ?_, fun outer inner hDeeper => ?_, fun hFew => ?_, fun front hEnds hLast => ?_⟩
  all_goals
    rw [← Bool.not_eq_true]
    intro hMatches
    obtain ⟨label, hTarget, hSome, hDot⟩ := hLabel hMatches
  · have hLength := congrArg List.length (hApex.symm.trans hTarget)
    rw [List.length_append, List.length_cons] at hLength
    omega
  · have hSame : (outer ++ '.' :: inner) ++ '.' :: suffix = label ++ '.' :: suffix := by
      rw [← hTarget, hDeeper]
      simp
    rw [← List.append_cancel_right hSame] at hDot
    exact hDot (by simp)
  · rw [hTarget, namedLabels, List.splitOn_append_cons_self_of_not_mem hDot,
      List.filter_cons_of_pos (by simpa using hSome), hSuffix.filter_labels, List.length_cons] at hFew
    have hRest := two_le_labels hSuffix.dot
    omega
  · have hSame : front ++ suffix = (label ++ ['.']) ++ suffix := by
      rw [← hEnds, hTarget]
      simp
    rw [List.append_cancel_right hSame, List.getLast?_concat] at hLast
    exact hLast rfl

/-- **Host binding.**  A binding that is accepted covers the host that it is, or, if it is a pattern,
the hosts with one label in the place of the wildcard, and no others. -/
theorem host_binding (lower : Text → Text) {raw binding : Text}
    (hAccepted : normalizeHost lower raw = .ok binding) (host : Text) :
    (hostMatches lower binding host = true ↔
      '*' ∉ canonicalHost lower host ∧
        ((¬wildcardStart <+: binding ∧ canonicalHost lower host = binding) ∨
          ∃ suffix, binding = wildcardStart ++ suffix ∧
            OneLabel suffix (canonicalHost lower host))) ∧
      ∀ suffix, binding = wildcardStart ++ suffix → Narrow lower binding suffix host := by
  refine ⟨hostMatches_iff, fun suffix hPattern => ?_⟩
  rw [hPattern] at hAccepted ⊢
  exact narrow_of_patternSuffix (patternSuffix_of_normalizeHost hAccepted) host

theorem host_binding_caldav :
    (hostMatches (·.map Char.toLower) "*.icloud.com".toList "Caldav.iCloud.com.".toList = true ↔
      '*' ∉ canonicalHost (·.map Char.toLower) "Caldav.iCloud.com.".toList ∧
        ((¬wildcardStart <+: "*.icloud.com".toList ∧
            canonicalHost (·.map Char.toLower) "Caldav.iCloud.com.".toList =
              "*.icloud.com".toList) ∨
          ∃ suffix, "*.icloud.com".toList = wildcardStart ++ suffix ∧
            OneLabel suffix (canonicalHost (·.map Char.toLower) "Caldav.iCloud.com.".toList))) ∧
      ∀ suffix, "*.icloud.com".toList = wildcardStart ++ suffix →
        Narrow (·.map Char.toLower) "*.icloud.com".toList suffix "Caldav.iCloud.com.".toList :=
  host_binding (·.map Char.toLower) (by decide +kernel : normalizeHost (·.map Char.toLower)
    " *.iCloud.com".toList = .ok "*.icloud.com".toList) "Caldav.iCloud.com.".toList

end External
end OctoForge
