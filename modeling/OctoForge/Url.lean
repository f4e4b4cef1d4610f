import OctoForge.Text

/-!
# Urls

`quote` and `urlsplit` of `urllib.parse`.  What comes after the authority of a url begins with
a slash, a question mark or a hash, and has no say in it.
-/

namespace OctoForge
namespace Url

/-! ## Quoting -/

/-- The characters that are never quoted. -/
def isUnreserved (c : Char) : Bool :=
  c.isAlphanum || c == '_' || c == '.' || c == '-' || c == '~'

def hexDigit (n : Nat) : Char := Char.ofNat (if n < 10 then 48 + n else 55 + n)

/-- `%XX`. -/
def percent (byte : UInt8) : Text := ['%', hexDigit (byte.toNat / 16), hexDigit (byte.toNat % 16)]

def quoteChar (c : Char) : Text :=
  if isUnreserved c then [c] else (String.utf8EncodeChar c).flatMap percent

/-- `quote` with `safe=""`. -/
def quote (t : Text) : Text := t.flatMap quoteChar

/-! ## Splitting -/

/-- What `urlsplit` takes from the standard library. -/
structure Rules where
  /-- `str.lower`. -/
  lower : Text → Text
  /-- What is between brackets is an address that may stand there. -/
  bracketed : Text → Bool
  /-- A netloc that is not ASCII stays a netloc under NFKC. -/
  normal : Text → Bool

/-- `SplitResult`. -/
structure Split where
  scheme : Text
  netloc : Text
  path : Text
  query : Text
  fragment : Text
  deriving DecidableEq, Repr

/-- The characters that `urlsplit` removes wherever they stand. -/
def isRemoved (c : Char) : Bool := c == '\t' || c == '\r' || c == '\n'

/-- Control characters and spaces before the url. -/
def isLeading (c : Char) : Bool := decide (c.toNat ≤ 32)

def kept (t : Text) : Text := t.filter fun c => !isRemoved c

def clean (t : Text) : Text := kept (t.dropWhile isLeading)

def isSchemeChar (c : Char) : Bool := c.isAlphanum || c == '+' || c == '-' || c == '.'

/-- The text up to a character, and the text after it, if it is there. -/
def cut (c : Char) (t : Text) : Text × Option Text :=
  (t.takeWhile (· != c), match t.dropWhile (· != c) with | [] => none | _ :: rest => some rest)

/-- The scheme, and what follows its colon. -/
def splitScheme (t : Text) : Text × Text :=
  match cut ':' t with
  | (first :: scheme, some rest) =>
      if first.isAlpha && (first :: scheme).all isSchemeChar then
        ((first :: scheme).map Char.toLower, rest)
      else ([], t)
  | _ => ([], t)

def isDelimiter (c : Char) : Bool := c == '/' || c == '?' || c == '#'

/-- `_splitnetloc`, after two slashes. -/
def splitNetloc : Text → Text × Text
  | '/' :: '/' :: rest => (rest.takeWhile (!isDelimiter ·), rest.dropWhile (!isDelimiter ·))
  | t => ([], t)

/-- The checks on a netloc. -/
def netlocOk (rules : Rules) (netloc : Text) : Bool :=
  (netloc.contains '[' == netloc.contains ']') &&
    (!netloc.contains '[' ||
      rules.bracketed (cut ']' ((cut '[' netloc).2.getD [])).1) &&
    (netloc.all (fun c => decide (c.toNat < 128)) || rules.normal netloc)

/-- What is before the fragment or the query, and that. -/
def splitOff (c : Char) (t : Text) : Text × Text := ((cut c t).1, (cut c t).2.getD [])

/-- `urlsplit`; `none` for a `ValueError`. -/
def urlsplit (rules : Rules) (url : Text) : Option Split :=
  let (scheme, afterScheme) := splitScheme (clean url)
  let (netloc, afterNetloc) := splitNetloc afterScheme
  if netlocOk rules netloc then
    let (beforeFragment, fragment) := splitOff '#' afterNetloc
    let (path, query) := splitOff '?' beforeFragment
    some ⟨scheme, netloc, path, query, fragment⟩
  else none

namespace Split

variable (split : Split)

/-- What follows the credentials. -/
def hostinfo : Text := split.netloc.rtakeWhile (· != '@')

/-- `_hostinfo`: the host, and the port where there is one. -/
def hostAndPort : Text × Option Text :=
  let (host, port) :=
    match cut '[' split.hostinfo with
    | (_, some bracketed) =>
        let (host, rest) := cut ']' bracketed
        (host, (cut ':' (rest.getD [])).2.getD [])
    | (_, none) =>
        let (host, port) := cut ':' split.hostinfo
        (host, port.getD [])
  (host, if port.isEmpty then none else some port)

/-- `hostname`; a zone is left as it is. -/
def hostname (rules : Rules) : Option Text :=
  let host := split.hostAndPort.1
  if host.isEmpty then none
  else some (rules.lower (host.takeWhile (· != '%')) ++ host.dropWhile (· != '%'))

/-- `port`; the outer `none` is a `ValueError`. -/
def port : Option (Option Nat) :=
  match split.hostAndPort.2 with
  | none => some none
  | some digits =>
      if digits.all Char.isDigit then
        let n := digits.foldl (fun n c => 10 * n + (c.toNat - 48)) 0
        if n ≤ 65535 then some (some n) else none
      else none

end Split

/-! ## The authority -/

/-- The scheme and the netloc of a url. -/
def authority (rules : Rules) (url : Text) : Option (Text × Text) :=
  (urlsplit rules url).map fun parts => (parts.scheme, parts.netloc)

/-- What may follow an authority: nothing, or what begins with a delimiter. -/
def IsTail (back : Text) : Prop := ∀ c, back.head? = some c → isDelimiter c = true

theorem isTail_nil : IsTail [] := nofun

theorem isTail_cons {c : Char} {rest : Text} (hDelimiter : isDelimiter c = true) :
    IsTail (c :: rest) := by
  intro d hHead
  obtain rfl : c = d := Option.some.inj hHead
  exact hDelimiter

variable {rules : Rules} {front back s t : Text}

theorem takeWhile_append_of_isTail (hBack : IsTail back) (front : Text) :
    (front ++ back).takeWhile (!isDelimiter ·) = front.takeWhile (!isDelimiter ·) := by
  induction front with
  | nil =>
      cases back with
      | nil => rfl
      | cons c rest =>
          have hDelimiter := hBack c rfl
          simp [hDelimiter]
  | cons c rest ih =>
      rw [List.cons_append, List.takeWhile_cons, List.takeWhile_cons, ih]

theorem dropWhile_append_of_isTail (hBack : IsTail back) (front : Text) :
    (front ++ back).dropWhile (!isDelimiter ·) = front.dropWhile (!isDelimiter ·) ++ back := by
  induction front with
  | nil =>
      cases back with
      | nil => rfl
      | cons c rest =>
          have hDelimiter := hBack c rfl
          simp [hDelimiter]
  | cons c rest ih =>
      rw [List.cons_append, List.dropWhile_cons, List.dropWhile_cons, ih]
      split <;> rfl

/-- A tail is one without the characters that are removed, too. -/
theorem isTail_kept (hBack : IsTail back) : IsTail (kept back) := by
  cases back with
  | nil => exact isTail_nil
  | cons c rest =>
      have hDelimiter := hBack c rfl
      have hKept : isRemoved c = false := by
        simp only [isDelimiter, Bool.or_eq_true, beq_iff_eq] at hDelimiter
        rcases hDelimiter with (rfl | rfl) | rfl <;> rfl
      rw [kept, List.filter_cons_of_pos (by simp [hKept])]
      exact isTail_cons hDelimiter

theorem isTail_dropWhile (t : Text) : IsTail (t.dropWhile (!isDelimiter ·)) := by
  intro c hHead
  have hNot := List.head?_dropWhile_not (!isDelimiter ·) t
  rw [hHead] at hNot
  simpa using hNot

theorem clean_append (hFront : clean front ≠ []) :
    clean (front ++ back) = clean front ++ kept back := by
  have hSome : (front.dropWhile isLeading).isEmpty = false := by
    cases hDrop : front.dropWhile isLeading with
    | nil => simp [clean, kept, hDrop] at hFront
    | cons c rest => rfl
  rw [clean, List.dropWhile_append, hSome, clean]
  simp [kept]

theorem cut_append {c : Char} (hMem : c ∈ front) : cut c (front ++ back) =
    ((cut c front).1, (cut c front).2.map (· ++ back)) := by
  induction front with
  | nil => cases hMem
  | cons d rest ih =>
      by_cases hSame : d = c
      · subst hSame
        simp [cut]
      · have hRest : c ∈ rest := (List.mem_cons.mp hMem).resolve_left (Ne.symm hSame)
        have hTake := congrArg Prod.fst (ih hRest)
        have hDrop := congrArg Prod.snd (ih hRest)
        simp only [cut] at hTake hDrop ⊢
        simp [hSame, hTake, hDrop]

theorem eq_of_cut {c : Char} {start rest : Text} (hCut : cut c t = (start, some rest)) :
    t = start ++ c :: rest := by
  induction t generalizing start with
  | nil => simp [cut] at hCut
  | cons d more ih =>
      by_cases hSame : d = c
      · subst hSame
        simp only [cut, List.takeWhile_cons, List.dropWhile_cons, bne_self_eq_false,
          Bool.false_eq_true, if_false, Prod.mk.injEq, Option.some.injEq] at hCut
        obtain ⟨rfl, rfl⟩ := hCut
        rfl
      · simp only [cut, List.takeWhile_cons, List.dropWhile_cons, bne_iff_ne.mpr hSame, if_true,
          Prod.mk.injEq] at hCut
        obtain ⟨rfl, hRest⟩ := hCut
        exact congrArg (d :: ·) (ih (Prod.ext rfl hRest))

theorem cut_of_mem {c : Char} (hMem : c ∈ t) : ∃ start rest, cut c t = (start, some rest) := by
  refine ⟨(cut c t).1, ?_⟩
  cases hDrop : t.dropWhile (· != c) with
  | nil =>
      have hAll := List.dropWhile_eq_nil_iff.mp hDrop c hMem
      simp at hAll
  | cons d rest => exact ⟨rest, by simp [cut, hDrop]⟩

/-- The scheme of a text is the one of its start, where that has a colon. -/
theorem splitScheme_append (hColon : ':' ∈ front) : splitScheme (front ++ back) =
    ((splitScheme front).1, (splitScheme front).2 ++ back) := by
  obtain ⟨start, rest, hCut⟩ := cut_of_mem hColon
  have hAppend : cut ':' (front ++ back) = _ := cut_append hColon
  rw [hCut] at hAppend
  cases start with
  | nil => simp [splitScheme, hCut, hAppend]
  | cons first scheme =>
      simp only [splitScheme, hCut, hAppend, Option.map_some]
      split <;> rfl

theorem splitNetloc_append (hTwo : 2 ≤ front.length) (hBack : IsTail back) :
    splitNetloc (front ++ back) = ((splitNetloc front).1, (splitNetloc front).2 ++ back) := by
  obtain ⟨first, second, rest, rfl⟩ : ∃ first second rest, front = first :: second :: rest := by
    match front, hTwo with
    | first :: second :: rest, _ => exact ⟨first, second, rest, rfl⟩
  by_cases hSlashes : first = '/' ∧ second = '/'
  · obtain ⟨rfl, rfl⟩ := hSlashes
    simp only [List.cons_append, splitNetloc, takeWhile_append_of_isTail hBack,
      dropWhile_append_of_isTail hBack]
  · have hNone : ∀ more, splitNetloc (first :: second :: more) = ([], first :: second :: more) := by
      intro more
      unfold splitNetloc
      split
      · rename_i hEq
        simp only [List.cons.injEq] at hEq
        exact absurd ⟨hEq.1, hEq.2.1⟩ hSlashes
      · rfl
    simp only [List.cons_append, hNone]

/-- The text has a scheme, and two slashes after it. -/
def Opens (front : Text) : Prop :=
  ':' ∈ clean front ∧ ∃ more, (splitScheme (clean front)).2 = '/' :: '/' :: more

/-- The authority of a url is that of its start, where that has two slashes and ends with it. -/
theorem authority_append (hFront : Opens front) (hBack : IsTail back) :
    authority rules (front ++ back) = authority rules front := by
  obtain ⟨hColon, more, hSlashes⟩ := hFront
  have hSome : clean front ≠ [] := List.ne_nil_of_mem hColon
  have hScheme : splitScheme (clean front ++ kept back) = _ := splitScheme_append hColon
  have hNetloc : splitNetloc ((splitScheme (clean front)).2 ++ kept back) =
      ((splitNetloc (splitScheme (clean front)).2).1,
        (splitNetloc (splitScheme (clean front)).2).2 ++ kept back) :=
    splitNetloc_append (by rw [hSlashes]; simp) (isTail_kept hBack)
  unfold authority urlsplit
  simp only [clean_append hSome, hScheme, hNetloc]
  split
  · rfl
  · rfl

/-- A text that is cleaned to two parts has two parts. -/
theorem exists_of_kept {a b : Text} (hKept : kept t = a ++ b) :
    ∃ a' b', t = a' ++ b' ∧ kept a' = a ∧ kept b' = b ∧
      ∀ c, b'.head? = some c → b.head? = some c := by
  induction t generalizing a with
  | nil =>
      obtain ⟨rfl, rfl⟩ := List.append_eq_nil_iff.mp hKept.symm
      exact ⟨[], [], rfl, rfl, rfl, nofun⟩
  | cons c rest ih =>
      cases hRemoved : isRemoved c with
      | true =>
          have hRest : kept rest = a ++ b := by
            rw [← hKept, kept, kept, List.filter_cons_of_neg (by simp [hRemoved])]
          obtain ⟨a', b', rfl, hA, hB, hHead⟩ := ih hRest
          refine ⟨c :: a', b', rfl, ?_, hB, hHead⟩
          rw [← hA, kept, kept, List.filter_cons_of_neg (by simp [hRemoved])]
      | false =>
          rw [kept, List.filter_cons_of_pos (by simp [hRemoved])] at hKept
          cases a with
          | nil =>
              rw [List.nil_append] at hKept
              refine ⟨[], c :: rest, rfl, rfl, ?_, ?_⟩
              · rw [kept, List.filter_cons_of_pos (by simp [hRemoved])]
                exact hKept
              · rw [← hKept]
                exact fun d hHead => hHead
          | cons d more =>
              obtain ⟨rfl, hRest⟩ := List.cons.inj hKept
              obtain ⟨a', b', rfl, hA, hB, hHead⟩ := ih hRest
              refine ⟨c :: a', b', rfl, ?_, hB, hHead⟩
              rw [← hA, kept, List.filter_cons_of_pos (by simp [hRemoved])]
              rfl

/-- The same for a text that is stripped at its start. -/
theorem exists_of_clean {a b : Text} (hClean : clean t = a ++ b) :
    ∃ a' b', t = a' ++ b' ∧ clean a' = a ∧ ∀ c, b'.head? = some c → b.head? = some c := by
  obtain ⟨a', b', hSplit, hA, -, hHead⟩ := exists_of_kept hClean
  have hDrop : a'.dropWhile isLeading = a' := by
    cases a' with
    | nil => rfl
    | cons c rest =>
        have hNot := List.head?_dropWhile_not isLeading t
        rw [hSplit, List.cons_append, List.head?_cons] at hNot
        rw [List.dropWhile_cons_of_neg]
        simpa using hNot
  refine ⟨t.takeWhile isLeading ++ a', b', ?_, ?_, hHead⟩
  · rw [List.append_assoc, ← hSplit, List.takeWhile_append_dropWhile]
  · have hLead : (t.takeWhile isLeading).dropWhile isLeading = [] :=
      List.dropWhile_eq_nil_iff.mpr fun c hMem => List.mem_takeWhile_imp hMem
    rw [clean, List.dropWhile_append, hLead, List.isEmpty_nil, if_pos rfl, hDrop, hA]

theorem not_mem_of_cut {c : Char} {start : Text} {rest : Option Text}
    (hCut : cut c t = (start, rest)) : c ∉ start := by
  obtain rfl : t.takeWhile (· != c) = start := congrArg Prod.fst hCut
  intro hMem
  have hOther := List.mem_takeWhile_imp hMem
  simp at hOther

/-- What follows the scheme is the whole text, or it is behind the first colon. -/
theorem splitScheme_cases (t : Text) : (splitScheme t).2 = t ∨
    ∃ scheme, ':' ∉ scheme ∧ t = scheme ++ ':' :: (splitScheme t).2 := by
  unfold splitScheme
  split
  · rename_i first scheme rest hCut
    split
    · exact .inr ⟨first :: scheme, not_mem_of_cut hCut, eq_of_cut hCut⟩
    · exact .inl rfl
  · exact .inl rfl

/-- A scheme that is there is before the first colon. -/
theorem exists_of_splitScheme (hScheme : (splitScheme t).1 ≠ []) :
    ∃ scheme, t = scheme ++ ':' :: (splitScheme t).2 ∧
      (splitScheme t).1 = scheme.map Char.toLower := by
  unfold splitScheme at hScheme ⊢
  split
  · rename_i first scheme rest hCut
    rw [hCut] at hScheme
    simp only at hScheme
    split
    · exact ⟨first :: scheme, eq_of_cut hCut, rfl⟩
    · rename_i hNot
      rw [if_neg hNot] at hScheme
      exact absurd rfl hScheme
  · rename_i hNot
    split at hScheme
    · rename_i first scheme rest hCut
      exact absurd hCut (hNot first scheme rest)
    · exact absurd rfl hScheme

/-- A netloc that is there is after two slashes. -/
theorem eq_of_splitNetloc (hNetloc : (splitNetloc t).1 ≠ []) :
    t = '/' :: '/' :: ((splitNetloc t).1 ++ (splitNetloc t).2) := by
  unfold splitNetloc at hNetloc ⊢
  split
  · rw [List.takeWhile_append_dropWhile]
  · rename_i hNot
    split at hNetloc
    · rename_i rest
      exact absurd rfl (hNot rest)
    · exact absurd rfl hNetloc

theorem isTail_splitNetloc (hNetloc : (splitNetloc t).1 ≠ []) : IsTail (splitNetloc t).2 := by
  unfold splitNetloc at hNetloc ⊢
  split
  · exact isTail_dropWhile _
  · rename_i hNot
    split at hNetloc
    · rename_i rest
      exact absurd rfl (hNot rest)
    · exact absurd rfl hNetloc

/-- Cleaning a text keeps a `://` of it. -/
theorem clean_slashes {a b : Text} : ∃ start, start ⊆ a ∧ clean (a ++ ':' :: '/' :: '/' :: b) =
    start ++ ':' :: '/' :: '/' :: kept b := by
  refine ⟨kept (a.dropWhile isLeading), ?_, ?_⟩
  · exact fun c hMem => (List.dropWhile_sublist _).subset (List.mem_of_mem_filter hMem)
  have hDrop : (a ++ ':' :: '/' :: '/' :: b).dropWhile isLeading =
      a.dropWhile isLeading ++ ':' :: '/' :: '/' :: b := by
    have hColon : isLeading ':' = false := rfl
    rw [List.dropWhile_append, List.dropWhile_cons_of_neg (by simp [hColon])]
    split
    · rename_i hEmpty
      rw [List.isEmpty_iff.mp hEmpty, List.nil_append]
    · rfl
  rw [clean, hDrop, kept, List.filter_append]
  rfl

/-- A text with a `://` opens a url that has a netloc. -/
theorem opens_of_slashes {a b : Text} {parts : Split} (hFront : front = a ++ ':' :: '/' :: '/' :: b)
    (hSplit : urlsplit rules (front ++ back) = some parts) (hNetloc : parts.netloc ≠ []) :
    Opens front := by
  obtain ⟨start, -, hClean⟩ := @clean_slashes a b
  rw [← hFront] at hClean
  have hColon : ':' ∈ clean front := by simp [hClean]
  have hAfter : (splitScheme (clean front)).2 =
      (splitScheme (start ++ [':'])).2 ++ '/' :: '/' :: kept b := by
    have hParts : clean front = (start ++ [':']) ++ '/' :: '/' :: kept b := by simp [hClean]
    rw [hParts, splitScheme_append (by simp)]
  obtain ⟨first, second, more, hTwo⟩ : ∃ first second more,
      (splitScheme (clean front)).2 = first :: second :: more := by
    rw [hAfter]
    rcases (splitScheme (start ++ [':'])).2 with _ | ⟨first, _ | ⟨second, rest⟩⟩
    · exact ⟨_, _, _, rfl⟩
    · exact ⟨_, _, _, rfl⟩
    · exact ⟨_, _, _, rfl⟩
  have hSome : clean front ≠ [] := List.ne_nil_of_mem hColon
  unfold urlsplit at hSplit
  simp only [clean_append hSome, splitScheme_append hColon] at hSplit
  split at hSplit
  · obtain rfl := Option.some.inj hSplit
    simp only at hNetloc
    have hSlashes := eq_of_splitNetloc hNetloc
    rw [hTwo] at hSlashes
    simp only [List.cons_append, List.cons.injEq] at hSlashes
    obtain ⟨rfl, rfl, -⟩ := hSlashes
    exact ⟨hColon, more, hTwo⟩
  · cases hSplit

theorem slashes_of_append {netloc : Text} (hColon : ':' ∈ front) (hSplit : t = front ++ back)
    (hWhole : (splitScheme t).2 = '/' :: '/' :: (netloc ++ back)) :
    (splitScheme front).2 = '/' :: '/' :: netloc := by
  rw [hSplit, splitScheme_append hColon] at hWhole
  exact List.append_cancel_right hWhole

/-- A url that has a scheme and a netloc has a start that is just these. -/
theorem exists_front {url : Text} {parts : Split} (hSplit : urlsplit rules url = some parts)
    (hScheme : parts.scheme ≠ []) (hNetloc : parts.netloc ≠ []) :
    ∃ front back scheme, url = front ++ back ∧ IsTail back ∧
      clean front = scheme ++ ':' :: '/' :: '/' :: parts.netloc ∧
      parts.scheme = scheme.map Char.toLower ∧ Opens front := by
  unfold urlsplit at hSplit
  simp only at hSplit
  split at hSplit
  · obtain rfl := Option.some.inj hSplit
    simp only at hScheme hNetloc
    obtain ⟨scheme, hColon, hLower⟩ := exists_of_splitScheme hScheme
    have hSlashes := eq_of_splitNetloc hNetloc
    have hClean : clean url =
        (scheme ++ ':' :: '/' :: '/' :: (splitNetloc (splitScheme (clean url)).2).1) ++
          (splitNetloc (splitScheme (clean url)).2).2 := by
      calc
        clean url = scheme ++ ':' :: (splitScheme (clean url)).2 := hColon
        _ = scheme ++ ':' :: '/' :: '/' :: ((splitNetloc (splitScheme (clean url)).2).1 ++
              (splitNetloc (splitScheme (clean url)).2).2) := by rw [← hSlashes]
        _ = _ := by rw [List.append_assoc]; rfl
    obtain ⟨front, back, rfl, hFront, hHead⟩ := exists_of_clean hClean
    refine ⟨front, back, scheme, rfl, fun c hBack => ?_, hFront, hLower, ?_⟩
    · exact isTail_splitNetloc hNetloc c (hHead c hBack)
    · have hMem : ':' ∈ clean front := by simp [hFront]
      refine ⟨hMem, (splitNetloc (splitScheme (clean (front ++ back))).2).1, ?_⟩
      exact slashes_of_append hMem (hClean.trans (by rw [hFront])) hSlashes
  · cases hSplit

/-! ## The path -/

/-- The path of what follows a netloc. -/
def pathPart (t : Text) : Text := (splitOff '?' (splitOff '#' t).1).1

theorem pathPart_append {start : Text} (hStart : ∀ c ∈ start, c ≠ '?' ∧ c ≠ '#') (t : Text) :
    pathPart (start ++ t) = start ++ pathPart t := by
  unfold pathPart splitOff cut
  simp only
  rw [List.takeWhile_append_of_pos fun c hMem => by simpa using (hStart c hMem).2,
    List.takeWhile_append_of_pos fun c hMem => by simpa using (hStart c hMem).1]

theorem pathPart_through {f : Text → Text} (hHash : Text.Through '#' f)
    (hQuestion : Text.Through '?' f) (t : Text) : pathPart (f t) = f (pathPart t) := by
  unfold pathPart splitOff cut
  simp only
  rw [hHash.takeWhile, hQuestion.takeWhile]

/-- The segments of the path of what follows a netloc, less its first slash. -/
def segments (t : Text) : List Text := (pathPart (kept t)).splitOn '/'

/-- The segments, before the characters that are removed are. -/
theorem segments_eq_map (t : Text) : segments t = ((pathPart t).splitOn '/').map kept := by
  have hKept : ∀ {c : Char}, isRemoved c = false → Text.Through c kept := fun hRemoved =>
    Text.through_filter (by rw [hRemoved, Bool.not_false])
  rw [segments, pathPart_through (hKept rfl) (hKept rfl), (hKept rfl).splitOn]

/-- The netloc of a text with one `://` is all that is behind it. -/
theorem eq_of_slashes {start rest more : Text} (hStart : '/' ∉ start)
    (hSlashes : (splitScheme (start ++ ':' :: '/' :: '/' :: rest)).2 = '/' :: '/' :: more) :
    more = rest := by
  rcases splitScheme_cases (start ++ ':' :: '/' :: '/' :: rest) with
    hWhole | ⟨scheme, hFirst, hSplit⟩
  · rw [hSlashes] at hWhole
    cases start with
    | nil => simp at hWhole
    | cons c others =>
        obtain ⟨rfl, -⟩ := List.cons.inj hWhole
        exact absurd List.mem_cons_self hStart
  · rw [hSlashes] at hSplit
    rcases List.append_eq_append_iff.mp hSplit with ⟨x, hScheme, hRest⟩ | ⟨x, hOther, hRest⟩
    · cases x with
      | nil => simpa using hRest.symm
      | cons c others =>
          obtain ⟨rfl, -⟩ := List.cons.inj hRest
          exact absurd (by simp [hScheme]) hFirst
    · cases x with
      | nil => simpa using hRest
      | cons c others =>
          obtain ⟨rfl, hOthers⟩ := List.cons.inj hRest
          cases others with
          | nil => simp at hOthers
          | cons d others =>
              obtain ⟨rfl, -⟩ := List.cons.inj hOthers
              exact absurd (by simp [hOther]) hStart

/-- A url whose start is a scheme, `://` and a netloc is split there. -/
theorem split_append {a b : Text} {parts : Split} (hFront : front = a ++ ':' :: '/' :: '/' :: b)
    (hA : '/' ∉ a) (hB : ∀ c ∈ b, isDelimiter c = false) (hBack : IsTail back)
    (hSplit : urlsplit rules (front ++ back) = some parts) (hScheme : parts.scheme ≠ [])
    (hNetloc : parts.netloc ≠ []) :
    parts.path = pathPart (kept back) ∧ ∃ scheme,
      clean front = scheme ++ ':' :: '/' :: '/' :: parts.netloc ∧
        parts.scheme = scheme.map Char.toLower := by
  obtain ⟨hColon, more, hSlashes⟩ := opens_of_slashes hFront hSplit hNetloc
  obtain ⟨start, hSub, hClean⟩ := @clean_slashes a b
  rw [← hFront] at hClean
  obtain rfl : more = kept b := by
    rw [hClean] at hSlashes
    exact eq_of_slashes (fun hMem => hA (hSub hMem)) hSlashes
  have hKept : ∀ c ∈ kept b, (!isDelimiter c) = true := fun c hMem => by
    rw [hB c (List.mem_of_mem_filter hMem), Bool.not_false]
  have hDrop : (kept b).dropWhile (!isDelimiter ·) = [] := List.dropWhile_eq_nil_iff.mpr hKept
  have hRest : splitNetloc ((splitScheme (clean front)).2 ++ kept back) = (kept b, kept back) := by
    rw [hSlashes, List.cons_append, List.cons_append, splitNetloc,
      takeWhile_append_of_isTail (isTail_kept hBack),
      dropWhile_append_of_isTail (isTail_kept hBack), hDrop, List.nil_append, List.takeWhile_eq_self_iff.mpr hKept]
  unfold urlsplit at hSplit
  simp only [clean_append (List.ne_nil_of_mem hColon), splitScheme_append hColon, hRest] at hSplit
  split at hSplit
  · obtain rfl := Option.some.inj hSplit
    obtain ⟨scheme, hStart, hLower⟩ := exists_of_splitScheme hScheme
    rw [hSlashes] at hStart
    exact ⟨rfl, scheme, hStart, hLower⟩
  · cases hSplit

/-! ## The characters of a quoted text -/

theorem mem_percent {byte : UInt8} {c : Char} (hMem : c ∈ percent byte) :
    isUnreserved c = true ∨ c = '%' := by
  have hDigits : ∀ n < 16, isUnreserved (hexDigit n) = true := by decide
  have hByte : byte.toNat < 256 := byte.toNat_lt
  simp only [percent, List.mem_cons, List.not_mem_nil, or_false] at hMem
  rcases hMem with rfl | rfl | rfl
  · exact .inr rfl
  · exact .inl (hDigits _ (by omega))
  · exact .inl (hDigits _ (by omega))

theorem mem_quote {t : Text} {c : Char} (hMem : c ∈ quote t) : isUnreserved c = true ∨ c = '%' := by
  obtain ⟨d, -, hChar⟩ := List.mem_flatMap.mp hMem
  unfold quoteChar at hChar
  split at hChar
  · rename_i hUnreserved
    obtain rfl := List.mem_singleton.mp hChar
    exact .inl hUnreserved
  · obtain ⟨byte, -, hByte⟩ := List.mem_flatMap.mp hChar
    exact mem_percent hByte

/-- What is not a dot is not quoted to dots. -/
theorem exists_mem_quote {t : Text} {c : Char} (hMem : c ∈ t) (hOther : c ≠ '.') :
    ∃ d ∈ quote t, d ≠ '.' := by
  have hChar : ∃ d ∈ quoteChar c, d ≠ '.' := by
    unfold quoteChar
    split
    · exact ⟨c, List.mem_singleton_self c, hOther⟩
    · have hSome : String.utf8EncodeChar c ≠ [] := by
        rw [← List.length_pos_iff, String.length_utf8EncodeChar]
        exact c.utf8Size_pos
      obtain ⟨byte, others, hBytes⟩ := List.exists_cons_of_ne_nil hSome
      refine ⟨'%', ?_, by decide⟩
      rw [hBytes, List.flatMap_cons]
      exact List.mem_append_left _ List.mem_cons_self
  obtain ⟨d, hD, hNot⟩ := hChar
  exact ⟨d, List.mem_flatMap.mpr ⟨c, hMem, hD⟩, hNot⟩

end Url
end OctoForge
