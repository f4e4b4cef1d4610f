import OctoForge.Coop.Outcome
import OctoForge.Telegram.Chunks
import OctoForge.Telegram.Flush

/-!
# The messages of a draft are its chunks

As long as nothing slips, the sealed messages of a draft are the first chunks of every
later composition: under one status line the composed text only grows, and a text that
grows keeps its chunks up to the last.  A flush that fails leaves the draft in the same
order, and one flush at a time writes.
-/

namespace OctoForge
namespace Telegram

open Coop
open Co (Deal deal_done deal_fail deal_read deal_modify deal_atomic deal_attempt deal_blockUntil Left)

/-! ## A text that grows -/

theorem rstripNewlines_isPrefix {text text' : Text} (hPrefix : text <+: text') :
    rstripNewlines text <+: rstripNewlines text' := by
  obtain ⟨more, rfl⟩ := hPrefix
  induction more using List.reverseRecOn with
  | nil => simp
  | append_singleton more c ih =>
      rw [← List.append_assoc, rstripNewlines, rstripNewlines, List.rdropWhile_concat]
      split
      · exact ih
      · exact (List.rdropWhile_prefix _ text).trans
          ((List.prefix_append text more).trans (List.prefix_append _ [c]))

/-- What stands between the status line and the end of the message. -/
def Draft.answer (d : Draft) : Text := rstripNewlines d.buffer

theorem Draft.compose_cases (d : Draft) :
    statusBlock d.status = [] ∧ d.compose = d.answer ∨
      ∃ line, statusBlock d.status = [line] ∧
        d.compose = line ++ if d.answer = [] then [] else '\n' :: d.answer := by
  by_cases hStatus : d.status = []
  · refine Or.inl ⟨by simp [statusBlock, hStatus], ?_⟩
    by_cases hAnswer : d.answer = [] <;>
      simp_all [Draft.compose, Draft.answer, statusBlock, List.intercalate]
  · refine Or.inr ⟨_, by rw [statusBlock, if_neg hStatus], ?_⟩
    by_cases hAnswer : d.answer = [] <;>
      simp_all [Draft.compose, Draft.answer, statusBlock, List.intercalate]

theorem Draft.compose_isPrefix {d d' : Draft}
    (hBlock : statusBlock d.status = statusBlock d'.status) (hBuffer : d.buffer <+: d'.buffer) :
    d.compose <+: d'.compose := by
  have hAnswer : d.answer <+: d'.answer := rstripNewlines_isPrefix hBuffer
  rcases d.compose_cases with ⟨hNone, hText⟩ | ⟨line, hLine, hText⟩
  · rcases d'.compose_cases with ⟨-, hText'⟩ | ⟨line', hLine', -⟩
    · rw [hText, hText']
      exact hAnswer
    · simp [← hBlock, hNone] at hLine'
  · rcases d'.compose_cases with ⟨hNone', -⟩ | ⟨line', hLine', hText'⟩
    · simp [← hBlock, hLine] at hNone'
    · obtain rfl : line = line' := by simpa [hBlock, hLine'] using hLine.symm
      rw [hText, hText', List.prefix_append_right_inj]
      split
      · exact List.nil_prefix
      · rename_i hSome
        have hSome' : d'.answer ≠ [] := by
          intro hNone
          rw [hNone] at hAnswer
          exact hSome (List.prefix_nil.mp hAnswer)
        rw [if_neg hSome']
        exact List.cons_prefix_cons.mpr ⟨rfl, hAnswer⟩

/-- The chunks of a composition. -/
def Draft.chunks (d : Draft) : List Text := splitMarkdown maxRichMessageLength d.compose

theorem Draft.chunks_ne_nil (d : Draft) : d.chunks ≠ [] := splitMarkdown_ne_nil _ _

theorem Draft.chunks_isPrefix {d d' : Draft}
    (hBlock : statusBlock d.status = statusBlock d'.status) (hBuffer : d.buffer <+: d'.buffer) :
    d.chunks.dropLast <+: d'.chunks ∧ d.chunks.length ≤ d'.chunks.length := by
  obtain ⟨more, hMore⟩ := Draft.compose_isPrefix hBlock hBuffer
  rw [Draft.chunks, Draft.chunks, ← hMore]
  exact splitMarkdown_append (by decide) d.compose more

theorem Draft.getD_chunks_ne_nil {d : Draft} (hText : d.compose ≠ []) {place : Nat}
    (hPlace : place < d.chunks.length) : d.chunks.getD place [] ≠ [] := by
  have hMem : d.chunks.getD place [] ∈ d.chunks := by simp [hPlace]
  have hLimit : 0 < maxRichMessageLength := by decide
  exact ne_nil_of_mem_splitMarkdown hLimit hText hMem

theorem Draft.getLastD_chunks_ne_nil {d : Draft} (hText : d.compose ≠ []) :
    d.chunks.getLastD [] ≠ [] := by
  rw [List.getLastD_eq_getLast?, List.getLast?_eq_some_getLast d.chunks_ne_nil]
  exact ne_nil_of_mem_splitMarkdown (by decide) hText (List.getLast_mem d.chunks_ne_nil)

/-- What may be sealed of one composition may be sealed of a later one. -/
theorem Draft.sealed_isPrefix {d d' : Draft} {done : List Text}
    (hBlock : statusBlock d.status = statusBlock d'.status) (hBuffer : d.buffer <+: d'.buffer)
    (hDone : done <+: d.chunks.dropLast) : done <+: d'.chunks.dropLast := by
  obtain ⟨hPrefix, hLength⟩ := Draft.chunks_isPrefix hBlock hBuffer
  refine List.prefix_of_prefix_length_le (hDone.trans hPrefix) (List.dropLast_prefix _) ?_
  have hDone' := hDone.length_le
  rw [List.length_dropLast] at hDone' ⊢
  omega

/-! ## The messages of the draft -/

/-- What the bridge knows of its messages, and what is in them. -/
structure Page where
  messageId : Option Nat
  delivered : Text
  wrote : List Nat
  texts : List Text

def Screen.page (s : Screen) : Page where
  messageId := s.draft.messageId
  delivered := s.draft.deliveredText
  wrote := s.wrote
  texts := s.texts

/-- The sealed messages hold `done`, and the message that is being written comes after
them: there is none yet, or it is the one the draft was restored with, or it has been
written. -/
inductive Page.Follows (done : List Text) (page : Page) : Prop where
  | fresh (hId : page.messageId = none) (hTexts : page.texts = done) (hBlank : page.delivered = [])
  | kept (id : Nat) (hId : page.messageId = some id) (hWrote : page.wrote = [])
      (hTexts : page.texts = done) (hBlank : page.delivered = [])
  | open (id : Nat) (text : Text) (hId : page.messageId = some id)
      (hLast : page.wrote.getLast? = some id) (hTexts : page.texts = done ++ [text])
      (hText : page.delivered = text ∨ page.delivered = [])

/-- The message that is being written holds `text`, and the bridge knows it. -/
def Page.Shows (done : List Text) (text : Text) (page : Page) : Prop :=
  ∃ id, page.messageId = some id ∧ page.wrote.getLast? = some id ∧ page.texts = done ++ [text] ∧
    page.delivered = text

theorem Page.Shows.follows {done : List Text} {text : Text} {page : Page}
    (hShows : page.Shows done text) : page.Follows done := by
  obtain ⟨id, hId, hLast, hTexts, hText⟩ := hShows
  exact .open id text hId hLast hTexts (Or.inl hText)

/-- A chunk that needs no request is what the message shows. -/
theorem Page.Follows.shows {done : List Text} {page : Page} (hFollows : page.Follows done)
    (hSome : page.delivered ≠ []) : page.Shows done page.delivered := by
  cases hFollows with
  | fresh _ _ hBlank => exact absurd hBlank hSome
  | kept _ _ _ _ hBlank => exact absurd hBlank hSome
  | «open» id text hId hLast hTexts hText =>
      rcases hText with hText | hBlank
      · exact ⟨id, hId, hLast, hText ▸ hTexts, rfl⟩
      · exact absurd hBlank hSome

/-- The sealed chunks, and what they are chunks of. -/
structure Sealed (done : List Text) (s : Screen) : Prop where
  fresh : s.wrote.Nodup
  known : ∀ id ∈ s.wrote, id < s.messages.length
  count : s.draft.sealedChunks = s.restored + done.length
  backed : done ≠ [] → s.restored = 0 ∧ ∃ d, s.sealedFrom = some d ∧
    d.buffer <+: s.draft.buffer ∧ done <+: d.chunks.dropLast

/-! ## The protocol -/

/-- A step that leaves the messages of the draft to whoever writes them. -/
structure Same (s s' : Screen) : Prop where
  messageId : s'.draft.messageId = s.draft.messageId
  delivered : s'.draft.deliveredText = s.draft.deliveredText
  sealedChunks : s'.draft.sealedChunks = s.draft.sealedChunks
  sealedFrom : s'.sealedFrom = s.sealedFrom
  wrote : s'.wrote = s.wrote
  messages : s.messages <+: s'.messages

/-- Nothing but the text of the draft moves. -/
structure Quiet (s s' : Screen) : Prop where
  same : Same s s'
  buffer : s.draft.buffer <+: s'.draft.buffer
  restored : s'.restored = s.restored
  flushing : s'.flushing = s.flushing
  finished : s'.finished = s.finished
  slips : s'.slips = s.slips

/-- A step of `me`: unless something slips, the flush of another one goes on where it
was. -/
structure Turn (me : Nat) (s s' : Screen) : Prop where
  slips : s.slips <+: s'.slips
  buffer : s.draft.buffer <+: s'.draft.buffer
  restored : s'.restored = s.restored
  others : s'.slips = [] → ∀ other, s.flushing = some other → other ≠ me →
    s'.flushing = some other ∧ Same s s'

structure Sound (s : Screen) : Prop where
  rested : s.slips = [] → s.flushing = none → ∃ done, Sealed done s ∧ s.page.Follows done
  told : s.slips = [] → ∀ entry ∈ s.finished, entry.1 ≠ [] →
    entry.2 = splitMarkdown maxRichMessageLength entry.1

def drawingProtocol : Protocol Screen where
  inv := Sound
  guarantee := Turn
  env := Quiet

theorem Same.refl (s : Screen) : Same s s := ⟨rfl, rfl, rfl, rfl, rfl, List.prefix_rfl⟩

theorem Quiet.refl (s : Screen) : Quiet s s :=
  ⟨Same.refl s, List.prefix_rfl, rfl, rfl, rfl, rfl⟩

theorem Quiet.turn {me : Nat} {s s' : Screen} (hQuiet : Quiet s s') : Turn me s s' :=
  ⟨hQuiet.slips ▸ List.prefix_rfl, hQuiet.buffer, hQuiet.restored,
    fun _ _ hOther _ => ⟨hQuiet.flushing.trans hOther, hQuiet.same⟩⟩

theorem Turn.clean {me : Nat} {s s' : Screen} (hTurn : Turn me s s') (hClean : s'.slips = []) :
    s.slips = [] :=
  List.prefix_nil.mp (hClean ▸ hTurn.slips)

section Same

variable {s s' : Screen} {done : List Text}

theorem Same.texts (hSame : Same s s') (hKnown : ∀ id ∈ s.wrote, id < s.messages.length) :
    s'.texts = s.texts := by
  rw [Screen.texts, Screen.texts, hSame.wrote]
  refine List.map_congr_left fun id hMem => ?_
  obtain ⟨more, hMore⟩ := hSame.messages
  simp [← hMore, List.getElem?_append_left (hKnown id hMem)]

theorem Same.page (hSame : Same s s') (hKnown : ∀ id ∈ s.wrote, id < s.messages.length) :
    s'.page = s.page := by
  simp only [Screen.page, hSame.messageId, hSame.delivered, hSame.wrote, hSame.texts hKnown]

theorem Same.sealed (hSame : Same s s') (hBuffer : s.draft.buffer <+: s'.draft.buffer)
    (hRestored : s'.restored = s.restored) (hSealed : Sealed done s) : Sealed done s' := by
  refine ⟨hSame.wrote ▸ hSealed.fresh, fun id hMem => ?_, ?_, fun hSome => ?_⟩
  · rw [hSame.wrote] at hMem
    exact Nat.lt_of_lt_of_le (hSealed.known id hMem) hSame.messages.length_le
  · rw [hSame.sealedChunks, hRestored, hSealed.count]
  · obtain ⟨hZero, d, hFrom, hGrown, hDone⟩ := hSealed.backed hSome
    exact ⟨hRestored.trans hZero, d, hSame.sealedFrom.trans hFrom, hGrown.trans hBuffer, hDone⟩

end Same

theorem Quiet.sound {s s' : Screen} (hQuiet : Quiet s s') (hSound : Sound s) : Sound s' := by
  refine ⟨fun hClean hNone => ?_, fun hClean => ?_⟩
  · obtain ⟨done, hSealed, hFollows⟩ :=
      hSound.rested (hQuiet.slips ▸ hClean) (hQuiet.flushing ▸ hNone)
    refine ⟨done, hQuiet.same.sealed hQuiet.buffer hQuiet.restored hSealed, ?_⟩
    rw [hQuiet.same.page hSealed.known]
    exact hFollows
  · rw [hQuiet.finished]
    exact hSound.told (hQuiet.slips ▸ hClean)

/-! ## A flush under way -/

/-- The coroutine `me` flushes what was composed as `d`, and `done` is sealed. -/
structure Working (me : Nat) (d : Draft) (done : List Text) (s : Screen) : Prop where
  flushing : s.flushing = some me
  isSealed : Sealed done s
  text : d.compose ≠ []
  grown : d.buffer <+: s.draft.buffer
  chunks : done <+: d.chunks.dropLast
  whole : s.restored = 0 ∨ d.chunks.length = 1

/-- Unless something has slipped, the flush is where `Y` says. -/
def During (me : Nat) (d : Draft) (Y : List Text → Page → Prop) (s : Screen) : Prop :=
  s.slips = [] → ∃ done, Working me d done s ∧ Y done s.page

theorem Working.same {me : Nat} {d : Draft} {done : List Text} {s s' : Screen}
    (hWorking : Working me d done s) (hSame : Same s s') (hFlushing : s'.flushing = some me)
    (hBuffer : s.draft.buffer <+: s'.draft.buffer) (hRestored : s'.restored = s.restored) :
    Working me d done s' :=
  ⟨hFlushing, hSame.sealed hBuffer hRestored hWorking.isSealed, hWorking.text,
    hWorking.grown.trans hBuffer, hWorking.chunks, hRestored ▸ hWorking.whole⟩

theorem stable_during (me : Nat) (d : Draft) (Y : List Text → Page → Prop) :
    drawingProtocol.Stable me fun s => Sound s ∧ During me d Y s := by
  intro s s' hBoth hRely
  obtain ⟨hSound', hStep⟩ := hRely
  refine ⟨hSound', fun hClean => ?_⟩
  rcases hStep with ⟨other, hOther, hTurn⟩ | hQuiet
  · obtain ⟨done, hWorking, hY⟩ := hBoth.2 (hTurn.clean hClean)
    obtain ⟨hFlushing, hSame⟩ :=
      hTurn.others hClean me hWorking.flushing fun hEq => hOther hEq.symm
    refine ⟨done, hWorking.same hSame hFlushing hTurn.buffer hTurn.restored, ?_⟩
    rw [hSame.page hWorking.isSealed.known]
    exact hY
  · obtain ⟨done, hWorking, hY⟩ := hBoth.2 (hQuiet.slips ▸ hClean)
    have hFlushing := hQuiet.flushing.trans hWorking.flushing
    refine ⟨done, hWorking.same hQuiet.same hFlushing hQuiet.buffer hQuiet.restored, ?_⟩
    rw [hQuiet.same.page hWorking.isSealed.known]
    exact hY

/-- A step of the coroutine that flushes. -/
structure Own (s s' : Screen) : Prop where
  slips : s.slips <+: s'.slips
  buffer : s'.draft.buffer = s.draft.buffer
  restored : s'.restored = s.restored
  flushing : s'.flushing = s.flushing
  finished : s'.finished = s.finished

theorem Own.refl (s : Screen) : Own s s := ⟨List.prefix_rfl, rfl, rfl, rfl, rfl⟩

section Own

variable {me : Nat} {d : Draft} {s s' : Screen} {Y : List Text → Page → Prop}

theorem Own.turn (hOwn : Own s s') (hDuring : During me d Y s) : Turn me s s' := by
  refine ⟨hOwn.slips, hOwn.buffer ▸ List.prefix_rfl, hOwn.restored, ?_⟩
  intro hClean other hOther hNe
  obtain ⟨_, hWorking, -⟩ := hDuring (List.prefix_nil.mp (hClean ▸ hOwn.slips))
  exact absurd (Option.some.inj (hOther.symm.trans hWorking.flushing)) hNe

theorem Own.sound (hOwn : Own s s') (hSound : Sound s) (hDuring : During me d Y s) : Sound s' := by
  refine ⟨fun hClean hNone => ?_, fun hClean => ?_⟩
  · obtain ⟨_, hWorking, -⟩ := hDuring (List.prefix_nil.mp (hClean ▸ hOwn.slips))
    rw [hOwn.flushing, hWorking.flushing] at hNone
    cases hNone
  · rw [hOwn.finished]
    exact hSound.told (List.prefix_nil.mp (hClean ▸ hOwn.slips))

end Own

theorem Working.step {me : Nat} {d : Draft} {done done' : List Text} {s s' : Screen}
    (hWorking : Working me d done s) (hOwn : Own s s') (hSealed : Sealed done' s')
    (hDone : done' <+: d.chunks.dropLast) : Working me d done' s' :=
  ⟨hOwn.flushing.trans hWorking.flushing, hSealed, hWorking.text, hOwn.buffer ▸ hWorking.grown,
    hDone, hOwn.restored ▸ hWorking.whole⟩

theorem During.mono {me : Nat} {d : Draft} {Y Y' : List Text → Page → Prop} {s : Screen}
    (hDuring : During me d Y s) (hMono : ∀ done page, Y done page → Y' done page) :
    During me d Y' s := by
  intro hClean
  obtain ⟨done, hWorking, hY⟩ := hDuring hClean
  exact ⟨done, hWorking, hMono done s.page hY⟩

theorem during_slip {me : Nat} {d : Draft} {Y : List Text → Page → Prop} {s : Screen} {what : Slip} :
    During me d Y (s.slip what) :=
  fun hClean => absurd hClean (by simp [Screen.slip])

section Steps

variable {α : Type} {me : Nat} {d : Draft} {Y : List Text → Page → Prop} {B : α → Screen → Prop}
  {E : FlushError → Screen → Prop}

theorem deal_own {f : Screen → Except FlushError α × Screen} (hOwn : ∀ s, Own s (f s).2)
    (hStep : ∀ s, During me d Y s → Left B E (f s).1 (f s).2) :
    Deal drawingProtocol me (During me d Y) (Co.attempt f) B E :=
  deal_attempt (stable_during me d Y) fun s hSound hDuring =>
    ⟨(hOwn s).sound hSound hDuring, (hOwn s).turn hDuring, hStep s hDuring⟩

theorem deal_look {f : Screen → α} (hStep : ∀ s, During me d Y s → B (f s) s) :
    Deal drawingProtocol me (During me d Y) (Co.read f) B E :=
  deal_read (stable_during me d Y) fun s _ hDuring =>
    ⟨(Own.refl s).turn hDuring, hStep s hDuring⟩

end Steps

/-! ## A request -/

/-- A message of the bridge that holds `text` has come after those of the sealed chunks. -/
def Page.Holds (id : Nat) (text : Text) (done : List Text) (page : Page) : Prop :=
  page.wrote.getLast? = some id ∧ page.texts = done ++ [text]

theorem own_land {α : Type} {request : Screen → Option (α × Screen)} {s : Screen}
    (hOwn : ∀ value s', request s = some (value, s') → Own s s') :
    Own s (Screen.land request s).2 := by
  unfold Screen.land
  split
  · rename_i value s' hRequest _
    exact hOwn value s' hRequest
  · rename_i value s' hRequest _
    have hStep := hOwn value s' hRequest
    exact ⟨hStep.slips.trans (List.prefix_append _ _), hStep.buffer, hStep.restored, hStep.flushing,
      hStep.finished⟩
  · exact Own.refl s

/-- A request that is not carried out leaves everything as it was, and one whose answer
is lost is a slip. -/
theorem deal_land {α : Type} {me : Nat} {d : Draft} {Y : List Text → Page → Prop}
    {Z : α → List Text → Page → Prop} {request : Screen → Option (α × Screen)}
    (hOwn : ∀ s value s', request s = some (value, s') → Own s s')
    (hLands : ∀ s value s' done, request s = some (value, s') → Working me d done s → Y done s.page →
      Sealed done s' ∧ Z value done s'.page) :
    Deal drawingProtocol me (During me d Y) (Co.attempt (Screen.land request))
      (fun value => During me d (Z value)) (fun _ => During me d Y) := by
  refine deal_own (fun s => own_land (hOwn s)) fun s hDuring => ?_
  unfold Screen.land
  split
  · rename_i value s' hRequest _
    have hStep := hOwn s value s' hRequest
    intro hClean
    obtain ⟨done, hWorking, hY⟩ := hDuring (List.prefix_nil.mp (hClean ▸ hStep.slips))
    obtain ⟨hSealed, hZ⟩ := hLands s value s' done hRequest hWorking hY
    exact ⟨done, hWorking.step hStep hSealed hWorking.chunks, hZ⟩
  · exact during_slip
  · exact hDuring

theorem deal_answered {who : Flusher} {d : Draft} {Y Z : List Text → Page → Prop} {f : Draft → Draft}
    {E : List Text → Page → Prop}
    (hDraft : ∀ d, (f d).buffer = d.buffer ∧ (f d).sealedChunks = d.sealedChunks)
    (hPage : ∀ done (s : Screen), Y done s.page → Z done (s.onDraft f).page) :
    Deal drawingProtocol who.me (During who.me d Y) (Co.attempt (Screen.answered who f))
      (fun _ => During who.me d Z) (fun _ => During who.me d E) := by
  have hOwn : ∀ s : Screen, Own s (s.onDraft f) := fun s =>
    ⟨List.prefix_rfl, (hDraft s.draft).1, rfl, rfl, rfl⟩
  refine deal_own (fun s => ?_) fun s hDuring => ?_
  · unfold Screen.answered
    split
    · exact ⟨List.prefix_append _ _, rfl, rfl, rfl, rfl⟩
    · exact hOwn s
  · unfold Screen.answered
    split
    · exact during_slip
    · intro hClean
      obtain ⟨done, hWorking, hY⟩ := hDuring hClean
      have hSealed := hWorking.isSealed
      refine ⟨done, hWorking.step (hOwn s) ⟨hSealed.fresh, hSealed.known, ?_, ?_⟩ hWorking.chunks,
        hPage done s hY⟩
      · exact (hDraft s.draft).2.trans hSealed.count
      · intro hSome
        obtain ⟨hZero, d', hFrom, hGrown, hDone⟩ := hSealed.backed hSome
        exact ⟨hZero, d', hFrom, (hDraft s.draft).1 ▸ hGrown, hDone⟩

section Requests

variable {me : Nat} {d : Draft} {R : List Text → Prop} {markdown : Text}

theorem deal_send :
    Deal drawingProtocol me
      (During me d fun done page => (page.Follows done ∧ R done) ∧ page.messageId = none)
      (Co.attempt (Screen.land (Screen.sendRichMessage markdown)))
      (fun id => During me d fun done page =>
        page.Holds id markdown done ∧ R done ∧ page.delivered = [])
      (fun _ => During me d fun done page => (page.Follows done ∧ R done) ∧ page.messageId = none) := by
  refine deal_land (Z := fun id done page =>
    page.Holds id markdown done ∧ R done ∧ page.delivered = []) ?_ ?_
  · intro s id s' hRequest
    simp only [Screen.sendRichMessage, Option.some.injEq, Prod.mk.injEq] at hRequest
    obtain ⟨-, rfl⟩ := hRequest
    exact ⟨List.prefix_rfl, rfl, rfl, rfl, rfl⟩
  · intro s id s' done hRequest hWorking hY
    simp only [Screen.sendRichMessage, Option.some.injEq, Prod.mk.injEq] at hRequest
    obtain ⟨rfl, rfl⟩ := hRequest
    obtain ⟨⟨hFollows, hR⟩, hNone⟩ := hY
    have hSealed := hWorking.isSealed
    -- the message is the newest of the chat, so none of the written ones is it
    have hNew : s.messages.length ∉ s.wrote := fun hMem => Nat.lt_irrefl _ (hSealed.known _ hMem)
    refine ⟨⟨?_, ?_, hSealed.count, hSealed.backed⟩, ⟨by simp [Screen.page], ?_⟩, hR, ?_⟩
    · show (s.wrote ++ [s.messages.length]).Nodup
      rw [List.nodup_append]
      refine ⟨hSealed.fresh, by simp, fun id hMem other hOther => ?_⟩
      rintro rfl
      exact hNew (List.mem_singleton.mp hOther ▸ hMem)
    · intro id hMem
      rw [List.length_append, List.length_singleton]
      rcases List.mem_append.mp hMem with hOld | hOld
      · have hLt := hSealed.known id hOld
        omega
      · have hEq := List.mem_singleton.mp hOld
        omega
    · have hOld : s.texts = done := by
        cases hFollows with
        | fresh _ hTexts _ => exact hTexts
        | kept _ hId _ _ _ => exact absurd (hId.symm.trans hNone) (by simp)
        | «open» _ _ hId _ _ _ => exact absurd (hId.symm.trans hNone) (by simp)
      rw [← hOld]
      simp only [Screen.page, Screen.texts, List.map_append, List.map_singleton]
      congr 1
      · refine List.map_congr_left fun id hMem => ?_
        simp [List.getElem?_append_left (hSealed.known id hMem)]
      · simp
    · show s.draft.deliveredText = []
      cases hFollows with
      | fresh _ _ hBlank => exact hBlank
      | kept _ hId _ _ _ => exact absurd (hId.symm.trans hNone) (by simp)
      | «open» _ _ hId _ _ _ => exact absurd (hId.symm.trans hNone) (by simp)

/-- The texts of the messages after an edit of the last one. -/
theorem texts_set {s : Screen} {id : Nat} {earlier : List Nat} {text : Text} {done : List Text}
    (hFresh : s.wrote.Nodup) (hBound : id < s.messages.length) (hLast : s.wrote = earlier ++ [id])
    (hTexts : s.texts = done ++ [text]) :
    (s.wrote.map fun other => (s.messages.set id markdown).getD other []) = done ++ [markdown] := by
  rw [Screen.texts, hLast, List.map_append, List.map_singleton] at hTexts
  obtain ⟨hEarlier, -⟩ := List.append_inj' hTexts rfl
  rw [hLast, List.map_append, List.map_singleton, ← hEarlier]
  congr 1
  · refine List.map_congr_left fun other hMem => ?_
    have hNe : id ≠ other := by
      rintro rfl
      rw [hLast, List.nodup_append] at hFresh
      exact hFresh.2.2 id hMem id (List.mem_singleton.mpr rfl) rfl
    simp [List.getElem?_set_ne hNe]
  · simp [hBound]

theorem deal_edit {id : Nat} :
    Deal drawingProtocol me
      (During me d fun done page => (page.Follows done ∧ R done) ∧ page.messageId = some id)
      (Co.attempt (Screen.land (Screen.editMessageRich id markdown)))
      (fun _ => During me d fun done page =>
        page.Holds id markdown done ∧ R done ∧ page.messageId = some id)
      (fun _ => During me d fun done page =>
        (page.Follows done ∧ R done) ∧ page.messageId = some id) := by
  refine deal_land (Z := fun _ done page =>
    page.Holds id markdown done ∧ R done ∧ page.messageId = some id) ?_ ?_
  · intro s value s' hRequest
    unfold Screen.editMessageRich at hRequest
    split at hRequest
    · simp only [Option.some.injEq, Prod.mk.injEq] at hRequest
      obtain ⟨-, rfl⟩ := hRequest
      exact ⟨List.prefix_rfl, rfl, rfl, rfl, rfl⟩
    · cases hRequest
  · intro s value s' done hRequest hWorking hY
    obtain ⟨⟨hFollows, hR⟩, hId⟩ := hY
    have hSealed := hWorking.isSealed
    unfold Screen.editMessageRich at hRequest
    split at hRequest
    · rename_i hBound
      simp only [Option.some.injEq, Prod.mk.injEq] at hRequest
      obtain ⟨-, rfl⟩ := hRequest
      cases hFollows with
      | fresh hNone _ _ => exact absurd (hId.symm.trans hNone) (by simp)
      | kept other hOther hWrote hTexts hBlank =>
          -- the message of the draft's last owner is written for the first time
          replace hWrote : s.wrote = [] := hWrote
          have hDone : done = [] := by
            rw [← hTexts]
            simp [Screen.page, Screen.texts, hWrote]
          subst hDone
          refine ⟨⟨?_, ?_, hSealed.count, hSealed.backed⟩, ⟨?_, ?_⟩, hR, hId⟩
          · simp [hWrote]
          · simpa [hWrote] using hBound
          · simp [Screen.page, hWrote]
          · simp [Screen.page, Screen.texts, hWrote, hBound]
      | «open» other text hOther hLast hTexts hText =>
          obtain rfl : other = id := Option.some.inj (hOther.symm.trans hId)
          obtain ⟨earlier, hEarlier⟩ := List.getLast?_eq_some_iff.mp hLast
          replace hEarlier : s.wrote = earlier ++ [other] := hEarlier
          have hMem : other ∈ s.wrote := by simp [hEarlier]
          refine ⟨⟨?_, ?_, hSealed.count, hSealed.backed⟩, ⟨?_, ?_⟩, hR, hId⟩
          · simpa [hMem] using hSealed.fresh
          · simpa [hMem] using hSealed.known
          · simpa [Screen.page, hMem] using hLast
          · simp only [Screen.page, Screen.texts, hMem, if_true]
            exact texts_set hSealed.fresh hBound hEarlier hTexts
    · cases hRequest

end Requests

/-! ## A flush -/

section Flush

variable {who : Flusher} {d : Draft} {R : List Text → Prop} {markdown : Text}

theorem deal_remember (id : Nat) :
    Deal drawingProtocol who.me
      (During who.me d fun done page =>
        page.Holds id markdown done ∧ R done ∧ page.messageId = some id ∧ page.delivered = [])
      (Co.attempt (Screen.remember who markdown))
      (fun _ => During who.me d fun done page => page.Shows done markdown ∧ R done)
      (fun _ => During who.me d fun done page => page.Follows done) := by
  refine deal_own (fun s => ?_) fun s hDuring => ?_
  · dsimp only [Screen.remember]
    split
    · exact ⟨List.prefix_rfl, rfl, rfl, rfl, rfl⟩
    · exact ⟨List.prefix_rfl, rfl, rfl, rfl, rfl⟩
  · dsimp only [Screen.remember]
    split
    · intro hClean
      obtain ⟨done, hWorking, ⟨hLast, hTexts⟩, -, hId, hBlank⟩ := hDuring hClean
      have hSealed := hWorking.isSealed
      exact ⟨done, hWorking.step ⟨List.prefix_rfl, rfl, rfl, rfl, rfl⟩
        ⟨hSealed.fresh, hSealed.known, hSealed.count, hSealed.backed⟩ hWorking.chunks,
        .open id markdown hId hLast hTexts (Or.inr hBlank)⟩
    · intro hClean
      obtain ⟨done, hWorking, ⟨hLast, hTexts⟩, hR, hId, -⟩ := hDuring hClean
      have hSealed := hWorking.isSealed
      exact ⟨done, hWorking.step ⟨List.prefix_rfl, rfl, rfl, rfl, rfl⟩
        ⟨hSealed.fresh, hSealed.known, hSealed.count, hSealed.backed⟩ hWorking.chunks,
        ⟨id, hId, hLast, hTexts, rfl⟩, hR⟩

theorem deal_deliver :
    Deal drawingProtocol who.me (During who.me d fun done page => page.Follows done ∧ R done)
      (deliver who markdown)
      (fun _ => During who.me d fun done page => page.Shows done markdown ∧ R done)
      (fun _ => During who.me d fun done page => page.Follows done) := by
  refine Deal.bind (B := fun id => During who.me d fun done page =>
    (page.Follows done ∧ R done) ∧ page.messageId = id) ?_ fun id => ?_
  · refine deal_look fun s hDuring hClean => ?_
    obtain ⟨done, hWorking, hY⟩ := hDuring hClean
    exact ⟨done, hWorking, hY, rfl⟩
  · cases id with
    | none =>
        refine Deal.bind (deal_send.mono (fun _ _ hA => hA) (fun _ _ _ hB => hB)
          fun _ _ _ hE => hE.mono fun _ _ hY => hY.1.1) fun id => ?_
        refine Deal.bind (deal_answered (fun _ => ⟨rfl, rfl⟩) fun done s hY => ?_)
          fun _ => deal_remember id
        exact ⟨hY.1, hY.2.1, rfl, hY.2.2⟩
    | some id =>
        refine Deal.bind (deal_edit.mono (fun _ _ hA => hA) (fun _ _ _ hB => hB)
          fun _ _ _ hE => hE.mono fun _ _ hY => hY.1.1) fun _ => ?_
        refine deal_answered (fun _ => ⟨rfl, rfl⟩) fun done s hY => ?_
        exact ⟨⟨id, hY.2.2, hY.1.1, hY.1.2, rfl⟩, hY.2.1⟩

/-- A chunk that is not the last is shown and sealed. -/
theorem deal_sealHead (rounds place : Nat) (hPlace : place < d.chunks.length - 1) :
    Deal drawingProtocol who.me
      (During who.me d fun done page => page.Shows done (d.chunks.getD place []) ∧
        place = done.length ∧ d.chunks.length - 1 ≤ done.length + (rounds + 1))
      (Co.modify (Screen.sealHead d) : Drawing Unit)
      (fun _ => During who.me d fun done page =>
        page.Follows done ∧ d.chunks.length - 1 ≤ done.length + rounds)
      (fun _ => During who.me d fun done page => page.Follows done) := by
  refine deal_modify (stable_during _ _ _) fun s hSound hDuring => ?_
  have hOwn : Own s (s.sealHead d) := ⟨List.prefix_rfl, rfl, rfl, rfl, rfl⟩
  refine ⟨hOwn.sound hSound hDuring, hOwn.turn hDuring, fun hClean => ?_⟩
  obtain ⟨done, hWorking, hShows, hDone, hRounds⟩ := hDuring hClean
  obtain ⟨id, -, -, hTexts, -⟩ := hShows
  have hSealed := hWorking.isSealed
  -- A head is sealed only where there are several chunks, and then nothing was restored.
  have hZero : s.restored = 0 := by
    rcases hWorking.whole with hZero | hOne
    · exact hZero
    · omega
  have hPrefix : done ++ [d.chunks.getD place []] <+: d.chunks.dropLast := by
    obtain ⟨rest, hRest⟩ := hWorking.chunks
    have hLength : done.length < d.chunks.dropLast.length := by
      rw [List.length_dropLast]
      omega
    cases rest with
    | nil => simp [← hRest] at hLength
    | cons chunk rest =>
        have hChunk : d.chunks.getD place [] = chunk := by
          have hAt : d.chunks.dropLast[place]? = some chunk := by simp [← hRest, hDone]
          rw [List.getElem?_dropLast, if_pos hPlace] at hAt
          simp [hAt]
        exact ⟨rest, by rw [hChunk, List.append_assoc, List.singleton_append, hRest]⟩
  refine ⟨done ++ [d.chunks.getD place []], hWorking.step hOwn ?_ hPrefix, ?_, ?_⟩
  · refine ⟨hSealed.fresh, hSealed.known, ?_, fun _ => ⟨hZero, d, rfl, hWorking.grown, hPrefix⟩⟩
    have hCount := hSealed.count
    rw [List.length_append, List.length_singleton]
    show s.draft.sealedChunks + 1 = s.restored + (done.length + 1)
    omega
  · exact .fresh rfl hTexts rfl
  · rw [List.length_append, List.length_singleton]
    omega

theorem deal_sealHeads (rounds : Nat) :
    Deal drawingProtocol who.me
      (During who.me d fun done page =>
        page.Follows done ∧ d.chunks.length - 1 ≤ done.length + rounds)
      (sealHeads who d d.chunks rounds)
      (fun _ => During who.me d fun done page =>
        page.Follows done ∧ d.chunks.length - 1 ≤ done.length)
      (fun _ => During who.me d fun done page => page.Follows done) := by
  induction rounds with
  | zero => exact deal_done fun _ _ hDuring => hDuring
  | succ rounds ih =>
      refine Deal.bind (B := fun now => During who.me d fun done page =>
        (page.Follows done ∧ d.chunks.length - 1 ≤ done.length + (rounds + 1)) ∧
          (now.sealedChunks = done.length ∨ d.chunks.length = 1) ∧
          page.delivered = now.deliveredText) ?_ fun now => ?_
      · refine deal_look fun s hDuring hClean => ?_
        obtain ⟨done, hWorking, hY⟩ := hDuring hClean
        refine ⟨done, hWorking, hY, ?_, rfl⟩
        have hCount := hWorking.isSealed.count
        rcases hWorking.whole with hZero | hOne
        · left
          omega
        · exact Or.inr hOne
      · split
        · rename_i hLeft
          have hRest := Deal.bind (deal_sealHead rounds now.sealedChunks hLeft) fun _ => ih
          dsimp only
          split
          · refine Deal.bind (deal_deliver.mono (fun s _ hDuring => ?_) (fun _ _ _ hB => hB)
              fun _ _ _ hE => hE) fun _ => hRest
            exact hDuring.mono fun done page hY => ⟨hY.1.1, by omega, hY.1.2⟩
          -- A draft that shows the chunk already is not sent again.
          · rename_i hSame
            rw [ne_eq, not_not] at hSame
            refine hRest.mono (fun s _ hDuring hClean => ?_) (fun _ _ _ hB => hB) fun _ _ _ hE => hE
            obtain ⟨done, hWorking, ⟨hFollows, hRounds⟩, hNow, hDelivered⟩ := hDuring hClean
            have hChunk : d.chunks.getD now.sealedChunks [] ≠ [] := d.getD_chunks_ne_nil
              hWorking.text (by omega)
            rw [hSame, ← hDelivered] at hChunk
            refine ⟨done, hWorking, ?_, by omega, hRounds⟩
            rw [hSame, ← hDelivered]
            exact hFollows.shows hChunk
        · rename_i hAll
          refine deal_done fun s _ hDuring => hDuring.mono fun done page hY => ⟨hY.1.1, ?_⟩
          omega

theorem deal_push :
    Deal drawingProtocol who.me (During who.me d fun done page => page.Follows done) (push who d)
      (fun _ => During who.me d fun done page =>
        page.Shows done (d.chunks.getLastD []) ∧ d.chunks.length - 1 ≤ done.length)
      (fun _ => During who.me d fun done page => page.Follows done) := by
  refine Deal.bind ((deal_sealHeads d.chunks.length).mono (fun s _ hDuring => ?_)
    (fun _ _ _ hB => hB) fun _ _ _ hE => hE) fun _ => ?_
  · exact hDuring.mono fun done page hFollows => ⟨hFollows, by omega⟩
  · refine Deal.bind (B := fun delivered => During who.me d fun done page =>
      (page.Follows done ∧ d.chunks.length - 1 ≤ done.length) ∧ page.delivered = delivered)
      ?_ fun delivered => ?_
    · refine deal_look fun s hDuring hClean => ?_
      obtain ⟨done, hWorking, hY⟩ := hDuring hClean
      exact ⟨done, hWorking, hY, rfl⟩
    · split
      · refine deal_deliver.mono (fun s _ hDuring => ?_) (fun _ _ _ hB => hB) fun _ _ _ hE => hE
        exact hDuring.mono fun done page hY => hY.1
      · rename_i hSame
        rw [ne_eq, not_not] at hSame
        refine deal_done fun s _ hDuring hClean => ?_
        obtain ⟨done, hWorking, ⟨hFollows, hAll⟩, hDelivered⟩ := hDuring hClean
        have hLast : d.chunks.getLastD [] ≠ [] := d.getLastD_chunks_ne_nil hWorking.text
        have hSame' : d.chunks.getLastD [] = delivered := hSame
        rw [hSame', ← hDelivered] at hLast ⊢
        exact ⟨done, hWorking, hFollows.shows hLast, hAll⟩

/-- At the end of a flush the messages hold the chunks. -/
theorem Working.texts_eq {me : Nat} {done : List Text} {s : Screen} (hWorking : Working me d done s)
    (hShows : s.page.Shows done (d.chunks.getLastD [])) (hAll : d.chunks.length - 1 ≤ done.length) :
    s.texts = d.chunks := by
  have hDone : done = d.chunks.dropLast := by
    refine hWorking.chunks.eq_of_length_le ?_
    rw [List.length_dropLast]
    exact hAll
  obtain ⟨id, -, -, hTexts, -⟩ := hShows
  show s.page.texts = d.chunks
  have hSome := d.chunks_ne_nil
  rw [hTexts, hDone, List.getLastD_eq_getLast?, List.getLast?_eq_some_getLast hSome]
  exact List.dropLast_append_getLast hSome

theorem sound_ended {me : Nat} {s : Screen} {finished : List (Text × List Text)}
    (hTold : s.slips = [] → ∀ entry ∈ finished, entry.1 ≠ [] →
      entry.2 = splitMarkdown maxRichMessageLength entry.1)
    (hDuring : During me d (fun done page => page.Follows done) s) :
    Sound { s with finished, flushing := none } := by
  refine ⟨fun hClean _ => ?_, hTold⟩
  obtain ⟨done, hWorking, hFollows⟩ := hDuring hClean
  have hSealed := hWorking.isSealed
  exact ⟨done, ⟨hSealed.fresh, hSealed.known, hSealed.count, hSealed.backed⟩, hFollows⟩

theorem turn_ended {me : Nat} {s s' : Screen} {Y : List Text → Page → Prop}
    (hDuring : During me d Y s) (hSlips : s'.slips = s.slips)
    (hBuffer : s'.draft.buffer = s.draft.buffer) (hRestored : s'.restored = s.restored) :
    Turn me s s' := by
  refine ⟨hSlips ▸ List.prefix_rfl, hBuffer ▸ List.prefix_rfl, hRestored, ?_⟩
  intro hClean other hOther hNe
  obtain ⟨_, hWorking, -⟩ := hDuring (hSlips ▸ hClean)
  exact absurd (Option.some.inj (hOther.symm.trans hWorking.flushing)) hNe

theorem deal_flushDraft (who : Flusher) (d : Draft) (terminal : Bool) :
    Deal drawingProtocol who.me (During who.me d fun done page => page.Follows done)
      (flushDraft who terminal d) (fun _ _ => True) (fun _ _ => True) := by
  refine Deal.bind (Deal.tryCatch deal_push fun error => ?_) fun _ => ?_
  · refine Deal.bind (B := fun _ _ => True) (deal_modify (stable_during _ _ _) fun s hSound hDuring =>
      ⟨sound_ended hSound.told hDuring, turn_ended hDuring rfl rfl rfl, trivial⟩) fun _ => ?_
    exact deal_fail fun _ _ _ => trivial
  · refine deal_modify (stable_during _ _ _) fun s hSound hDuring => ?_
    have hFollows : During who.me d (fun done page => page.Follows done) s :=
      hDuring.mono fun done page hY => hY.1.follows
    cases terminal with
    | false => exact ⟨sound_ended hSound.told hFollows, turn_ended hDuring rfl rfl rfl, trivial⟩
    | true =>
        refine ⟨sound_ended (s := s) (fun hClean entry hMem hText => ?_) hFollows,
          turn_ended hDuring rfl rfl rfl, trivial⟩
        rcases List.mem_append.mp hMem with hOld | hNew
        · exact hSound.told hClean entry hOld hText
        · obtain rfl := List.mem_singleton.mp hNew
          obtain ⟨done, hWorking, hShows, hAll⟩ := hDuring hClean
          exact hWorking.texts_eq hShows hAll

end Flush

/-! ## The beginning of a flush -/

/-- A step of `me` that may begin a flush, and what it hands to the flush. -/
structure Opens (me : Nat) (s : Screen) (due : Option Draft) (s' : Screen) : Prop where
  sound : Sound s'
  turn : Turn me s s'
  during : ∀ d ∈ due, During me d (fun done page => page.Follows done) s'

section Begin

variable {me : Nat} {s s' : Screen}

theorem Quiet.idle (hQuiet : Quiet s s') (hSound : Sound s) : Opens me s none s' :=
  ⟨hQuiet.sound hSound, hQuiet.turn, fun d hMem => by simp at hMem⟩

theorem Quiet.opens {due : Option Draft} {t : Screen} (hQuiet : Quiet s s')
    (hOpens : Opens me s' due t) : Opens me s due t := by
  refine ⟨hOpens.sound, ?_, hOpens.during⟩
  have hTurn := hOpens.turn
  refine ⟨hQuiet.slips ▸ hTurn.slips, hQuiet.buffer.trans hTurn.buffer,
    hTurn.restored.trans hQuiet.restored, fun hClean other hOther hNe => ?_⟩
  obtain ⟨hFlushing, hSame⟩ := hTurn.others hClean other (hQuiet.flushing.trans hOther) hNe
  exact ⟨hFlushing, hSame.messageId.trans hQuiet.same.messageId,
    hSame.delivered.trans hQuiet.same.delivered, hSame.sealedChunks.trans hQuiet.same.sealedChunks,
    hSame.sealedFrom.trans hQuiet.same.sealedFrom, hSame.wrote.trans hQuiet.same.wrote,
    hQuiet.same.messages.trans hSame.messages⟩

theorem clean_of_slipsNow (hClean : s.slips ++ s.slipsNow = []) :
    s.slips = [] ∧ s.flushing = none ∧
      (∀ d, s.sealedFrom = some d → statusBlock d.status = statusBlock s.draft.status) ∧
      (s.restored = 0 ∨ s.draft.chunks.length ≤ 1) := by
  simp only [Screen.slipsNow, List.append_eq_nil_iff, ite_eq_right_iff, List.cons_ne_nil,
    imp_false, Option.any_eq_true, not_exists, not_and, decide_eq_true_eq] at hClean
  obtain ⟨hSlips, ⟨hFlushing, hStatus⟩, hWhole⟩ := hClean
  refine ⟨hSlips, by simpa using hFlushing, fun d hFrom => ?_, ?_⟩
  · simpa [hFrom] using hStatus
  · by_cases hZero : s.restored = 0
    · exact Or.inl hZero
    · exact Or.inr (Nat.le_of_not_lt (hWhole hZero))

/-- A flush that begins without a slip finds the draft at rest, and goes on from what is
sealed. -/
theorem opens_beginFlush (me : Nat) (hSound : Sound s) : Opens me s (s.beginFlush me).1 (s.beginFlush me).2 := by
  unfold Screen.beginFlush
  split
  · exact (Quiet.refl s).idle hSound
  · rename_i hText
    refine ⟨⟨fun _ hNone => by simp at hNone,
      fun hClean => hSound.told (clean_of_slipsNow hClean).1⟩, ?_, ?_⟩
    · refine ⟨List.prefix_append _ _, List.prefix_rfl, rfl, fun hClean other hOther _ => ?_⟩
      rw [(clean_of_slipsNow hClean).2.1] at hOther
      cases hOther
    · intro d hMem hClean
      obtain rfl := Option.some.inj hMem
      obtain ⟨hSlips, hFlushing, hStatus, hWhole⟩ := clean_of_slipsNow hClean
      obtain ⟨done, hSealed, hFollows⟩ := hSound.rested hSlips hFlushing
      have hChunks : done <+: s.draft.chunks.dropLast := by
        by_cases hNone : done = []
        · rw [hNone]
          exact List.nil_prefix
        · obtain ⟨-, d, hFrom, hGrown, hDone⟩ := hSealed.backed hNone
          exact Draft.sealed_isPrefix (hStatus d hFrom) hGrown hDone
      have hSome := List.length_pos_of_ne_nil s.draft.chunks_ne_nil
      refine ⟨done, ⟨rfl, ⟨hSealed.fresh, hSealed.known, hSealed.count, hSealed.backed⟩, hText,
        List.prefix_rfl, hChunks, ?_⟩, hFollows⟩
      rcases hWhole with hZero | hShort
      · exact Or.inl hZero
      · right
        omega

theorem quiet_draft {d : Draft} (hId : d.messageId = s.draft.messageId)
    (hDelivered : d.deliveredText = s.draft.deliveredText)
    (hSealed : d.sealedChunks = s.draft.sealedChunks) (hBuffer : s.draft.buffer <+: d.buffer) :
    Quiet s { s with draft := d } :=
  ⟨⟨hId, hDelivered, hSealed, rfl, rfl, List.prefix_rfl⟩, hBuffer, rfl, rfl, rfl, rfl⟩

theorem quiet_onTimer (k : Nat) (f : Timer → Timer) : Quiet s (s.onTimer k f) :=
  ⟨⟨rfl, rfl, rfl, rfl, rfl, List.prefix_rfl⟩, List.prefix_rfl, rfl, rfl, rfl, rfl⟩

theorem quiet_cancelFlushTimer (s : Screen) : Quiet s s.cancelFlushTimer := by
  unfold Screen.cancelFlushTimer
  split
  · exact Quiet.refl s
  · exact ⟨⟨rfl, rfl, rfl, rfl, rfl, List.prefix_rfl⟩, List.prefix_rfl, rfl, rfl, rfl, rfl⟩

theorem opens_flushWhenDue (editThrottle me : Nat) (hSound : Sound s) :
    Opens me s (s.flushWhenDue editThrottle me).1 (s.flushWhenDue editThrottle me).2 := by
  unfold Screen.flushWhenDue
  split
  · exact (Quiet.refl s).idle hSound
  · split
    · have hQuiet : Quiet s (s.onDraft fun d => { d with pendingSince := none }) :=
        quiet_draft rfl rfl rfl List.prefix_rfl
      exact hQuiet.opens (opens_beginFlush me (hQuiet.sound hSound))
    · split
      · exact (Quiet.refl s).idle hSound
      · exact Quiet.idle ⟨⟨rfl, rfl, rfl, rfl, rfl, List.prefix_rfl⟩, List.prefix_rfl, rfl, rfl,
          rfl, rfl⟩ hSound

theorem opens_flushThrottled (editThrottle me : Nat) (hSound : Sound s) :
    Opens me s (s.flushThrottled editThrottle me).1 (s.flushThrottled editThrottle me).2 := by
  have hQuiet : Quiet s
      (s.onDraft fun d => { d with pendingSince := some (d.pendingSince.getD s.now) }) :=
    quiet_draft rfl rfl rfl List.prefix_rfl
  exact hQuiet.opens (opens_flushWhenDue editThrottle me (hQuiet.sound hSound))

theorem opens_wake (editThrottle me k : Nat) (hSound : Sound s) :
    Opens me s (s.wake editThrottle me k).1 (s.wake editThrottle me k).2 := by
  unfold Screen.wake
  split
  · exact (Quiet.refl s).idle hSound
  · exact opens_flushWhenDue editThrottle me hSound

theorem buffer_appendLine (line : Text) (d : Draft) : d.buffer <+: (d.appendLine line).buffer := by
  unfold Draft.appendLine
  split
  · simp only [List.append_assoc]
    exact List.prefix_append _ _
  · simp only [List.append_assoc]
    exact List.prefix_append _ _

/-- An event writes to the end of the text and to the status line. -/
theorem quiet_render (payload : Payload) :
    Quiet s { s with draft := (render s.draft payload).1 } := by
  have hCount : ∀ label, Quiet s { s with draft := s.draft.countStatus label } := by
    intro label
    unfold Draft.countStatus
    split
    · split
      · exact quiet_draft rfl rfl rfl List.prefix_rfl
      · exact quiet_draft rfl rfl rfl List.prefix_rfl
    · exact quiet_draft rfl rfl rfl List.prefix_rfl
  have hAppend : ∀ line, Quiet s { s with draft := s.draft.appendLine line } := by
    intro line
    exact quiet_draft rfl rfl rfl (buffer_appendLine line s.draft)
  -- A notice leaves the text alone.
  have hNotice : ∀ line, Quiet s { s with draft := s.draft.notice line } := by
    intro line
    exact quiet_draft rfl rfl rfl List.prefix_rfl
  cases payload with
  | processStarted => exact Quiet.refl s
  | processCompleted => exact Quiet.refl s
  | loop event =>
      cases event with
      | reasoningDelta => exact hCount _
      | textDelta text => exact quiet_draft rfl rfl rfl (List.prefix_append _ _)
      | finished => exact Quiet.refl s
      | cancelled => exact hAppend _
      | failed error => exact hAppend _
      | toolCallRequested call => exact hCount _
      | iterationStarted index => exact Quiet.refl s
      | assistantMessage message interrupted usage => exact Quiet.refl s
      | toolCallCompleted call output => exact Quiet.refl s
      | toolCallFailed call error => exact hNotice _
      | retryScheduled attempt delaySeconds reason => exact hNotice _

/-- The draft an event leaves to be flushed. -/
def Next.due : Next → Option Draft
  | .nothing => none
  | .flush d => some d
  | .terminal d => d

theorem Opens.finish (hOpens : Opens me s none s') : Opens me s none (s'.finish []) := by
  refine ⟨⟨fun hClean hNone => ?_, fun hClean entry hMem hText => ?_⟩, ?_,
    fun d hMem => by simp at hMem⟩
  · obtain ⟨done, hSealed, hFollows⟩ := hOpens.sound.rested hClean hNone
    exact ⟨done, ⟨hSealed.fresh, hSealed.known, hSealed.count, hSealed.backed⟩, hFollows⟩
  · rcases List.mem_append.mp hMem with hOld | hNew
    · exact hOpens.sound.told hClean entry hOld hText
    · obtain rfl := List.mem_singleton.mp hNew
      exact absurd rfl hText
  · have hTurn := hOpens.turn
    refine ⟨hTurn.slips, hTurn.buffer, hTurn.restored, fun hClean other hOther hNe => ?_⟩
    obtain ⟨hFlushing, hSame⟩ := hTurn.others hClean other hOther hNe
    exact ⟨hFlushing, hSame.messageId, hSame.delivered, hSame.sealedChunks, hSame.sealedFrom,
      hSame.wrote, hSame.messages⟩

theorem opens_take (editThrottle me : Nat) (hSound : Sound s) (payload : Payload) :
    Opens me s (s.take editThrottle me payload).1.due (s.take editThrottle me payload).2 := by
  have hRender : Quiet s { s with draft := (render s.draft payload).1 } := quiet_render payload
  have hSound' := hRender.sound hSound
  unfold Screen.take
  dsimp only
  split
  · exact hRender.idle hSound
  · have hFlush := hRender.opens (opens_flushThrottled editThrottle me hSound')
    split
    · rename_i d t hDue
      rw [hDue] at hFlush
      exact hFlush
    · rename_i t hDue
      rw [hDue] at hFlush
      exact hFlush
  · have hPending : Quiet { s with draft := (render s.draft payload).1 }
        (({ s with draft := (render s.draft payload).1 } : Screen).onDraft
          fun d => { d with pendingSince := none }) := quiet_draft rfl rfl rfl List.prefix_rfl
    have hCancel := quiet_cancelFlushTimer (({ s with draft := (render s.draft payload).1 } :
      Screen).onDraft fun d => { d with pendingSince := none })
    have hFlush := hRender.opens (hPending.opens (hCancel.opens
      (opens_beginFlush me (hCancel.sound (hPending.sound hSound')))))
    split
    · rename_i d t hDue
      rw [hDue] at hFlush
      exact hFlush
    · rename_i t hDue
      rw [hDue] at hFlush
      exact hFlush.finish

end Begin

/-! ## The coroutines -/

section Coroutines

variable {me : Nat} {editThrottle : Nat}

theorem stable_true (me : Nat) : drawingProtocol.Stable me fun s => Sound s ∧ True :=
  (Protocol.Kept.true drawingProtocol).stable me

theorem deal_quiet {f : Screen → Screen} (hQuiet : ∀ s, Quiet s (f s)) :
    Deal drawingProtocol me (fun _ => True) (Co.modify f : Drawing Unit) (fun _ _ => True)
      (fun _ _ => True) :=
  deal_modify (stable_true me) fun s hSound _ => ⟨(hQuiet s).sound hSound, (hQuiet s).turn, trivial⟩

theorem quiet_standDown (s : Screen) : Quiet s s.standDown := by
  have hCancel := quiet_cancelFlushTimer s
  have hSame := hCancel.same
  exact ⟨⟨hSame.messageId, hSame.delivered, hSame.sealedChunks, hSame.sealedFrom, hSame.wrote,
    hSame.messages⟩, hCancel.buffer, hCancel.restored, hCancel.flushing, hCancel.finished,
    hCancel.slips⟩

theorem quiet_pop (s : Screen) : Quiet s s.pop :=
  ⟨⟨rfl, rfl, rfl, rfl, rfl, List.prefix_rfl⟩, List.prefix_rfl, rfl, rfl, rfl, rfl⟩

/-- A flush whose failure is logged and forgotten. -/
theorem deal_flush_logged (who : Flusher) (d : Draft) :
    Deal drawingProtocol who.me (During who.me d fun done page => page.Follows done)
      (Co.tryCatch (flushDraft who false d) fun _ => pure () : Drawing Unit) (fun _ _ => True)
      (fun _ _ => True) :=
  (deal_flushDraft who d false).tryCatch fun _ => deal_done fun _ _ _ => trivial

theorem deal_flushTerminalWithRetry {d : Draft} :
    Deal drawingProtocol me (During me d fun done page => page.Follows done)
      (flushTerminalWithRetry me d) (fun _ _ => True) (fun _ _ => True) := by
  refine (deal_flushDraft { me } d true).tryCatch fun _ => ?_
  refine Deal.bind (B := fun due s => ∀ d ∈ due, During me d (fun done page => page.Follows done) s)
    (deal_atomic (stable_true me) fun s hSound _ => ?_) fun due => ?_
  · have hOpens := opens_beginFlush me hSound
    exact ⟨hOpens.sound, hOpens.turn, hOpens.during⟩
  · cases due with
    | none => exact deal_done fun _ _ _ => trivial
    | some d =>
        refine Deal.mono (A := During me d fun done page => page.Follows done) ?_
          (fun _ _ hDue => hDue d rfl) (fun _ _ _ hB => hB) fun _ _ _ hE => hE
        exact (deal_flushDraft { me } d true).tryCatch fun _ => deal_done fun _ _ _ => trivial

theorem deal_forwardAll (payloads : List Payload) :
    Deal drawingProtocol me (fun _ => True) (forwardAll editThrottle me payloads) (fun _ _ => True)
      (fun _ _ => True) := by
  induction payloads with
  | nil => exact deal_quiet quiet_standDown
  | cons payload rest ih =>
      refine Deal.bind (B := fun next s =>
        ∀ d ∈ next.due, During me d (fun done page => page.Follows done) s)
        (deal_atomic (stable_true me) fun s hSound _ => ?_) fun next => ?_
      · have hOpens := opens_take editThrottle me hSound payload
        exact ⟨hOpens.sound, hOpens.turn, hOpens.during⟩
      · cases next with
        | nothing => exact ih.mono (fun _ _ _ => trivial) (fun _ _ _ hB => hB) fun _ _ _ hE => hE
        | flush d =>
            refine Deal.bind (B := fun _ _ => True) ?_ fun _ => ih
            exact (deal_flush_logged { me } d).mono (fun _ _ hDue => hDue d rfl)
              (fun _ _ _ hB => hB) fun _ _ _ hE => hE
        | terminal due =>
            cases due with
            | none =>
                exact (deal_quiet quiet_pop).mono (fun _ _ _ => trivial) (fun _ _ _ hB => hB)
                  fun _ _ _ hE => hE
            | some d =>
                refine Deal.bind (B := fun _ _ => True) ?_ fun _ => deal_quiet quiet_pop
                exact deal_flushTerminalWithRetry.mono (fun _ _ hDue => hDue d rfl)
                  (fun _ _ _ hB => hB) fun _ _ _ hE => hE

theorem deal_forward (payloads : List Payload) :
    Deal drawingProtocol me (fun _ => True) (forward editThrottle me payloads) (fun _ _ => True)
      (fun _ _ => True) := by
  refine Deal.bind (B := fun _ _ => True) (deal_blockUntil (stable_true me) fun s hSound _ _ => ?_)
    fun _ => deal_forwardAll payloads
  have hQuiet : Quiet s { s with listening := true } :=
    ⟨⟨rfl, rfl, rfl, rfl, rfl, List.prefix_rfl⟩, List.prefix_rfl, rfl, rfl, rfl, rfl⟩
  exact ⟨hQuiet.sound hSound, hQuiet.turn, trivial⟩

theorem deal_flushAfter (k : Nat) :
    Deal drawingProtocol me (fun _ => True) (flushAfter editThrottle me k) (fun _ _ => True)
      (fun _ _ => True) := by
  refine Deal.bind (B := fun _ _ => True) (deal_blockUntil (stable_true me) fun s hSound _ _ =>
    ⟨(quiet_onTimer k _).sound hSound, (quiet_onTimer k _).turn, trivial⟩) fun _ => ?_
  refine Deal.bind (B := fun due s => ∀ d ∈ due, During me d (fun done page => page.Follows done) s)
    (deal_blockUntil (stable_true me) fun s hSound _ _ => ?_) fun due => ?_
  · have hOpens := opens_wake editThrottle me k hSound
    exact ⟨hOpens.sound, hOpens.turn, hOpens.during⟩
  · have hEnd : Deal drawingProtocol me (fun _ => True)
        (Co.modify (Screen.onTimer k fun timer => { timer with ended := true }) : Drawing Unit)
        (fun _ _ => True) (fun _ _ => True) := deal_quiet fun _ => quiet_onTimer k _
    cases due with
    | none => exact hEnd.mono (fun _ _ _ => trivial) (fun _ _ _ hB => hB) fun _ _ _ hE => hE
    | some d =>
        refine Deal.bind (B := fun _ _ => True) ?_ fun _ => hEnd
        exact (deal_flush_logged { me, timer := some k } d).mono (fun _ _ hDue => hDue d rfl)
          (fun _ _ _ hB => hB) fun _ _ _ hE => hE

end Coroutines

/-! ## Runs -/

variable {editThrottle : Nat}

theorem quiet_happen (s : Screen) (event : DraftEvent) : Quiet s (s.happen event) := by
  cases event with
  | post text =>
      exact ⟨⟨rfl, rfl, rfl, rfl, rfl, List.prefix_append _ _⟩, List.prefix_rfl, rfl, rfl, rfl, rfl⟩
  | tick | network | store =>
      exact ⟨⟨rfl, rfl, rfl, rfl, rfl, List.prefix_rfl⟩, List.prefix_rfl, rfl, rfl, rfl, rfl⟩

theorem drawing_follows : System.Follows (drawing editThrottle) drawingProtocol where
  body_safe call me s hSound := by
    have hDeal : Co.Deal drawingProtocol me (fun _ => True) ((drawing editThrottle).body call me)
        (fun _ _ => True) (fun _ _ => True) := by
      cases call with
      | forward payloads => exact deal_forward payloads
      | flushAfter k => exact deal_flushAfter k
    exact (hDeal s hSound trivial).mono fun _ _ _ => trivial
  event_env event s s' hSound hEvent := by
    obtain rfl := Option.some.inj hEvent
    exact ⟨(quiet_happen s event).sound hSound, quiet_happen s event⟩
  crash_inv _ _ _ hCrash := by cases hCrash

theorem sound_start (messages : List Text) (remembered : Option PersistedDraft) :
    Sound (Screen.start messages remembered) := by
  refine ⟨fun _ _ => ⟨[], ⟨List.nodup_nil, fun id hMem => by simp [Screen.start] at hMem, rfl,
    fun hSome => absurd rfl hSome⟩, ?_⟩, fun _ entry hMem => by simp [Screen.start] at hMem⟩
  cases remembered with
  | none => exact .fresh rfl rfl rfl
  | some row => exact .kept row.messageId rfl rfl rfl rfl

/-- In a run in which nothing slips, the messages of a draft whose terminal flush has
succeeded are the chunks of its text, each once and in order. -/
theorem rendered_once {messages : List Text} {remembered : Option PersistedDraft}
    {p : Pool Screen FlushError}
    (hRun : System.Run (drawing editThrottle) { st := Screen.start messages remembered } p)
    (hSlips : p.st.slips = []) :
    ∀ text texts, (text, texts) ∈ p.st.finished → text ≠ [] →
      texts = splitMarkdown maxRichMessageLength text := by
  have hSafe := hRun.sound drawing_follows (System.PoolSafe.initial (sound_start messages remembered))
  exact fun text texts hMem => hSafe.1.told hSlips (text, texts) hMem

/-- The timer delivers the first words; the terminal delivers the rest. -/
def pausing : List (System.Move (drawing 1)) :=
  List.flatten [[.start (.forward [.loop .reasoningDelta, .loop (.textDelta "Hello"),
      .loop (.textDelta ", world"), .loop (.finished (.assistant "Hello, world" []) none)])],
    List.replicate 3 (.resume 0), [.event (.tick 1), .start (.flushAfter 0)],
    List.replicate 10 (.resume 1), List.replicate 9 (.resume 0)]

theorem rendered_once_pausing :
    ∃ p, System.Run (drawing 1) { st := Screen.start [] none } p ∧ p.st.slips = [] ∧
      p.st.finished = [("```\n💭 думаю ·\n```\nHello, world".toList,
        ["```\n💭 думаю ·\n```\nHello, world".toList])] ∧
      ["```\n💭 думаю ·\n```\nHello, world".toList] =
        splitMarkdown maxRichMessageLength "```\n💭 думаю ·\n```\nHello, world".toList := by
  have hMoves : (System.moves pausing { st := Screen.start [] none }).map
      (fun p => (p.st.slips, p.st.finished)) =
        some ([], [("```\n💭 думаю ·\n```\nHello, world".toList,
          ["```\n💭 думаю ·\n```\nHello, world".toList])]) := by
    decide +kernel
  obtain ⟨p, hRun, hEnd⟩ := System.Run.exists_of_moves pausing hMoves
  obtain ⟨hSlips, hFinished⟩ := Prod.mk.inj hEnd
  refine ⟨p, hRun, hSlips, hFinished, ?_⟩
  refine rendered_once hRun hSlips _ _ ?_ (by decide)
  rw [hFinished]
  exact List.mem_singleton.mpr rfl

/-- The first message is still on its way when the next window ends, and the forwarder
sends another one. -/
def overtaking : List (System.Move (drawing 1)) :=
  List.flatten [[.start (.forward [.loop (.textDelta "Hello"), .loop (.textDelta ", "),
      .loop (.textDelta "world"), .loop (.finished (.assistant "Hello, world" []) none)])],
    List.replicate 2 (.resume 0), [.event (.tick 1), .start (.flushAfter 0)],
    List.replicate 5 (.resume 1), [.resume 0, .event (.tick 1)],
    List.replicate 4 (.resume 0), List.replicate 5 (.resume 1), List.replicate 8 (.resume 0)]

/-- The user reads the beginning of the answer twice. -/
theorem rendered_twice :
    ∃ p, System.Run (drawing 1) { st := Screen.start [] none } p ∧
      ∃ text texts, (text, texts) ∈ p.st.finished ∧ text ≠ [] ∧
        texts ≠ splitMarkdown maxRichMessageLength text := by
  have hMoves : (System.moves overtaking { st := Screen.start [] none }).map
      (fun p => p.st.finished) =
        some [("Hello, world".toList, ["Hello".toList, "Hello, world".toList])] := by
    decide +kernel
  obtain ⟨p, hRun, hEnd⟩ := System.Run.exists_of_moves overtaking hMoves
  refine ⟨p, hRun, "Hello, world".toList, ["Hello".toList, "Hello, world".toList], ?_, by decide, ?_⟩
  · exact hEnd ▸ List.mem_singleton.mpr rfl
  · decide +kernel

end Telegram
end OctoForge
