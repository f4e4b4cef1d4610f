import Mathlib.Data.List.Forall2
import OctoForge.Dialog.Narrative

/-!
# Re-parenting collected material

`_reparent_material` goes through the live list of the narrative by position and writes the row
of every message it moves.  During such a write another run may trim the narrative, and then
the loop goes on at the same position of a shorter list: what has moved in front of it is never
visited.

`Reparenting` is the loop between two awaits.  What happens beside it are trims, new rows and
appends to the narrative.
-/

namespace OctoForge
namespace Dialog

/-- Where `_reparent_material` stands. -/
inductive Stage where
  /-- It is about to go on with the loop, from this position on. -/
  | looping (position : Nat)
  /-- It awaits the write of a row, and will go on at this position. -/
  | writing (position : Nat) (id : MessageId)
  /-- The loop is over; the two exchanges are brought up to date. -/
  | settling
  | returned
  deriving DecidableEq, Repr

structure Reparenting where
  dialogue : Dialogue
  stage : Stage

/-- Its own next step. -/
def Reparenting.advance (collection target : ExchangeId) (r : Reparenting) : Reparenting :=
  match r.stage with
  | .looping position =>
      let (next, s) := reparentStep collection target position r.dialogue
      match next with
      | some (position, id) => ⟨s, .writing position id⟩
      | none => ⟨s, .settling⟩
  | .writing position id => ⟨setExchange id target r.dialogue, .looping position⟩
  | .settling => ⟨r.dialogue, .returned⟩
  | .returned => r

/-- What happens beside it. -/
inductive Beside where
  | trim (drop : Nat)
  | persist (messages : List ChatMessage) (promptTokens : Option Nat)
  | append (messages : List (ChatMessage × Nat))

def Beside.apply (s : Dialogue) : Beside → Dialogue
  | .trim drop => trimNarrative drop s
  | .persist messages promptTokens => (insertRows messages promptTokens s).2
  | .append messages => appendMessages messages s

/-- The message is in the exchange. -/
def InExchange (x : ExchangeId) (m : ChatMessage) : Prop := m.exchangeId = some x

instance (x : ExchangeId) (m : ChatMessage) : Decidable (InExchange x m) :=
  inferInstanceAs (Decidable (_ = _))

/-- The row of the message, if it has one, is there and in the same exchange. -/
def Backed (s : Dialogue) (m : ChatMessage) : Prop :=
  ∀ id, m.id = some id → id < s.nextSeq ∧
    ∀ row ∈ s.rows, row.seq = id → row.message.exchangeId = m.exchangeId

/-- A message is appended after its row has been written. -/
def Beside.Proper (s : Dialogue) : Beside → Prop
  | .append messages => ∀ item ∈ messages, Backed s item.1
  | _ => True

/-- The event takes no message of the collection past the loop: a trim moves none of them in
front of its position, and none is appended there or when the loop is over. -/
def Beside.Spares (collection : ExchangeId) (r : Reparenting) : Beside → Prop
  | .trim drop =>
      match r.stage with
      | .looping position | .writing position _ =>
          ∀ e ∈ (r.dialogue.narrative.drop position).take drop, ¬InExchange collection e.message
      | _ => True
  | .persist _ _ => True
  | .append messages =>
      match r.stage with
      | .looping position | .writing position _ =>
          ∀ item ∈ messages.take (position - r.dialogue.narrative.length),
            ¬InExchange collection item.1
      | _ => ∀ item ∈ messages, ¬InExchange collection item.1

/-- One step, among events that are allowed. -/
inductive Reparenting.Step (collection target : ExchangeId)
    (allowed : Reparenting → Beside → Prop) (r : Reparenting) : Reparenting → Prop
  | own : Step collection target allowed r (r.advance collection target)
  | beside (event : Beside) (hProper : event.Proper r.dialogue) (hAllowed : allowed r event) :
      Step collection target allowed r { r with dialogue := event.apply r.dialogue }

/-- A run among events that are allowed. -/
def Reparenting.Run (collection target : ExchangeId) (allowed : Reparenting → Beside → Prop) :
    Reparenting → Reparenting → Prop :=
  Relation.ReflTransGen (Reparenting.Step collection target allowed)

/-- Events that spare the messages of the collection. -/
def sparing (collection : ExchangeId) (r : Reparenting) (event : Beside) : Prop :=
  event.Spares collection r

/-- Every message is the same as before, or was in the collection. -/
structure Rewrites (collection : ExchangeId) (s s' : Dialogue) : Prop where
  narrative : List.Forall₂ (fun e e' : Entry => e' = e ∨ InExchange collection e.message)
    s.narrative s'.narrative
  rows : List.Forall₂ (fun row row' : MessageRow => row' = row ∨ InExchange collection row.message)
    s.rows s'.rows

/-! ## One stretch of the loop -/

variable {collection target : ExchangeId}

/-- What a stretch of the loop makes of the messages from its position on. -/
structure Stretch (collection : ExchangeId) (entries entries' : List Entry)
    (next : Option (Nat × MessageId)) : Prop where
  rewrites : List.Forall₂ (fun e e' : Entry => e' = e ∨ InExchange collection e.message)
    entries entries'
  /-- Without a row to write, all are through. -/
  through : next = none → ∀ e ∈ entries', ¬InExchange collection e.message
  past : ∀ passed id, next = some (passed, id) →
    (∀ e ∈ entries'.take passed, ¬InExchange collection e.message) ∧
      entries'.drop passed = entries.drop passed ∧
      (∃ e ∈ entries, InExchange collection e.message ∧ e.message.id = some id) ∧
      ∀ e ∈ entries.take passed, InExchange collection e.message →
        ∀ other, e.message.id = some other → other = id
  silent : next = none → ∀ e ∈ entries, InExchange collection e.message → e.message.id = none

theorem stretch_moveUntilRow (hApart : target ≠ collection) (entries : List Entry) :
    Stretch collection entries (moveUntilRow collection target entries).1
      (moveUntilRow collection target entries).2 := by
  induction entries with
  | nil => exact ⟨.nil, fun _ => nofun, nofun, fun _ => nofun⟩
  | cons e rest ih =>
      have hMoved : ¬InExchange collection
          ({ e.message with exchangeId := some target } : ChatMessage) := fun h =>
        hApart (Option.some.inj h)
      unfold moveUntilRow
      split
      · -- a message of another exchange
        rename_i hOther
        refine ⟨.cons (.inl rfl) ih.rewrites, fun hNone => ?_, fun passed id hSome => ?_,
          fun hNone => ?_⟩
        · have hThrough := ih.through (Option.map_eq_none_iff.mp hNone)
          exact fun other hMem => (List.mem_cons.mp hMem).elim (fun h => h ▸ hOther) (hThrough other)
        · obtain ⟨⟨count, row⟩, hNext, hEq⟩ := Option.map_eq_some_iff.mp hSome
          obtain ⟨rfl, rfl⟩ := Prod.mk.inj hEq
          obtain ⟨hTake, hDrop, ⟨x, hX, hIn⟩, hIds⟩ := ih.past count row hNext
          refine ⟨fun other hMem => ?_, by simpa using hDrop, ⟨x, List.mem_cons_of_mem e hX, hIn⟩,
            fun other hMem hCarries => ?_⟩
          · rw [List.take_succ_cons] at hMem
            exact (List.mem_cons.mp hMem).elim (fun h => h ▸ hOther) (hTake other)
          · rw [List.take_succ_cons] at hMem
            rcases List.mem_cons.mp hMem with rfl | hLater
            · exact absurd hCarries hOther
            · exact hIds other hLater hCarries
        · have hSilent := ih.silent (Option.map_eq_none_iff.mp hNone)
          intro other hMem hCarries
          rcases List.mem_cons.mp hMem with rfl | hLater
          · exact absurd hCarries hOther
          · exact hSilent other hLater hCarries
      · rename_i hHere
        have hHere : InExchange collection e.message := by simpa [InExchange] using hHere
        cases hId : e.message.id with
        | some id =>
            -- the stretch ends with this message
            refine ⟨.cons (.inr hHere) (List.forall₂_same.mpr fun _ _ => .inl rfl), nofun,
              fun passed other hSome => ?_, nofun⟩
            obtain ⟨rfl, rfl⟩ := Prod.mk.inj (Option.some.inj hSome)
            refine ⟨fun x hMem => ?_, rfl, ⟨e, List.mem_cons_self, hHere, hId⟩,
              fun x hMem _ other hOther => ?_⟩
            · obtain rfl : x = _ := by simpa using hMem
              exact hMoved
            · obtain rfl : x = e := by simpa using hMem
              exact Option.some.inj (hOther.symm.trans hId)
        | none =>
            refine ⟨.cons (.inr hHere) ih.rewrites, fun hNone => ?_, fun passed id hSome => ?_,
              fun hNone => ?_⟩
            · have hThrough := ih.through (Option.map_eq_none_iff.mp hNone)
              exact fun other hMem =>
                (List.mem_cons.mp hMem).elim (fun h => h ▸ hMoved) (hThrough other)
            · obtain ⟨⟨count, row⟩, hNext, hEq⟩ := Option.map_eq_some_iff.mp hSome
              obtain ⟨rfl, rfl⟩ := Prod.mk.inj hEq
              obtain ⟨hTake, hDrop, ⟨x, hX, hIn⟩, hIds⟩ := ih.past count row hNext
              refine ⟨fun other hMem => ?_, by simpa using hDrop,
                ⟨x, List.mem_cons_of_mem e hX, hIn⟩, fun other hMem hCarries => ?_⟩
              · rw [List.take_succ_cons] at hMem
                exact (List.mem_cons.mp hMem).elim (fun h => h ▸ hMoved) (hTake other)
              · rw [List.take_succ_cons] at hMem
                rcases List.mem_cons.mp hMem with rfl | hLater
                · intro id hSomeId
                  rw [hId] at hSomeId
                  cases hSomeId
                · exact hIds other hLater hCarries
            · have hSilent := ih.silent (Option.map_eq_none_iff.mp hNone)
              intro other hMem hCarries
              rcases List.mem_cons.mp hMem with rfl | hLater
              · exact hId
              · exact hSilent other hLater hCarries

/-! ## The loop beside the others -/

/-- The loop is at a position, with the write of a row under way or not.  `start` are the ids
of the messages that were in the narrative when it began. -/
structure Looping (collection target : ExchangeId) (start : List MessageId) (position : Nat)
    (current : Option MessageId) (s : Dialogue) : Prop where
  visited : ∀ e ∈ s.narrative.take position, ¬InExchange collection e.message
  known : ∀ id ∈ start, id < s.nextSeq
  ahead : ∀ e ∈ s.narrative.drop position, InExchange collection e.message →
    ∀ id, e.message.id = some id → id < s.nextSeq ∧ ∀ row ∈ s.rows, row.seq = id →
      InExchange collection row.message ∨ InExchange target row.message
  underWay : ∀ id, current = some id → id < s.nextSeq ∧ ∀ row ∈ s.rows, row.seq = id →
    InExchange collection row.message ∨ InExchange target row.message
  /-- A row that is still in the collection is being written, or will be. -/
  owed : ∀ id ∈ start, ∀ row ∈ s.rows, row.seq = id → InExchange collection row.message →
    current = some id ∨
      ∃ e ∈ s.narrative.drop position, InExchange collection e.message ∧ e.message.id = some id

/-- The loop is over. -/
structure Settled (collection : ExchangeId) (start : List MessageId) (s : Dialogue) : Prop where
  narrative : ∀ e ∈ s.narrative, ¬InExchange collection e.message
  known : ∀ id ∈ start, id < s.nextSeq
  rows : ∀ id ∈ start, ∀ row ∈ s.rows, row.seq = id → ¬InExchange collection row.message

/-- What holds at each stage. -/
def Reparenting.Inv (collection target : ExchangeId) (start : List MessageId) (r : Reparenting) :
    Prop :=
  match r.stage with
  | .looping position => Looping collection target start position none r.dialogue
  | .writing position id => Looping collection target start position (some id) r.dialogue
  | .settling | .returned => Settled collection start r.dialogue

variable {start : List MessageId} {position : Nat} {current : Option MessageId}
  {s : Dialogue} {r r' : Reparenting}

/-- New rows have new seqs. -/
theorem rows_insertRows (messages : List ChatMessage) (promptTokens : Option Nat) (s : Dialogue) :
    ∃ new, (insertRows messages promptTokens s).2.rows = s.rows ++ new ∧
      ∀ row ∈ new, s.nextSeq ≤ row.seq := by
  refine ⟨_, rfl, fun row hMem => ?_⟩
  obtain ⟨item, -, rfl⟩ := List.mem_map.mp hMem
  exact Nat.le_add_right _ _

theorem nextSeq_insertRows (messages : List ChatMessage) (promptTokens : Option Nat)
    (s : Dialogue) : s.nextSeq ≤ (insertRows messages promptTokens s).2.nextSeq := by
  obtain ⟨new, hRows, -⟩ := rows_insertRows messages promptTokens s
  have hMax : ∀ rows : List MessageRow, (rows.map (·.seq)).foldr max 0 ≤
      ((rows ++ new).map (·.seq)).foldr max 0 := by
    intro rows
    induction rows with
    | nil => exact Nat.zero_le _
    | cons first rest ih =>
        exact Nat.max_le.mpr ⟨Nat.le_max_left _ _, Nat.le_trans ih (Nat.le_max_right _ _)⟩
  have hLe := hMax s.rows
  unfold Dialogue.nextSeq
  rw [hRows]
  omega

theorem nextSeq_setExchange (id : MessageId) (x : ExchangeId) (s : Dialogue) :
    (setExchange id x s).nextSeq = s.nextSeq := by
  have hSeqs : (setExchange id x s).rows.map (·.seq) = s.rows.map (·.seq) := by
    rw [setExchange, List.map_map]
    refine List.map_congr_left fun row _ => ?_
    simp only [Function.comp]
    split <;> rfl
  rw [Dialogue.nextSeq, hSeqs, Dialogue.nextSeq]

theorem Looping.beside (event : Beside) (hProper : event.Proper s)
    (hTrim : ∀ drop, event = .trim drop →
      ∀ e ∈ (s.narrative.drop position).take drop, ¬InExchange collection e.message)
    (hAppend : ∀ messages, event = .append messages →
      ∀ item ∈ messages.take (position - s.narrative.length), ¬InExchange collection item.1)
    (hLoop : Looping collection target start position current s) :
    Looping collection target start position current (event.apply s) := by
  cases event with
  | trim drop =>
      have hSkipped := hTrim drop rfl
      have hDrop : (s.narrative.drop drop).drop position =
          (s.narrative.drop position).drop drop := by
        rw [List.drop_drop, List.drop_drop, Nat.add_comm]
      refine ⟨fun e hMem => ?_, hLoop.known, fun e hMem => hLoop.ahead e ?_, hLoop.underWay,
        fun id hStart row hRow hSeq hCarries => ?_⟩
      · -- a message that is now before the position was visited, or has been moved there
        have hMem : e ∈ (s.narrative.drop drop).take position := hMem
        have hBoth : e ∈ s.narrative.take (drop + position) := by
          rw [← List.take_append_drop drop (s.narrative.take (drop + position)),
            List.drop_take, Nat.add_sub_cancel_left]
          exact List.mem_append_right _ hMem
        rw [Nat.add_comm, List.take_add] at hBoth
        exact (List.mem_append.mp hBoth).elim (hLoop.visited e) (hSkipped e)
      · exact List.mem_of_mem_drop (hDrop ▸ (hMem : e ∈ (s.narrative.drop drop).drop position))
      · refine (hLoop.owed id hStart row hRow hSeq hCarries).imp_right ?_
        rintro ⟨e, hMem, hIn, hId⟩
        refine ⟨e, ?_, hIn, hId⟩
        show e ∈ (s.narrative.drop drop).drop position
        rw [hDrop]
        rw [← List.take_append_drop drop (s.narrative.drop position)] at hMem
        exact (List.mem_append.mp hMem).resolve_left fun hSkip => hSkipped e hSkip hIn
  | persist messages promptTokens =>
      obtain ⟨new, hRows, hNew⟩ := rows_insertRows messages promptTokens s
      have hNext := nextSeq_insertRows messages promptTokens s
      show Looping collection target start position current (insertRows messages promptTokens s).2
      -- a row with a seq that was in use is an old one
      have hOld : ∀ id, id < s.nextSeq → ∀ row ∈ (insertRows messages promptTokens s).2.rows,
          row.seq = id → row ∈ s.rows := by
        intro id hLt row hMem hSeq
        rw [hRows] at hMem
        refine (List.mem_append.mp hMem).resolve_right fun hLater => ?_
        have hGe := hNew row hLater
        omega
      refine ⟨hLoop.visited, fun id hStart => Nat.lt_of_lt_of_le (hLoop.known id hStart) hNext,
        fun e hMem hCarries id hId => ?_, fun id hId => ?_,
        fun id hStart row hRow hSeq hCarries => ?_⟩
      · obtain ⟨hLt, hAll⟩ := hLoop.ahead e hMem hCarries id hId
        exact ⟨Nat.lt_of_lt_of_le hLt hNext, fun row hRow hSeq =>
          hAll row (hOld id hLt row hRow hSeq) hSeq⟩
      · obtain ⟨hLt, hAll⟩ := hLoop.underWay id hId
        exact ⟨Nat.lt_of_lt_of_le hLt hNext, fun row hRow hSeq =>
          hAll row (hOld id hLt row hRow hSeq) hSeq⟩
      · exact hLoop.owed id hStart row (hOld id (hLoop.known id hStart) row hRow hSeq) hSeq hCarries
  | append messages =>
      have hNarrative : (Beside.apply s (.append messages)).narrative =
          s.narrative ++ s.entries messages := rfl
      have hEntries : ∀ list : List (ChatMessage × Nat), ∀ e ∈ s.entries list,
          ∃ item ∈ list, e.message = item.1 := by
        intro list e hMem
        obtain ⟨⟨item, index⟩, hItem, rfl⟩ := List.mem_map.mp hMem
        exact ⟨item, List.mem_of_getElem? (List.mem_zipIdx_iff_getElem?.mp hItem), rfl⟩
      have hFront : ∀ count, ∀ e ∈ (s.entries messages).take count,
          ∃ item ∈ messages.take count, e.message = item.1 := by
        intro count e hMem
        obtain ⟨index, hGet⟩ := List.mem_iff_getElem?.mp hMem
        rw [List.getElem?_take] at hGet
        split at hGet
        · rename_i hLt
          rw [Dialogue.entries, List.getElem?_map, List.getElem?_zipIdx] at hGet
          obtain ⟨entry, hEntry, rfl⟩ := Option.map_eq_some_iff.mp hGet
          obtain ⟨item, hItem, rfl⟩ := Option.map_eq_some_iff.mp hEntry
          exact ⟨item, List.mem_iff_getElem?.mpr ⟨index, by rw [List.getElem?_take, if_pos hLt, hItem]⟩,
            rfl⟩
        · cases hGet
      refine ⟨fun e hMem => ?_, hLoop.known, fun e hMem hCarries id hId => ?_, hLoop.underWay,
        fun id hStart row hRow hSeq hCarries => ?_⟩
      · rw [hNarrative, List.take_append] at hMem
        rcases List.mem_append.mp hMem with hOld | hNew
        · exact hLoop.visited e hOld
        · obtain ⟨item, hItem, hSame⟩ := hFront _ e hNew
          rw [hSame]
          exact hAppend messages rfl item hItem
      · rw [hNarrative, List.drop_append] at hMem
        rcases List.mem_append.mp hMem with hOld | hNew
        · exact hLoop.ahead e hOld hCarries id hId
        · obtain ⟨item, hItem, hSame⟩ := hEntries _ e (List.mem_of_mem_drop hNew)
          obtain ⟨hLt, hAll⟩ := hProper item hItem id (hSame ▸ hId)
          refine ⟨hLt, fun row hRow hSeq => .inl ?_⟩
          rw [InExchange, hAll row hRow hSeq, ← hSame]
          exact hCarries
      · refine (hLoop.owed id hStart row hRow hSeq hCarries).imp_right ?_
        rintro ⟨e, hMem, hIn, hId⟩
        refine ⟨e, ?_, hIn, hId⟩
        rw [hNarrative, List.drop_append]
        exact List.mem_append_left _ hMem

theorem Settled.beside (event : Beside) (hSpares : ∀ messages, event = .append messages →
      ∀ item ∈ messages, ¬InExchange collection item.1)
    (hSettled : Settled collection start s) : Settled collection start (event.apply s) := by
  cases event with
  | trim drop =>
      exact ⟨fun e hMem => hSettled.narrative e (List.mem_of_mem_drop hMem), hSettled.known,
        hSettled.rows⟩
  | persist messages promptTokens =>
      obtain ⟨new, hRows, hNew⟩ := rows_insertRows messages promptTokens s
      have hNext := nextSeq_insertRows messages promptTokens s
      refine ⟨hSettled.narrative, fun id hStart =>
        Nat.lt_of_lt_of_le (hSettled.known id hStart) hNext, fun id hStart row hMem hSeq => ?_⟩
      have hMem : row ∈ s.rows ++ new := hRows ▸ hMem
      rcases List.mem_append.mp hMem with hOld | hLater
      · exact hSettled.rows id hStart row hOld hSeq
      · have hGe := hNew row hLater
        rw [hSeq] at hGe
        exact absurd (hSettled.known id hStart) (Nat.not_lt_of_le hGe)
  | append messages =>
      refine ⟨fun e hMem => ?_, hSettled.known, hSettled.rows⟩
      rcases List.mem_append.mp hMem with hOld | hNew
      · exact hSettled.narrative e hOld
      · obtain ⟨⟨item, index⟩, hItem, rfl⟩ := List.mem_map.mp hNew
        exact hSpares messages rfl item
          (List.mem_of_getElem? (List.mem_zipIdx_iff_getElem?.mp hItem))

/-- The loop goes on, to the next row or to its end. -/
theorem Looping.next (hApart : target ≠ collection)
    (hLoop : Looping collection target start position none s) :
    Reparenting.Inv collection target start
        (Reparenting.advance collection target ⟨s, .looping position⟩) ∧
      Rewrites collection s (Reparenting.advance collection target ⟨s, .looping position⟩).dialogue := by
  have hStretch := stretch_moveUntilRow hApart (s.narrative.drop position)
  unfold Reparenting.advance reparentStep
  simp only
  generalize moveUntilRow collection target (s.narrative.drop position) = moved at hStretch
  obtain ⟨entries, next⟩ := moved
  have hRewrites : List.Forall₂ (fun e e' : Entry => e' = e ∨ InExchange collection e.message)
      s.narrative (s.narrative.take position ++ entries) := by
    have hBefore : List.Forall₂ (fun e e' : Entry => e' = e ∨ InExchange collection e.message)
        (s.narrative.take position) (s.narrative.take position) :=
      List.forall₂_same.mpr fun _ _ => .inl rfl
    have hBoth : List.Forall₂ _ (s.narrative.take position ++ s.narrative.drop position)
        (s.narrative.take position ++ entries) := List.rel_append hBefore hStretch.rewrites
    rwa [List.take_append_drop] at hBoth
  cases next with
  | none =>
      refine ⟨⟨fun e hMem => ?_, hLoop.known, fun id hStart row hRow hSeq hCarries => ?_⟩,
        hRewrites, List.forall₂_same.mpr fun _ _ => .inl rfl⟩
      · exact (List.mem_append.mp hMem).elim (hLoop.visited e) (hStretch.through rfl e)
      · -- what was still to be written has no row
        obtain hNone | ⟨e, hMem, hIn, hId⟩ := hLoop.owed id hStart row hRow hSeq hCarries
        · cases hNone
        · rw [hStretch.silent rfl e hMem hIn] at hId
          cases hId
  | some found =>
      obtain ⟨passed, id⟩ := found
      obtain ⟨hTake, hDrop, ⟨x, hX, hIn, hXId⟩, hIds⟩ := hStretch.past passed id rfl
      -- the loop is at the same message as before in the list it has rewritten
      have hLength : (s.narrative.take position).length = position := by
        have hPos := List.length_pos_of_mem hX
        rw [List.length_drop] at hPos
        rw [List.length_take]
        omega
      have hBehind : (s.narrative.take position ++ entries).drop (position + passed) =
          (s.narrative.drop position).drop passed := by
        rw [List.drop_append, hLength, Nat.add_sub_cancel_left, hDrop,
          List.drop_eq_nil_of_le (by omega), List.nil_append]
      have hFront : ∀ e ∈ (s.narrative.take position ++ entries).take (position + passed),
          ¬InExchange collection e.message := by
        intro e hMem
        rw [List.take_append, hLength, Nat.add_sub_cancel_left,
          List.take_of_length_le (by omega)] at hMem
        exact (List.mem_append.mp hMem).elim (hLoop.visited e) (hTake e)
      refine ⟨⟨hFront, hLoop.known, fun e hMem hCarries => hLoop.ahead e ?_ hCarries,
        fun other hOther => ?_, fun other hStart row hRow hSeq hCarries => ?_⟩, hRewrites,
        List.forall₂_same.mpr fun _ _ => .inl rfl⟩
      · exact List.mem_of_mem_drop (hBehind ▸ hMem)
      · obtain rfl := Option.some.inj hOther
        exact hLoop.ahead x hX hIn _ hXId
      · obtain hNone | ⟨e, hMem, hHere, hId⟩ := hLoop.owed other hStart row hRow hSeq hCarries
        · cases hNone
        · rw [← List.take_append_drop passed (s.narrative.drop position)] at hMem
          rcases List.mem_append.mp hMem with hPassed | hLater
          · exact .inl (congrArg some (hIds e hPassed hHere other hId).symm)
          · exact .inr ⟨e, hBehind ▸ hLater, hHere, hId⟩

/-- A row has been written. -/
theorem Looping.wrote {id : MessageId} (hApart : target ≠ collection)
    (hLoop : Looping collection target start position (some id) s) :
    Looping collection target start position none (setExchange id target s) ∧
      Rewrites collection s (setExchange id target s) := by
  have hNext := nextSeq_setExchange id target s
  have hRow : ∀ row ∈ (setExchange id target s).rows, ∃ old ∈ s.rows, old.seq = row.seq ∧
      (row = old ∧ row.seq ≠ id ∨ row.seq = id ∧ InExchange target row.message) := by
    intro row hMem
    obtain ⟨old, hOld, rfl⟩ := List.mem_map.mp hMem
    split
    · rename_i hSeq
      exact ⟨old, hOld, rfl, .inr ⟨hSeq, rfl⟩⟩
    · rename_i hSeq
      exact ⟨old, hOld, rfl, .inl ⟨rfl, hSeq⟩⟩
  refine ⟨⟨hLoop.visited, fun other hStart => hNext ▸ hLoop.known other hStart,
    fun e hMem hCarries other hId => ?_, nofun, fun other hStart row hMem hSeq hCarries => ?_⟩,
    List.forall₂_same.mpr fun _ _ => .inl rfl, ?_⟩
  · obtain ⟨hLt, hAll⟩ := hLoop.ahead e hMem hCarries other hId
    refine ⟨hNext ▸ hLt, fun row hRowMem hSeq => ?_⟩
    obtain ⟨old, hOld, hOldSeq, ⟨rfl, -⟩ | ⟨-, hIn⟩⟩ := hRow row hRowMem
    · exact hAll row hOld hSeq
    · exact .inr hIn
  · obtain ⟨old, hOld, hOldSeq, ⟨rfl, hOther⟩ | ⟨-, hIn⟩⟩ := hRow row hMem
    · refine (hLoop.owed other hStart row hOld hSeq hCarries).imp_left fun hSame => ?_
      -- The row that was owed is the one that has been written.
      obtain rfl := Option.some.inj hSame
      exact absurd hSeq hOther
    · exact absurd (Option.some.inj (hIn.symm.trans hCarries)) hApart
  · -- the row was in the collection, or is what it was
    rw [setExchange, List.forall₂_map_right_iff]
    refine List.forall₂_same.mpr fun row hMem => ?_
    split
    · rename_i hSeq
      rcases (hLoop.underWay id rfl).2 row hMem hSeq with hCollection | hTarget
      · exact .inr hCollection
      · refine .inl ?_
        rw [← hTarget]
    · exact .inl rfl

theorem Rewrites.refl (s : Dialogue) : Rewrites collection s s :=
  ⟨List.forall₂_same.mpr fun _ _ => .inl rfl, List.forall₂_same.mpr fun _ _ => .inl rfl⟩

theorem Reparenting.Inv.own (hApart : target ≠ collection)
    (hInv : r.Inv collection target start) :
    (r.advance collection target).Inv collection target start ∧
      Rewrites collection r.dialogue (r.advance collection target).dialogue := by
  obtain ⟨s, stage⟩ := r
  cases stage with
  | looping position => exact Looping.next hApart hInv
  | writing position id => exact Looping.wrote hApart hInv
  | settling => exact ⟨hInv, Rewrites.refl s⟩
  | returned => exact ⟨hInv, Rewrites.refl s⟩

theorem Reparenting.Inv.step (hApart : target ≠ collection)
    (hInv : r.Inv collection target start) (hStep : r.Step collection target (sparing collection) r') :
    r'.Inv collection target start := by
  cases hStep with
  | own => exact (hInv.own hApart).1
  | beside event hProper hSpares =>
      obtain ⟨s, stage⟩ := r
      cases stage with
      | looping position =>
          exact Looping.beside event hProper (fun drop hEvent => by subst hEvent; exact hSpares)
            (fun messages hEvent => by subst hEvent; exact hSpares) hInv
      | writing position id =>
          exact Looping.beside event hProper (fun drop hEvent => by subst hEvent; exact hSpares)
            (fun messages hEvent => by subst hEvent; exact hSpares) hInv
      | settling =>
          exact Settled.beside event (fun messages hEvent => by subst hEvent; exact hSpares) hInv
      | returned =>
          exact Settled.beside event (fun messages hEvent => by subst hEvent; exact hSpares) hInv

/-- The ids of the messages in the narrative. -/
def Dialogue.ids (s : Dialogue) : List MessageId := s.narrative.filterMap fun e => e.message.id

theorem Looping.initial (hBacked : ∀ e ∈ s.narrative, Backed s e.message) :
    Looping collection target s.ids 0 none s := by
  refine ⟨by simp, fun id hStart => ?_, fun e hMem hCarries id hId => ?_, nofun,
    fun id hStart row hRow hSeq hCarries => .inr ?_⟩
  · obtain ⟨e, hMem, hId⟩ := List.mem_filterMap.mp hStart
    exact (hBacked e hMem id hId).1
  · obtain ⟨hLt, hAll⟩ := hBacked e hMem id hId
    refine ⟨hLt, fun row hRow hSeq => .inl ?_⟩
    rw [InExchange, hAll row hRow hSeq]
    exact hCarries
  · obtain ⟨e, hMem, hId⟩ := List.mem_filterMap.mp hStart
    refine ⟨e, hMem, ?_, hId⟩
    rw [InExchange, ← (hBacked e hMem id hId).2 row hRow hSeq]
    exact hCarries

/-- A re-parenting beside trims, new rows and appends that take no message of the collection
past its loop: when it has returned, neither the narrative nor a row of a message that was in
the narrative when it began is in the collection, and at no step has it changed a message that
was not. -/
theorem reparent_complete (hApart : target ≠ collection)
    (hBacked : ∀ e ∈ s.narrative, Backed s e.message)
    (hRun : Reparenting.Run collection target (sparing collection) ⟨s, .looping 0⟩ r) :
    (r.stage = .returned →
      (∀ e ∈ r.dialogue.narrative, ¬InExchange collection e.message) ∧
      ∀ id ∈ s.ids, ∀ row ∈ r.dialogue.rows, row.seq = id → ¬InExchange collection row.message) ∧
    Rewrites collection r.dialogue (r.advance collection target).dialogue := by
  have hInv : r.Inv collection target s.ids := by
    induction hRun with
    | refl => exact Looping.initial hBacked
    | tail _ hStep ih => exact ih.step hApart hStep
  refine ⟨fun hReturned => ?_, (hInv.own hApart).2⟩
  obtain ⟨t, stage⟩ := r
  obtain rfl : stage = .returned := hReturned
  have hSettled : Settled collection s.ids t := hInv
  exact ⟨hSettled.narrative, hSettled.rows⟩

/-- Two forwarded messages of exchange 1. -/
def forwarded : Dialogue :=
  let message (id : MessageId) : ChatMessage :=
    { role := .user, content := "news", kind := .material, id := some id, exchangeId := some 1 }
  { rows := [{ seq := 1, message := message 1 }, { seq := 2, message := message 2 }],
    narrative :=
      [{ message := message 1, seq := 1, serial := 0 }, { message := message 2, seq := 2, serial := 1 }] }

theorem backed_forwarded : ∀ e ∈ forwarded.narrative, Backed forwarded e.message := by
  unfold Backed
  decide

/-- So many steps of its own. -/
def Reparenting.advances (collection target : ExchangeId) : Nat → Reparenting → Reparenting
  | 0, r => r
  | count + 1, r => advances collection target count (r.advance collection target)

theorem Reparenting.run_advances {allowed : Reparenting → Beside → Prop} (count : Nat)
    (r : Reparenting) : Run collection target allowed r (r.advances collection target count) := by
  induction count generalizing r with
  | zero => exact .refl
  | succ count ih => exact .head .own (ih _)

theorem reparent_complete_forwarded :
    ∃ r, Reparenting.Run 1 2 (sparing 1) ⟨forwarded, .looping 0⟩ r ∧ r.stage = .returned ∧
      (r.stage = .returned →
        (∀ e ∈ r.dialogue.narrative, ¬InExchange 1 e.message) ∧
        ∀ id ∈ forwarded.ids, ∀ row ∈ r.dialogue.rows, row.seq = id → ¬InExchange 1 row.message) ∧
      Rewrites 1 r.dialogue (r.advance 1 2).dialogue := by
  have hRun : Reparenting.Run 1 2 (sparing 1) ⟨forwarded, .looping 0⟩ _ :=
    Reparenting.run_advances 6 ⟨forwarded, .looping 0⟩
  exact ⟨_, hRun, by decide, reparent_complete (by decide) backed_forwarded hRun⟩

/-- The first message is trimmed while its row is written: the second is passed over. -/
theorem reparent_passes_over :
    ∃ r, Reparenting.Run 1 2 (fun _ _ => True) ⟨forwarded, .looping 0⟩ r ∧ r.stage = .returned ∧
      (∃ e ∈ r.dialogue.narrative, InExchange 1 e.message) ∧
      ∃ id ∈ forwarded.ids, ∃ row ∈ r.dialogue.rows, row.seq = id ∧ InExchange 1 row.message := by
  have hTrim : Reparenting.Step 1 2 (fun _ _ => True)
      (Reparenting.advance 1 2 ⟨forwarded, .looping 0⟩) _ := .beside (.trim 1) trivial trivial
  refine ⟨_, (Relation.ReflTransGen.single .own).trans ((Relation.ReflTransGen.single hTrim).trans
    (Reparenting.run_advances 3 _)), by decide, by decide, by decide⟩

end Dialog
end OctoForge
