import OctoForge.Coop.Outcome
import OctoForge.Messages.Repository
import OctoForge.Sequence.Numbered
import Mathlib.Data.List.Nodup
import OctoForge.Sequence.Places

/-!
# Integrity of the message log

Of all sessions at most one has rows that are not committed, and they are numbered
from the end of the log on: whoever enters the number after the log makes the others
wait for it, and whoever evaluated a number before the log grew finds it taken.  So a
commit continues the log without a gap, and a failed INSERT is the first of its call,
which therefore leaves its session as it was.
-/

namespace OctoForge
namespace Messages

open Coop
open Co (Deal deal_done deal_fail deal_read deal_modify deal_atomic deal_attemptWhen Left)
open Sequence (Numbered)

variable {Message : Type}

/-- What a row says of the call that wrote it. -/
def Row.entry (row : Row Message) : CallId × Message := (row.call, row.message)

namespace Result

def call : Result Message → Option CallId
  | .appended call _ => some call
  | .wrote _ => none

def entries : Result Message → List (CallId × Message)
  | .appended call messages => messages.map fun message => (call, message)
  | .wrote _ => []

def writes : Result Message → List String
  | .appended _ _ => []
  | .wrote w => [w]

end Result

/-! ## The invariant -/

structure Inv (s : Store Message) : Prop where
  numbered : Numbered Row.seq 1 s.rows
  pending : ∀ (tx : Nat) (x : Session Message), s.sessions[tx]? = some x →
    Numbered Row.seq (s.rows.length + 1) x.rows
  single : ∀ (tx tx' : Nat) (x x' : Session Message), s.sessions[tx]? = some x →
    s.sessions[tx']? = some x' → x.rows ≠ [] → x'.rows ≠ [] → tx = tx'
  entries : s.rows.map Row.entry = s.returned.flatMap Result.entries
  calls : (s.returned.filterMap Result.call).Nodup
  ended : ∀ call ∈ s.returned.filterMap Result.call,
    ∃ x, s.sessions[call.session]? = some x ∧ x.isOpen = false
  written : s.written = s.returned.flatMap Result.writes

/-- A step of the coroutine `me`: the sessions of the others stay as they are, and the
log stays as long as one of them has rows. -/
structure Keeps (me : Nat) (s s' : Store Message) : Prop where
  others : ∀ (tx : Nat) (x : Session Message), s.sessions[tx]? = some x → x.owner ≠ me →
    s'.sessions[tx]? = some x
  grows : s.rows.length ≤ s'.rows.length
  still : ∀ (tx : Nat) (x : Session Message), s.sessions[tx]? = some x → x.owner ≠ me →
    x.rows ≠ [] → s'.rows.length = s.rows.length

theorem Keeps.refl (me : Nat) (s : Store Message) : Keeps me s s :=
  ⟨fun _ _ hAt _ => hAt, Nat.le_refl _, fun _ _ _ _ _ => rfl⟩

/-- The writers never take a step that is not theirs. -/
def logProtocol (Message : Type) : Protocol (Store Message) where
  inv := Inv
  guarantee := Keeps
  env _ _ := False

/-- The coroutine `me` has the session open, and this is how it stands. -/
structure Holds (me tx : Nat) (x : Session Message) (s : Store Message) : Prop where
  at_tx : s.sessions[tx]? = some x
  owner : x.owner = me
  isOpen : x.isOpen = true

theorem Holds.session {me tx : Nat} {x : Session Message} {s : Store Message}
    (hHolds : Holds me tx x s) : s.session tx = x := by
  simp [Store.session, List.getD_eq_getElem?_getD, hHolds.at_tx]

/-- A step of another coroutine, seen from here. -/
theorem rely_cases {me : Nat} {s s' : Store Message} (hRely : (logProtocol Message).rely me s s') :
    ∃ other, other ≠ me ∧ Keeps other s s' := by
  obtain ⟨-, ⟨other, hOther, hKeeps⟩ | hEnv⟩ := hRely
  · exact ⟨other, hOther, hKeeps⟩
  · exact hEnv.elim

theorem stable_holds (me tx : Nat) (x : Session Message) :
    (logProtocol Message).Stable me fun s => Inv s ∧ Holds me tx x s := by
  intro s s' hBoth hRely
  obtain ⟨other, hOther, hKeeps⟩ := rely_cases hRely
  obtain ⟨-, hAt, hOwner, hOpen⟩ := hBoth
  exact ⟨hRely.1, hKeeps.others tx x hAt (by omega), hOwner, hOpen⟩

/-! ## Steps that concern one session -/

section Sessions

variable {me tx : Nat} {x x' : Session Message} {s : Store Message}

theorem getElem?_setSession (hAt : s.sessions[tx]? = some x) (other : Nat) :
    (s.setSession tx x').sessions[other]? = if tx = other then some x' else s.sessions[other]? := by
  obtain ⟨hBound, -⟩ := List.getElem?_eq_some_iff.mp hAt
  simp [Store.setSession, List.getElem?_set, hBound]

theorem keeps_setSession (hHolds : Holds me tx x s) : Keeps me s (s.setSession tx x') := by
  refine ⟨fun other y hAt hOther => ?_, Nat.le_refl _, fun _ _ _ _ _ => rfl⟩
  rw [getElem?_setSession hHolds.at_tx, if_neg]
  · exact hAt
  · rintro rfl
    obtain rfl := Option.some.inj (hHolds.at_tx.symm.trans hAt)
    exact hOther hHolds.owner

theorem holds_setSession (hHolds : Holds me tx x s) (hOwner : x'.owner = x.owner)
    (hOpen : x'.isOpen = true) : Holds me tx x' (s.setSession tx x') :=
  ⟨by rw [getElem?_setSession hHolds.at_tx, if_pos rfl], hOwner.trans hHolds.owner, hOpen⟩

/-- The session gets new rows, numbered from the end of the log on, while no other has
any; or it keeps or drops what it has. -/
theorem inv_setSession (hInv : Inv s) (hHolds : Holds me tx x s)
    (hRows : Numbered Row.seq (s.rows.length + 1) x'.rows)
    (hSingle : x'.rows ≠ [] → ∀ other y, other ≠ tx → s.sessions[other]? = some y → y.rows = []) :
    Inv (s.setSession tx x') := by
  -- A session is the one that is set, or as it was.
  have hCases : ∀ other y, (s.setSession tx x').sessions[other]? = some y →
      other = tx ∧ y = x' ∨ other ≠ tx ∧ s.sessions[other]? = some y := by
    intro other y hAt
    rw [getElem?_setSession hHolds.at_tx] at hAt
    split at hAt
    · rename_i hSame
      exact Or.inl ⟨hSame.symm, (Option.some.inj hAt).symm⟩
    · rename_i hOther
      exact Or.inr ⟨fun hSame => hOther hSame.symm, hAt⟩
  refine ⟨hInv.numbered, ?_, ?_, hInv.entries, hInv.calls, ?_, hInv.written⟩
  · intro other y hAt
    rcases hCases other y hAt with ⟨-, rfl⟩ | ⟨-, hOld⟩
    · exact hRows
    · exact hInv.pending other y hOld
  · intro first second y z hFirst hSecond hY hZ
    rcases hCases first y hFirst with ⟨rfl, rfl⟩ | ⟨hNe, hOld⟩
    · rcases hCases second z hSecond with ⟨rfl, -⟩ | ⟨hNe, hOld⟩
      · rfl
      · exact absurd (hSingle hY second z hNe hOld) hZ
    · rcases hCases second z hSecond with ⟨rfl, rfl⟩ | ⟨-, hOld'⟩
      · exact absurd (hSingle hZ first y hNe hOld) hY
      · exact hInv.single first second y z hOld hOld' hY hZ
  · intro call hCall
    obtain ⟨y, hAt, hEnded⟩ := hInv.ended call hCall
    refine ⟨y, ?_, hEnded⟩
    rw [getElem?_setSession hHolds.at_tx, if_neg]
    · exact hAt
    · rintro rfl
      obtain rfl := Option.some.inj (hHolds.at_tx.symm.trans hAt)
      exact absurd hHolds.isOpen (by simp [hEnded])

/-- While the session has rows, no other has. -/
theorem Inv.others_empty (hInv : Inv s) (hAt : s.sessions[tx]? = some x) (hRows : x.rows ≠ [])
    (other : Nat) (y : Session Message) (hOther : other ≠ tx) (hAt' : s.sessions[other]? = some y) :
    y.rows = [] := by
  by_contra hSome
  exact hOther (hInv.single other tx y x hAt' hAt hSome hRows)

theorem inv_sameRows (hInv : Inv s) (hHolds : Holds me tx x s) (hRows : x'.rows = x.rows) :
    Inv (s.setSession tx x') := by
  refine inv_setSession hInv hHolds ?_ fun hSome => ?_
  · rw [hRows]
    exact hInv.pending tx x hHolds.at_tx
  · exact hInv.others_empty hHolds.at_tx (hRows ▸ hSome)

theorem inv_noRows (hInv : Inv s) (hHolds : Holds me tx x s) (hRows : x'.rows = []) :
    Inv (s.setSession tx x') := by
  refine inv_setSession hInv hHolds ?_ fun hSome => absurd hRows hSome
  rw [hRows]
  rfl

end Sessions

/-! ## An INSERT -/

section Inserts

variable {dialect : Dialect} {me tx index : Nat} {x : Session Message} {s : Store Message}

theorem visible_numbered (hInv : Inv s) (hHolds : Holds me tx x s) :
    Numbered Row.seq 1 (s.visible tx) := by
  rw [Store.visible, hHolds.session]
  refine hInv.numbered.append ?_
  rw [Nat.add_comm]
  exact hInv.pending tx x hHolds.at_tx

theorem length_visible (hHolds : Holds me tx x s) :
    (s.visible tx).length = s.rows.length + x.rows.length := by
  rw [Store.visible, hHolds.session, List.length_append]

theorem nextSeq_eq (hInv : Inv s) (hHolds : Holds me tx x s) :
    s.nextSeq tx = s.rows.length + x.rows.length + 1 := by
  have hNumbered := visible_numbered hInv hHolds
  have hLength := length_visible hHolds
  unfold Store.nextSeq
  by_cases hNone : s.visible tx = []
  · rw [hNone] at hLength ⊢
    simp only [List.length_nil] at hLength
    show 0 + 1 = s.rows.length + x.rows.length + 1
    omega
  · rw [hNumbered.foldr_max hNone]
    omega

/-- A number that was evaluated for the session and has not been entered yet. -/
structure Due (x : Session Message) (seq : Nat) (s : Store Message) : Prop where
  low : 1 ≤ seq
  high : seq ≤ s.rows.length + x.rows.length + 1
  exact : x.rows ≠ [] → seq = s.rows.length + x.rows.length + 1

theorem stable_due (me tx : Nat) (x : Session Message) (seq : Nat) :
    (logProtocol Message).Stable me fun s => Inv s ∧ Holds me tx x s ∧ Due x seq s := by
  intro s s' hAll hRely
  obtain ⟨other, hOther, hKeeps⟩ := rely_cases hRely
  obtain ⟨hInv, hHolds, hDue⟩ := hAll
  have hStays := stable_holds me tx x s s' ⟨hInv, hHolds⟩ hRely
  have hGrows := hKeeps.grows
  have hHigh := hDue.high
  refine ⟨hStays.1, hStays.2, hDue.low, by omega, fun hRows => ?_⟩
  have hOwner := hHolds.owner
  have hStill := hKeeps.still tx x hHolds.at_tx (by omega) hRows
  have hExact := hDue.exact hRows
  omega

/-- Where another session has rows of its own, the number after the log is held. -/
theorem others_empty_of_mayEnter {row : Row Message} (hInv : Inv s) (hHolds : Holds me tx x s)
    (hSeq : row.seq = s.rows.length + x.rows.length + 1) (hMay : s.mayEnter tx row = true)
    (other : Nat) (y : Session Message) (hOther : other ≠ tx) (hAt : s.sessions[other]? = some y) :
    y.rows = [] := by
  by_cases hRows : x.rows = []
  · cases hHeld : y.rows with
    | nil => rfl
    | cons first rest =>
        have hNumbered := hInv.pending other y hAt
        rw [hHeld, Numbered.cons_iff] at hNumbered
        have hFree := List.all_eq_true.mp hMay (y, other) (List.mem_zipIdx_iff_getElem?.mpr hAt)
        have hSame : first.seq = row.seq := by
          rw [hRows, List.length_nil] at hSeq
          omega
        simp [hOther, hHeld, Row.clashes, hSame] at hFree
  · exact hInv.others_empty hHolds.at_tx hRows other y hOther hAt

/-- The number is taken unless it is the one after the log. -/
theorem seq_eq_of_free {row : Row Message} (hInv : Inv s) (hHolds : Holds me tx x s)
    (hDue : Due x row.seq s) (hFree : ¬ (s.visible tx).any (fun held => held.clashes row) = true) :
    row.seq = s.rows.length + x.rows.length + 1 := by
  have hLength := length_visible hHolds
  have hLow := hDue.low
  have hHigh := hDue.high
  by_contra hOther
  obtain ⟨held, hMem, hSame⟩ :=
    (visible_numbered hInv hHolds).exists_of_bounds hDue.low (by omega)
  exact hFree (List.any_eq_true.mpr ⟨held, hMem, by simp [Row.clashes, hSame]⟩)

/-- Behind rows of its own session an INSERT fails for its key only. -/
theorem key_of_clash {row : Row Message} (hInv : Inv s) (hHolds : Holds me tx x s)
    (hDue : Due x row.seq s) (hClash : (s.visible tx).any (fun held => held.clashes row) = true)
    (hRows : x.rows ≠ []) : row.clientMessageId ≠ none := by
  obtain ⟨held, hMem, hClashes⟩ := List.any_eq_true.mp hClash
  have hBounds := (visible_numbered hInv hHolds).bounds hMem
  have hLength := length_visible hHolds
  have hExact := hDue.exact hRows
  have hNe : held.seq ≠ row.seq := by omega
  intro hNone
  simp only [Row.clashes, hNe, hNone, decide_false, Bool.false_or, Bool.and_eq_true,
    decide_eq_true_eq] at hClashes
  exact absurd hClashes.1 (by simp [hClashes.2])

/-- What is left of an INSERT that failed. -/
def Session.afterFailure (dialect : Dialect) (x : Session Message) : Session Message :=
  { x with aborted := dialect = .postgresql }

/-- The session has entered one row more for the statement. -/
def Entered (me tx index : Nat) (statement : Insert Message) (x : Session Message)
    (s : Store Message) : Prop :=
  ∃ row : Row Message, row.entry = ({ session := tx, index }, statement.message) ∧
    Holds me tx { x with rows := x.rows ++ [row] } s

/-- The session has entered the rows of all statements. -/
def Inserted (me tx index : Nat) (statements : List (Insert Message)) (x : Session Message)
    (s : Store Message) : Prop :=
  ∃ rows : List (Row Message),
    rows.map Row.entry = statements.map (fun statement =>
      ({ session := tx, index }, statement.message)) ∧
    Holds me tx { x with rows := x.rows ++ rows } s

theorem deal_execute {statement : Insert Message} (hFine : x.aborted = false) :
    Deal (logProtocol Message) me (Holds me tx x) (execute dialect tx index statement)
      (fun _ => Entered me tx index statement x)
      (fun error s => error = .integrity ∧
        (x.rows ≠ [] → statement.clientMessageId ≠ none) ∧
        Holds me tx (x.afterFailure dialect) s) := by
  refine Deal.bind (B := fun seq s => Holds me tx x s ∧ Due x seq s) ?_ fun seq => ?_
  · refine deal_read (stable_holds me tx x) fun s hInv hHolds => ?_
    have hNext := nextSeq_eq hInv hHolds
    exact ⟨Keeps.refl me s, hHolds, by omega, by omega, fun _ => hNext⟩
  · refine deal_attemptWhen (stable_due me tx x seq) fun s hInv hBoth hMay => ?_
    obtain ⟨hHolds, hDue⟩ := hBoth
    simp only [Store.enter, hHolds.session]
    rw [if_neg (by simp [hFine])]
    split
    · rename_i hClash
      exact ⟨inv_sameRows hInv hHolds rfl, keeps_setSession hHolds, rfl,
        key_of_clash hInv hHolds hDue hClash, holds_setSession hHolds rfl hHolds.isOpen⟩
    · rename_i hFree
      have hSeq := seq_eq_of_free hInv hHolds hDue hFree
      refine ⟨?_, keeps_setSession hHolds, _, rfl, holds_setSession hHolds rfl hHolds.isOpen⟩
      refine inv_setSession hInv hHolds ?_
        fun _ => others_empty_of_mayEnter hInv hHolds hSeq hMay
      refine (hInv.pending tx x hHolds.at_tx).append (Numbered.cons_iff.mpr ⟨?_, rfl⟩)
      rw [hSeq]
      omega

theorem deal_executeAll_nil {E : StoreError → Store Message → Prop} :
    Deal (logProtocol Message) me (Holds me tx x) (executeAll dialect tx index [])
      (fun _ => Inserted me tx index [] x) E :=
  deal_done fun s _ hHolds => ⟨[], rfl, by simpa using hHolds⟩

theorem deal_executeAll_cons {statement : Insert Message} {rest : List (Insert Message)}
    {E : StoreError → Store Message → Prop}
    (hFirst : Deal (logProtocol Message) me (Holds me tx x) (execute dialect tx index statement)
      (fun _ => Entered me tx index statement x) E)
    (hRest : ∀ row : Row Message,
      Deal (logProtocol Message) me (Holds me tx { x with rows := x.rows ++ [row] })
        (executeAll dialect tx index rest)
        (fun _ => Inserted me tx index rest { x with rows := x.rows ++ [row] }) E) :
    Deal (logProtocol Message) me (Holds me tx x) (executeAll dialect tx index (statement :: rest))
      (fun _ => Inserted me tx index (statement :: rest) x) E := by
  refine hFirst.bind fun _ s hInv hEntered => ?_
  obtain ⟨row, hEntry, hHolds⟩ := hEntered
  refine ((hRest row).mono (fun _ _ hA => hA) (fun _ t _ hInserted => ?_) fun _ _ _ hE => hE) s hInv
    hHolds
  obtain ⟨rows, hEntries, hAfter⟩ := hInserted
  exact ⟨row :: rows, by simp [hEntry, hEntries], by simpa using hAfter⟩

/-- Behind rows of their own session, INSERTs without a key do not fail. -/
theorem deal_executeAll_keyless (statements : List (Insert Message)) (hFine : x.aborted = false)
    (hRows : x.rows ≠ []) (hKeyless : ∀ statement ∈ statements, statement.clientMessageId = none) :
    Deal (logProtocol Message) me (Holds me tx x) (executeAll dialect tx index statements)
      (fun _ => Inserted me tx index statements x) (fun _ _ => False) := by
  induction statements generalizing x with
  | nil => exact deal_executeAll_nil
  | cons statement rest ih =>
      refine deal_executeAll_cons ?_ fun row => ?_
      · exact (deal_execute hFine).mono (fun _ _ hA => hA) (fun _ _ _ hB => hB)
          fun _ _ _ hE => hE.2.1 hRows (hKeyless statement List.mem_cons_self)
      · exact ih hFine (by simp)
          fun other hMem => hKeyless other (List.mem_cons_of_mem statement hMem)

/-- Only the first INSERT of an attempt can fail, so that a failure leaves no rows. -/
theorem deal_executeAll (statements : List (Insert Message)) (hFine : x.aborted = false)
    (hKeyless : ∀ statement ∈ statements.tail, statement.clientMessageId = none) :
    Deal (logProtocol Message) me (Holds me tx x) (executeAll dialect tx index statements)
      (fun _ => Inserted me tx index statements x)
      (fun error s => error = .integrity ∧ Holds me tx (x.afterFailure dialect) s) := by
  cases statements with
  | nil => exact deal_executeAll_nil
  | cons statement rest =>
      refine deal_executeAll_cons ?_ fun row => ?_
      · exact (deal_execute hFine).mono (fun _ _ hA => hA) (fun _ _ _ hB => hB)
          fun _ _ _ hE => ⟨hE.1, hE.2.2⟩
      · exact (deal_executeAll_keyless (x := { x with rows := x.rows ++ [row] }) rest hFine (by simp)
          hKeyless).mono (fun _ _ hA => hA) (fun _ _ _ hB => hB) fun _ _ _ hE => hE.elim

end Inserts

/-! ## The calls in a unit of work -/

section Calls

variable {dialect : Dialect} {me tx index : Nat} {x : Session Message}

theorem deal_setSession {x' : Session Message} {E : StoreError → Store Message → Prop}
    (f : Store Message → Store Message) (hStep : ∀ s, Holds me tx x s → f s = s.setSession tx x')
    (hRows : x'.rows = x.rows) (hOwner : x'.owner = x.owner) (hOpen : x'.isOpen = true) :
    Deal (logProtocol Message) me (Holds me tx x) (Co.modify f) (fun _ => Holds me tx x') E := by
  refine deal_modify (stable_holds me tx x) fun s hInv hHolds => ?_
  rw [hStep s hHolds]
  exact ⟨inv_sameRows hInv hHolds hRows, keeps_setSession hHolds,
    holds_setSession hHolds hOwner hOpen⟩

/-- Put the session right and raise again. -/
theorem deal_undo {x' : Session Message} {error : StoreError} {B : Unit → Store Message → Prop}
    (f : Store Message → Store Message) (hStep : ∀ s, Holds me tx x s → f s = s.setSession tx x')
    (hRows : x'.rows = x.rows) (hOwner : x'.owner = x.owner) (hOpen : x'.isOpen = true) :
    Deal (logProtocol Message) me (Holds me tx x) ((Co.modify f).bind fun _ => Co.throw error) B
      (fun error' s => error' = error ∧ Holds me tx x' s) :=
  (deal_setSession f hStep hRows hOwner hOpen).bind fun _ => deal_fail fun _ _ hHolds => ⟨rfl, hHolds⟩

theorem deal_beginNested {body : Work Message Unit} {B : Unit → Store Message → Prop}
    (hOpen : x.isOpen = true)
    (hBody : Deal (logProtocol Message) me (Holds me tx x) body B
      (fun error s => error = .integrity ∧ Holds me tx (x.afterFailure dialect) s)) :
    Deal (logProtocol Message) me (Holds me tx x) (beginNested tx body) B
      (fun error s => error = .integrity ∧ Holds me tx x s) := by
  refine Deal.bind (B := fun savepoint s => savepoint = x ∧ Holds me tx x s) ?_ ?_
  · exact deal_read (stable_holds me tx x) fun s _ hHolds => ⟨Keeps.refl me s, hHolds.session, hHolds⟩
  · intro savepoint s hInv hSaved
    obtain ⟨rfl, hHolds⟩ := hSaved
    refine Deal.tryCatch hBody (fun error s hInv hError => ?_) s hInv hHolds
    obtain ⟨rfl, hHolds⟩ := hError
    exact deal_undo (x := savepoint.afterFailure dialect) (Store.setSession tx savepoint)
      (fun _ _ => rfl) rfl rfl hOpen s hInv hHolds

/-- The unit of work knows whether it has writes. -/
def Session.ToldOf (x : Session Message) : Prop := x.wrote = false → x.rows = [] ∧ x.writes = []

/-- In a unit of work an attempt either enters its rows or leaves the session as it
found it: behind a savepoint, by a rollback of a session that has nothing else, or
because SQLite does not mind. -/
theorem deal_insertUnder (statements : List (Insert Message)) (hFine : x.aborted = false)
    (hOpen : x.isOpen = true) (hToldOf : x.ToldOf)
    (hKeyless : ∀ statement ∈ statements.tail, statement.clientMessageId = none) :
    Deal (logProtocol Message) me (Holds me tx x) (insertUnder dialect tx index statements)
      (fun _ => Inserted me tx index statements x)
      (fun error s => error = .integrity ∧ Holds me tx x s) := by
  have hAll : Deal (logProtocol Message) me (Holds me tx x) (executeAll dialect tx index statements)
      _ _ := deal_executeAll statements hFine hKeyless
  unfold insertUnder
  split
  · refine Deal.bind (B := fun wrote s => wrote = x.wrote ∧ Holds me tx x s) ?_ ?_
    · exact deal_read (stable_holds me tx x) fun s _ hHolds =>
        ⟨Keeps.refl me s, by rw [hHolds.session], hHolds⟩
    · intro wrote s hInv hRead
      obtain ⟨rfl, hHolds⟩ := hRead
      split
      · exact deal_beginNested hOpen hAll s hInv hHolds
      -- The session has nothing else, so a rollback of all of it undoes just this attempt.
      · rename_i hNothing
        obtain ⟨hRows, hWrites⟩ := hToldOf (by simpa using hNothing)
        refine Deal.tryCatch hAll (fun error s hInv hError => ?_) s hInv hHolds
        obtain ⟨rfl, hHolds⟩ := hError
        have hBack : ∀ s, Holds me tx (x.afterFailure dialect) s →
            s.rollback tx = s.setSession tx x := by
          intro s hHolds
          rw [Store.rollback, hHolds.session]
          simp only [Session.afterFailure, ← hRows, ← hWrites, ← hFine]
        exact deal_undo (Store.rollback tx) hBack rfl rfl hOpen s hInv hHolds
  · rename_i hLite
    have hDialect : dialect = .sqlite := not_ne_iff.mp hLite
    refine hAll.mono (fun _ _ hA => hA) (fun _ _ _ hB => hB) fun error s _ hE => ⟨hE.1, ?_⟩
    have hSame : x.afterFailure dialect = x := by
      simp [Session.afterFailure, hDialect, ← hFine]
    exact hSame ▸ hE.2

theorem deal_insertWithin (statements : List (Insert Message)) (hFine : x.aborted = false)
    (hOpen : x.isOpen = true) (hToldOf : x.ToldOf)
    (hKeyless : ∀ statement ∈ statements.tail, statement.clientMessageId = none) :
    Deal (logProtocol Message) me (Holds me tx x) (insertWithin dialect tx index statements)
      (fun _ => Inserted me tx index statements { x with wrote := true })
      (fun error s => error = .integrity ∧ Holds me tx x s) := by
  refine (deal_insertUnder statements hFine hOpen hToldOf hKeyless).bind fun _ s hInv hInserted => ?_
  obtain ⟨rows, hEntries, hHolds⟩ := hInserted
  have hTold : Deal (logProtocol Message) me (Holds me tx { x with rows := x.rows ++ rows })
      (Co.modify fun s => s.setSession tx { s.session tx with wrote := true })
      (fun _ => Holds me tx { x with rows := x.rows ++ rows, wrote := true })
      (fun error s => error = StoreError.integrity ∧ Holds me tx x s) :=
    deal_setSession _ (fun s hHolds => by simp only [hHolds.session]) rfl rfl hOpen
  exact hTold.mono (fun _ _ hA => hA) (fun _ _ _ hB => ⟨rows, hEntries, hB⟩)
    (fun _ _ _ hE => hE) s hInv hHolds

/-- What an attempt that failed has left alone, the loop leaves alone. -/
theorem deal_retry {A : Store Message → Prop} {B : Unit → Store Message → Prop}
    {attempt after : Work Message Unit}
    (hAttempt : Deal (logProtocol Message) me A attempt B (fun error s => error = .integrity ∧ A s))
    (count : Nat) :
    Deal (logProtocol Message) me A (retry attempt after (count + 1)) B
      (fun error s => error = .integrity ∧ A s) := by
  induction count with
  | zero =>
      refine hAttempt.tryCatch fun error => ?_
      rw [if_neg (by simp)]
      exact deal_fail fun _ _ hError => hError
  | succ count ih =>
      refine hAttempt.tryCatch fun error s hInv hError => ?_
      rw [if_pos ⟨hError.1, Nat.succ_ne_zero count⟩]
      exact ih s hInv hError.2

end Calls

/-! ## What a session has to show for its calls -/

/-- The session holds exactly what the calls that returned have contributed. -/
structure Tally (tx index : Nat) (results : List (Result Message)) (x : Session Message) :
    Prop where
  fine : x.aborted = false
  entries : x.rows.map Row.entry = results.flatMap Result.entries
  writes : x.writes = results.flatMap Result.writes
  calls : (results.filterMap Result.call).Nodup
  made : ∀ call ∈ results.filterMap Result.call, call.session = tx ∧ call.index < index

section Commit

variable {me tx index : Nat} {x : Session Message} {s : Store Message}
  {results : List (Result Message)}

/-- What a commit leaves. -/
structure Committed (tx : Nat) (results : List (Result Message)) (x : Session Message)
    (s s' : Store Message) : Prop where
  rows : s'.rows = s.rows ++ x.rows
  written : s'.written = s.written ++ x.writes
  returned : s'.returned = s.returned ++ results
  ended : ∃ y, s'.sessions[tx]? = some y ∧ y.isOpen = false ∧ y.rows = []
  others : ∀ other, other ≠ tx → s'.sessions[other]? = s.sessions[other]?

theorem committed (hHolds : Holds me tx x s) (hFine : x.aborted = false) :
    Committed tx results x s (s.commit tx results) := by
  obtain ⟨hBound, -⟩ := List.getElem?_eq_some_iff.mp hHolds.at_tx
  have hSession := hHolds.session
  simp only [Store.commit, hSession, hFine, Bool.false_eq_true, if_false, Store.close]
  refine ⟨rfl, rfl, rfl, ⟨_, List.getElem?_set_self hBound, rfl, rfl⟩, fun other hOther => ?_⟩
  exact List.getElem?_set_ne fun hSame => hOther hSame.symm

variable {s' : Store Message}

theorem Committed.keeps (hInv : Inv s) (hHolds : Holds me tx x s)
    (hDone : Committed tx results x s s') : Keeps me s s' := by
  have hOthers : ∀ other y, s.sessions[other]? = some y → y.owner ≠ me → other ≠ tx := by
    rintro other y hAt hOther rfl
    obtain rfl := Option.some.inj (hHolds.at_tx.symm.trans hAt)
    exact hOther hHolds.owner
  refine ⟨fun other y hAt hOther => ?_, ?_, fun other y hAt hOther hRows => ?_⟩
  · rw [hDone.others other (hOthers other y hAt hOther)]
    exact hAt
  · rw [hDone.rows, List.length_append]
    omega
  · have hNone : x.rows = [] := by
      by_contra hSome
      exact hOthers other y hAt hOther (hInv.single other tx y x hAt hHolds.at_tx hRows hSome)
    rw [hDone.rows, hNone, List.append_nil]

/-- The rows of the session that is committed are the only ones that were not. -/
theorem Committed.inv (hInv : Inv s) (hHolds : Holds me tx x s) (hTally : Tally tx index results x)
    (hDone : Committed tx results x s s') : Inv s' := by
  have hPending := hInv.pending tx x hHolds.at_tx
  obtain ⟨ended, hEnded, hClosed, hEmpty⟩ := hDone.ended
  -- A session is the one that is committed, which has no rows any more, or as it was.
  have hCases : ∀ (other : Nat) (y : Session Message), s'.sessions[other]? = some y →
      y.rows = [] ∨ other ≠ tx ∧ s.sessions[other]? = some y := by
    intro other y hAt
    by_cases hSame : other = tx
    · rw [hSame, hEnded] at hAt
      exact Or.inl (Option.some.inj hAt ▸ hEmpty)
    · rw [hDone.others other hSame] at hAt
      exact Or.inr ⟨hSame, hAt⟩
  refine ⟨?_, ?_, ?_, ?_, ?_, ?_, ?_⟩
  · rw [hDone.rows]
    exact hInv.numbered.append (by rw [Nat.add_comm]; exact hPending)
  · intro other y hAt
    rcases hCases other y hAt with hNone | ⟨hOther, hOld⟩
    · rw [hNone]
      rfl
    · -- While a session has rows that are not committed, no other one has.
      by_cases hSome : x.rows = []
      · rw [hDone.rows, hSome, List.append_nil]
        exact hInv.pending other y hOld
      · rw [hInv.others_empty hHolds.at_tx hSome other y hOther hOld]
        rfl
  · intro first second y z hFirst hSecond hY hZ
    rcases hCases first y hFirst with hNone | ⟨-, hOld⟩
    · exact absurd hNone hY
    · rcases hCases second z hSecond with hNone | ⟨-, hOld'⟩
      · exact absurd hNone hZ
      · exact hInv.single first second y z hOld hOld' hY hZ
  · rw [hDone.rows, hDone.returned, List.map_append, List.flatMap_append, hInv.entries,
      hTally.entries]
  · rw [hDone.returned, List.filterMap_append]
    refine List.nodup_append.mpr ⟨hInv.calls, hTally.calls, fun call hOld call' hNew hSame => ?_⟩
    -- A call that has returned has left its session closed, but this one is open.
    subst hSame
    obtain ⟨y, hAt, hOver⟩ := hInv.ended call hOld
    rw [(hTally.made call hNew).1, hHolds.at_tx] at hAt
    obtain rfl := Option.some.inj hAt
    exact absurd hHolds.isOpen (by simp [hOver])
  · intro call hCall
    by_cases hSame : call.session = tx
    · exact ⟨ended, hSame ▸ hEnded, hClosed⟩
    · rw [hDone.others call.session hSame]
      rw [hDone.returned, List.filterMap_append, List.mem_append] at hCall
      rcases hCall with hOld | hNew
      · exact hInv.ended call hOld
      · exact absurd (hTally.made call hNew).1 hSame
  · rw [hDone.written, hDone.returned, List.flatMap_append, hInv.written, hTally.writes]

end Commit

/-! ## Units of work and calls on their own -/

section Units

variable {dialect : Dialect} {me tx index : Nat} {x : Session Message}
  {results : List (Result Message)}

theorem Tally.nil (tx owner : Nat) : Tally tx 0 [] ({ owner } : Session Message) :=
  ⟨rfl, rfl, rfl, List.nodup_nil, fun _ hMem => by simp at hMem⟩

/-- A call that raised has contributed nothing. -/
theorem Tally.skip (hTally : Tally tx index results x) : Tally tx (index + 1) results x := by
  refine ⟨hTally.fine, hTally.entries, hTally.writes, hTally.calls, fun call hMem => ?_⟩
  obtain ⟨hSession, hIndex⟩ := hTally.made call hMem
  exact ⟨hSession, by omega⟩

theorem Tally.appended {messages : List Message} {rows : List (Row Message)} {wrote : Bool}
    (hTally : Tally tx index results x)
    (hRows : rows.map Row.entry = messages.map fun message => ({ session := tx, index }, message)) :
    Tally tx (index + 1) (results ++ [.appended { session := tx, index } messages])
      { x with rows := x.rows ++ rows, wrote } := by
  refine ⟨hTally.fine, ?_, ?_, ?_, ?_⟩
  · simp only [List.map_append, hTally.entries, hRows, List.flatMap_append, List.flatMap_singleton,
      Result.entries]
  · simp only [hTally.writes, List.flatMap_append, List.flatMap_singleton, Result.writes,
      List.append_nil]
  · rw [List.filterMap_append]
    refine List.nodup_append.mpr ⟨hTally.calls, List.nodup_singleton _, fun call hOld call' hNew => ?_⟩
    obtain rfl := List.mem_singleton.mp hNew
    rintro rfl
    exact absurd (hTally.made _ hOld).2 (Nat.lt_irrefl index)
  · intro call hMem
    rw [List.filterMap_append, List.mem_append] at hMem
    rcases hMem with hOld | hNew
    · exact hTally.skip.made call hOld
    · obtain rfl := List.mem_singleton.mp hNew
      exact ⟨rfl, Nat.lt_succ_self index⟩

theorem Tally.wrote {w : String} (hTally : Tally tx index results x) :
    Tally tx (index + 1) (results ++ [.wrote w])
      { x with writes := x.writes ++ [w], wrote := true } := by
  have hCalls : (results ++ [Result.wrote w]).filterMap Result.call = results.filterMap Result.call := by
    rw [List.filterMap_append]
    exact List.append_nil _
  refine ⟨hTally.fine, ?_, ?_, ?_, ?_⟩
  · simp only [hTally.entries, List.flatMap_append, List.flatMap_singleton, Result.entries,
      List.append_nil]
  · simp only [hTally.writes, List.flatMap_append, List.flatMap_singleton, Result.writes]
  · rw [hCalls]
    exact hTally.calls
  · intro call hMem
    rw [hCalls] at hMem
    exact hTally.skip.made call hMem

/-- A call of the repository in a unit of work. -/
theorem deal_insert (statements : List (Insert Message)) (after : Work Message Unit)
    (hTally : Tally tx index results x) (hToldOf : x.ToldOf)
    (hKeyless : ∀ statement ∈ statements.tail, statement.clientMessageId = none) :
    Deal (logProtocol Message) me (Holds me tx x)
      (retry (insertWithin dialect tx index statements) after MESSAGE_SEQ_RETRY_ATTEMPTS)
      (fun _ s => ∃ x', Holds me tx x' s ∧ x'.ToldOf ∧
        Tally tx (index + 1)
          (results ++ [.appended { session := tx, index } (statements.map (·.message))]) x')
      (fun _ s => Holds me tx x s) := by
  intro s hInv hHolds
  have hAttempt : Deal (logProtocol Message) me (Holds me tx x)
      (insertWithin dialect tx index statements) _ _ :=
    deal_insertWithin statements hTally.fine hHolds.isOpen hToldOf hKeyless
  refine ((deal_retry hAttempt 4).mono (fun _ _ hA => hA) (fun _ t _ hInserted => ?_)
    fun _ _ _ hE => hE.2) s hInv hHolds
  obtain ⟨rows, hEntries, hAfter⟩ := hInserted
  exact ⟨_, hAfter, fun hNever => absurd hNever (by simp),
    hTally.appended (by rw [hEntries, List.map_map]; rfl)⟩

/-- A call that returned has contributed, and one that raised has left the unit as it
was. -/
theorem deal_op (op : Op Message) (hTally : Tally tx index results x) (hToldOf : x.ToldOf) :
    Deal (logProtocol Message) me (Holds me tx x) (op.body dialect tx index)
      (fun _ s => ∃ x', Holds me tx x' s ∧ x'.ToldOf ∧
        Tally tx (index + 1) (results ++ op.result { session := tx, index }) x')
      (fun _ s => Holds me tx x s) := by
  cases op with
  | append message key => exact deal_insert [_] _ hTally hToldOf (by simp)
  | appendPair first second => exact deal_insert [_, _] _ hTally hToldOf (by simp)
  | write w =>
      refine deal_attemptWhen (stable_holds me tx x) fun s hInv hHolds _ => ?_
      simp only [Store.write, hHolds.session]
      rw [if_neg (by simp [hTally.fine])]
      exact ⟨inv_sameRows hInv hHolds rfl, keeps_setSession hHolds, _,
        holds_setSession hHolds rfl hHolds.isOpen, fun hNever => absurd hNever (by simp),
        hTally.wrote⟩
  | miss => exact deal_fail fun _ _ hHolds => hHolds

/-- What the block has been told, by how the call has ended. -/
def resultsAfter (results told : List (Result Message)) : Except StoreError Unit →
    List (Result Message)
  | .ok () => results ++ told
  | .error _ => results

theorem deal_run (script : Script Message) (index : Nat) (results : List (Result Message)) :
    Deal (logProtocol Message) me
      (fun s => ∃ x, Holds me tx x s ∧ x.ToldOf ∧ Tally tx index results x)
      (script.run dialect tx index results)
      (fun results' s => ∃ x index', Holds me tx x s ∧ Tally tx index' results' x)
      (fun _ s => ∃ x, Holds me tx x s) := by
  induction script generalizing index results with
  | finish => exact deal_done fun _ _ ⟨x, hHolds, _, hTally⟩ => ⟨x, index, hHolds, hTally⟩
  | raise error => exact deal_fail fun _ _ ⟨x, hHolds, _⟩ => ⟨x, hHolds⟩
  | call op next ih =>
      intro s hInv hSome
      obtain ⟨x, hHolds, hToldOf, hTally⟩ := hSome
      rw [Script.run]
      -- the block learns how the call ended, and goes on from the tally it left
      let Known (outcome : Except StoreError Unit) (s : Store Message) : Prop :=
        ∃ x, Holds me tx x s ∧ x.ToldOf ∧
          Tally tx (index + 1) (resultsAfter results (op.result { session := tx, index }) outcome) x
      refine Deal.bind (A := Holds me tx x) (B := Known) (Deal.tryCatch
        (E := fun _ s => Holds me tx x s) (Deal.bind (deal_op op hTally hToldOf) fun _ => ?_)
        fun error => ?_) (fun outcome => ?_) s hInv hHolds
      · exact deal_done fun _ _ hAfter => hAfter
      · exact deal_done fun _ _ hHolds => ⟨x, hHolds, hToldOf, hTally.skip⟩
      · cases outcome with
        | ok value => exact ih (.ok ()) (index + 1) _
        | error error => exact ih (.error error) (index + 1) results

theorem stable_inv (me : Nat) : (logProtocol Message).Stable me fun s => Inv s ∧ True :=
  fun _ _ _ hRely => ⟨hRely.1, trivial⟩

theorem deal_begin {E : StoreError → Store Message → Prop} :
    Deal (logProtocol Message) me (fun _ => True) (Co.atomic (Store.begin me))
      (fun tx => Holds me tx { owner := me }) E := by
  refine deal_atomic (stable_inv me) fun s hInv _ => ?_
  have hOld : ∀ (tx : Nat) (x : Session Message), s.sessions[tx]? = some x →
      (s.sessions ++ [{ owner := me }])[tx]? = some x := by
    intro tx x hAt
    obtain ⟨hBound, -⟩ := List.getElem?_eq_some_iff.mp hAt
    rw [List.getElem?_append_left hBound]
    exact hAt
  -- The session that is new has no rows.
  have hCases : ∀ (tx : Nat) (x : Session Message),
      (s.sessions ++ [{ owner := me }])[tx]? = some x → x.rows = [] ∨ s.sessions[tx]? = some x := by
    intro tx x hAt
    rcases Sequence.getElem?_concat_cases hAt with hOld | ⟨-, rfl⟩
    · exact Or.inr hOld
    · exact Or.inl rfl
  refine ⟨⟨hInv.numbered, ?_, ?_, hInv.entries, hInv.calls, ?_, hInv.written⟩, ?_, ?_⟩
  · intro tx x hAt
    rcases hCases tx x hAt with hNone | hAt
    · rw [hNone]
      rfl
    · exact hInv.pending tx x hAt
  · intro first second y z hFirst hSecond hY hZ
    rcases hCases first y hFirst with hNone | hFirst
    · exact absurd hNone hY
    · rcases hCases second z hSecond with hNone | hSecond
      · exact absurd hNone hZ
      · exact hInv.single first second y z hFirst hSecond hY hZ
  · intro call hCall
    obtain ⟨x, hAt, hEnded⟩ := hInv.ended call hCall
    exact ⟨x, hOld call.session x hAt, hEnded⟩
  · exact ⟨fun tx x hAt _ => hOld tx x hAt, Nat.le_refl _, fun _ _ _ _ _ => rfl⟩
  · exact ⟨by simp [Store.begin], rfl, rfl⟩

theorem deal_close {α : Type} {error : StoreError} {B : α → Store Message → Prop}
    {Q : StoreError → Prop} (hQ : Q error) :
    Deal (logProtocol Message) me (Holds me tx x)
      ((Co.modify (Store.close tx)).bind fun _ => (Co.throw error : Work Message α)) B
      (fun error _ => Q error) := by
  refine Deal.bind (deal_modify (B := fun _ => True) (stable_holds me tx x) fun s hInv hHolds => ?_)
    fun _ => deal_fail fun _ _ _ => hQ
  exact ⟨inv_noRows hInv hHolds rfl, keeps_setSession hHolds, trivial⟩

/-- A session from its beginning to its end, with any body that keeps the tally. -/
theorem deal_session {α : Type} {body : Nat → Work Message α}
    {results : Nat → α → List (Result Message)} {Q : StoreError → Prop}
    (hBody : ∀ tx, Deal (logProtocol Message) me (Holds me tx { owner := me }) (body tx)
      (fun value s => ∃ x index, Holds me tx x s ∧ Tally tx index (results tx value) x)
      (fun error s => Q error ∧ ∃ x, Holds me tx x s)) :
    Deal (logProtocol Message) me (fun _ => True)
      ((Co.atomic (Store.begin me)).bind fun tx =>
        ((body tx).tryCatch fun error =>
          (Co.modify (Store.close tx)).bind fun _ => Co.throw error).bind fun value =>
            Co.modify (Store.commit tx (results tx value)))
      (fun _ _ => True) (fun error _ => Q error) := by
  refine deal_begin.bind fun tx => Deal.bind ((hBody tx).tryCatch ?_) fun value s hInv hSome => ?_
  · intro error s hInv hSome
    obtain ⟨hQ, x, hHolds⟩ := hSome
    exact deal_close hQ s hInv hHolds
  · obtain ⟨x, index, hHolds, hTally⟩ := hSome
    refine deal_modify (B := fun _ => True) (stable_holds me tx x) (fun s hInv hHolds => ?_) s hInv
      hHolds
    have hDone : Committed tx (results tx value) x s _ := committed hHolds hTally.fine
    exact ⟨hDone.inv hInv hHolds hTally, hDone.keeps hInv hHolds, trivial⟩

/-- A call on its own. -/
theorem deal_alone (statements : List (Insert Message)) (after : Work Message Unit)
    (hKeyless : ∀ statement ∈ statements.tail, statement.clientMessageId = none) :
    Deal (logProtocol Message) me (fun _ => True)
      (retry (insertAlone dialect me statements) after MESSAGE_SEQ_RETRY_ATTEMPTS)
      (fun _ _ => True) (fun _ _ => True) := by
  have hAttempt : Deal (logProtocol Message) me (fun _ => True)
      (insertAlone dialect me statements) (fun _ _ => True) (fun error _ => error = .integrity) := by
    refine deal_session fun tx => ?_
    refine (deal_executeAll statements rfl hKeyless).mono (fun _ _ hA => hA)
      (fun _ s _ hInserted => ?_) fun _ s _ hE => ⟨hE.1, _, hE.2⟩
    obtain ⟨rows, hEntries, hHolds⟩ := hInserted
    exact ⟨_, 1, hHolds, (Tally.nil tx me).appended (by rw [hEntries, List.map_map]; rfl)⟩
  refine (deal_retry (hAttempt.mono (fun _ _ hA => hA) (fun _ _ _ hB => hB)
    fun _ _ _ hE => ⟨hE, trivial⟩) 4).mono (fun _ _ hA => hA) (fun _ _ _ hB => hB) fun _ _ _ _ => trivial

theorem deal_unitOfWork (script : Script Message) :
    Deal (logProtocol Message) me (fun _ => True) (unitOfWork dialect me script)
      (fun _ _ => True) (fun _ _ => True) := by
  refine deal_session (Q := fun _ => True) fun tx => ?_
  exact (deal_run script 0 []).mono
    (fun _ _ hHolds => ⟨_, hHolds, fun _ => ⟨rfl, rfl⟩, Tally.nil tx me⟩) (fun _ _ _ hB => hB)
    fun _ _ _ hE => ⟨trivial, hE⟩

end Units

/-! ## Every run -/

theorem writers_follow (Message : Type) (dialect : Dialect) :
    System.Follows (writers Message dialect) (logProtocol Message) where
  body_safe call me s hInv := by
    have hDeal : Deal (logProtocol Message) me (fun _ => True) (callBody dialect me call)
        (fun _ _ => True) (fun _ _ => True) := by
      cases call with
      | append message key => exact deal_alone [_] _ (by simp)
      | appendPair first second => exact deal_alone [_, _] _ (by simp)
      | unitOfWork script => exact deal_unitOfWork script
    exact (hDeal s hInv trivial).mono fun _ _ _ => trivial
  event_env event := nomatch event
  crash_inv _ _ _ hCrash := nomatch hCrash

theorem inv_initial : Inv ({} : Store Message) := by
  refine ⟨rfl, ?_, ?_, rfl, List.nodup_nil, ?_, rfl⟩
  · intro tx x hAt
    simp at hAt
  · intro first second y z hFirst
    simp at hFirst
  · intro call hCall
    simp at hCall

/-- The rows are numbered from one on, each belongs to a call that returned and was
committed, each such call has its messages in the log once and in consecutive rows, and
all other writes of the committed calls are there. -/
structure LogIntegrity (s : Store Message) : Prop where
  numbered : s.rows.map (·.seq) = List.range' 1 s.rows.length
  distinct : (s.returned.filterMap Result.call).Nodup
  contributed : ∀ call messages, .appended call messages ∈ s.returned →
    ∃ seq, (s.rows.filter fun row => row.call = call).map (fun row => (row.seq, row.message)) =
      (List.range' seq messages.length).zip messages
  owned : ∀ row ∈ s.rows, ∃ messages, .appended row.call messages ∈ s.returned
  written : s.written = s.returned.flatMap Result.writes

theorem mem_calls_of_mem_entries {results : List (Result Message)} {entry : CallId × Message}
    (hMem : entry ∈ results.flatMap Result.entries) :
    ∃ messages, .appended entry.1 messages ∈ results := by
  obtain ⟨result, hResult, hEntry⟩ := List.mem_flatMap.mp hMem
  cases result with
  | appended call messages =>
      obtain ⟨message, -, rfl⟩ := List.mem_map.mp hEntry
      exact ⟨messages, hResult⟩
  | wrote w => simp [Result.entries] at hEntry

/-- The rows of the other calls are elsewhere in the log. -/
theorem filter_entries_eq_nil {results : List (Result Message)} {rows : List (Row Message)}
    {call : CallId} (hRows : rows.map Row.entry = results.flatMap Result.entries)
    (hOther : call ∉ results.filterMap Result.call) :
    rows.filter (fun row => row.call = call) = [] := by
  rw [List.filter_eq_nil_iff]
  intro row hRow hCall
  have hMem : row.entry ∈ results.flatMap Result.entries := hRows ▸ List.mem_map_of_mem hRow
  obtain ⟨messages, hResult⟩ := mem_calls_of_mem_entries hMem
  refine hOther (List.mem_filterMap.mpr ⟨_, hResult, ?_⟩)
  simpa [Result.call, Row.entry] using hCall

theorem Inv.contributed {s : Store Message} (hInv : Inv s) {call : CallId}
    {messages : List Message} (hMem : .appended call messages ∈ s.returned) :
    ∃ seq, (s.rows.filter fun row => row.call = call).map (fun row => (row.seq, row.message)) =
      (List.range' seq messages.length).zip messages := by
  obtain ⟨before, after, hSplit⟩ := List.append_of_mem hMem
  have hEntries := hInv.entries
  have hCalls := hInv.calls
  rw [hSplit, List.flatMap_append, List.flatMap_cons, List.map_eq_append_iff] at hEntries
  obtain ⟨first, rest, hRows, hFirst, hRest⟩ := hEntries
  obtain ⟨own, last, rfl, hOwn, hLast⟩ := List.map_eq_append_iff.mp hRest
  rw [hSplit, List.filterMap_append, List.filterMap_cons_some (f := Result.call) rfl, List.nodup_append] at hCalls
  obtain ⟨-, hAfter, hApart⟩ := hCalls
  have hNumbered := hInv.numbered
  rw [hRows] at hNumbered
  have hSeqs := hNumbered.of_append.2.of_append.1
  refine ⟨1 + first.length, ?_⟩
  have hAll : own.filter (fun row => row.call = call) = own := by
    rw [List.filter_eq_self]
    intro row hRow
    have hEntry : row.entry ∈ (Result.appended call messages).entries :=
      hOwn ▸ List.mem_map_of_mem hRow
    obtain ⟨message, -, hEq⟩ := List.mem_map.mp hEntry
    exact decide_eq_true (congrArg Prod.fst hEq).symm
  have hMessages : own.map (·.message) = messages := by
    have hSnd := congrArg (List.map Prod.snd) hOwn
    simpa [Result.entries, Row.entry, Function.comp_def] using hSnd
  rw [hRows, List.filter_append, List.filter_append, hAll,
    filter_entries_eq_nil hFirst fun hBefore => hApart call hBefore call List.mem_cons_self rfl,
    filter_entries_eq_nil hLast (List.nodup_cons.mp hAfter).1, List.nil_append, List.append_nil,
    ← hMessages, List.length_map, ← hSeqs, List.zip_map']

theorem Inv.integrity {s : Store Message} (hInv : Inv s) : LogIntegrity s where
  numbered := hInv.numbered
  distinct := hInv.calls
  contributed _ _ hMem := hInv.contributed hMem
  owned _ hRow := mem_calls_of_mem_entries (hInv.entries ▸ List.mem_map_of_mem hRow)
  written := hInv.written

/-- A unit of work that has written something, appends an answer and ignores a miss. -/
def answerUnit : Script String :=
  .call (.write "task") fun _ => .call (.append "answer" none) fun _ => .call .miss fun _ => .finish

/-- The unit has evaluated its seq when another call takes it: back to the savepoint, and
again.  The last call comes with a key that is taken, and raises in the end. -/
def lostRace : List (System.Move (writers String .postgresql)) :=
  List.flatten [[.start (.unitOfWork answerUnit), .start (.append "hello" (some "k")),
      .start (.appendPair "partial" "note"), .start (.append "again" (some "k"))],
    List.replicate 5 (.resume 0), List.replicate 4 (.resume 1), List.replicate 8 (.resume 0),
    List.replicate 6 (.resume 2), List.replicate 20 (.resume 3)]

end Messages
end OctoForge
