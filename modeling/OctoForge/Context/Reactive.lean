import OctoForge.Context.Compactor
import OctoForge.Coop.Alone

/-!
# Reactive compaction

`compact_now` is called by a run whose prompt was too long.  It awaits the compaction that is in
flight, or one that it starts, and says whether the boundary has moved.  Here it is seen from its
caller: every await can be the place where the caller is told that it was cancelled itself, and
a read of the boundary can fail.

`boundaries` and `awaited` are read by nothing: the boundaries it has read, and how the
compactions that it has awaited ended.  Apart from them, anything may happen between two steps.
-/

namespace OctoForge
namespace Context
namespace Reactive

open Coop
open Co (Contract)

/-- How a compaction that was awaited has ended. -/
structure Ended where
  /-- It had been in flight when `compact_now` was called. -/
  inFlight : Bool
  error : Option CompactError
  deriving DecidableEq, Repr

structure Watch where
  archive : Archive
  /-- The caller has been cancelled, and has not been told yet. -/
  callerCancelled : Bool := false
  boundaries : List Nat := []
  awaited : List Ended := []

inductive Raised where
  /-- The caller's own cancellation. -/
  | ownCancellation
  | boundaryRead
  /-- What an awaited compaction has raised. -/
  | awaited (error : CompactError)
  deriving DecidableEq, Repr

abbrev Work (α : Type) := Co Watch Raised α

/-- `await self._store.max_seq_to(dialog.id)`, and what is done until the next await. -/
def readBoundary {α : Type} (f : Nat → Archive → α × Archive) : Work α :=
  Co.attempt fun w =>
    if w.callerCancelled then (.error .ownCancellation, { w with callerCancelled := false })
    else if w.archive.storeDown then (.error .boundaryRead, w)
    else
      let (value, archive) := f w.archive.boundary w.archive
      (.ok value, { w with archive, boundaries := w.boundaries ++ [w.archive.boundary] })

/-- What awaiting a task comes to when it has ended. -/
def ended : Option CompactError → Except Raised Unit
  | none => .ok ()
  | some error => .error (.awaited error)

/-- `await task`.  To cancel the caller is to cancel the task that it awaits. -/
def awaitTask (inFlight : Bool) (k : Nat) : Work Unit :=
  Co.attemptWhen (fun w => w.callerCancelled || (w.archive.task k).done) fun w =>
    if w.callerCancelled then
      (.error .ownCancellation,
        { w with
          callerCancelled := false
          archive := w.archive.setTask k fun task => { task with cancelled := true } })
    else
      (ended (w.archive.task k).error,
        { w with awaited := w.awaited ++ [⟨inFlight, (w.archive.task k).error⟩] })

/-- `with suppress(asyncio.CancelledError): await running`. -/
def awaitQuietly (k : Nat) : Work Unit :=
  Co.tryCatch (awaitTask true k) fun raised =>
    match raised with
    | .ownCancellation | .awaited .cancelled => pure ()
    | raised => Co.throw raised

/-- The task that `compact_now` awaits next, and whether it was in flight. -/
def firstTask (node before : Nat) (s : Archive) : (Nat × Bool × Nat) × Archive :=
  match s.live node with
  | some k => ((before, true, k), s)
  | none => ((before, false, (s.startCompact node).1), (s.startCompact node).2)

/-- The task of the second half, when the boundary has not moved in the first. -/
def secondTask (node before now : Nat) (s : Archive) : Option Nat × Archive :=
  if before < now then (none, s) else (some (s.startCompact node).1, (s.startCompact node).2)

/-- The second half of `compact_now`; `except Exception` lets a cancellation pass. -/
def compactOwn (before k : Nat) : Work Bool := do
  let compacted ← Co.tryCatch (do awaitTask false k; pure true : Work Bool) fun raised =>
    match raised with
    | .awaited .failed => pure false
    | raised => Co.throw raised
  match compacted with
  | false => pure false
  | true => readBoundary fun now s => (decide (before < now), s)

/-- `compact_now`. -/
def compactNow (node : Nat) : Work Bool := do
  let (before, inFlight, k) ← readBoundary (firstTask node)
  match inFlight with
  | false => compactOwn before k
  | true => do
      awaitQuietly k
      match ← readBoundary (secondTask node before) with
      | none => pure true
      | some k => compactOwn before k

/-- Anything may happen between two steps, but to the record. -/
def Around (w w' : Watch) : Prop := w'.boundaries = w.boundaries ∧ w'.awaited = w.awaited

/-- The compaction lets its error through to the caller: one in flight has failed, or the one
that the second half awaits has been cancelled. -/
def Ended.raises (ended : Ended) : Bool :=
  if ended.inFlight then ended.error == some .failed else ended.error == some .cancelled

/-! ## What is raised, and what is returned -/

/-- No compaction that was awaited lets its error through. -/
def Quiet (w : Watch) : Prop := ∀ ended ∈ w.awaited, ended.raises = false

/-- The first boundary that was read. -/
def Began (before : Nat) (w : Watch) : Prop := w.boundaries.head? = some before

/-- An error is that of a compaction which lets it through, and no other. -/
def Excused : Raised → Watch → Prop
  | .awaited _, w => ¬Quiet w
  | _, w => Quiet w

variable {α : Type} {A : Watch → Prop} {node before k : Nat}

theorem quiet_append {awaited : List Ended} {ended : Ended} (w : Watch)
    (hQuiet : Quiet w) (hAwaited : w.awaited ++ [ended] = awaited) :
    (∀ ended ∈ awaited, ended.raises = false) ↔ ended.raises = false := by
  subst hAwaited
  constructor
  · exact fun hAll => hAll ended (by simp)
  · intro hLast other hMem
    rcases List.mem_append.mp hMem with hBefore | hHere
    · exact hQuiet other hBefore
    · rwa [List.mem_singleton.mp hHere]

theorem undisturbed_quiet : Undisturbed (fun _ => True) Around Quiet := by
  intro w w' _ _ hAround hQuiet
  rw [Quiet, hAround.2]
  exact hQuiet

theorem undisturbed_began (before : Nat) :
    Undisturbed (fun _ => True) Around fun w => Quiet w ∧ Began before w := by
  intro w w' hInv hInv' hAround hBoth
  refine ⟨undisturbed_quiet w w' hInv hInv' hAround hBoth.1, ?_⟩
  rw [Began, hAround.1]
  exact hBoth.2

/-- A read that returns leaves the record of the awaited ones alone. -/
theorem contract_readBoundary {f : Nat → Archive → α × Archive} {B : α → Watch → Prop}
    (hKept : Undisturbed (fun _ => True) Around A) (hQuiet : ∀ w, A w → Quiet w)
    (hRead : ∀ w, A w → B (f w.archive.boundary w.archive).1
      { w with
        archive := (f w.archive.boundary w.archive).2
        boundaries := w.boundaries ++ [w.archive.boundary] }) :
    Contract (fun _ => True) Around A (readBoundary f) B Excused := by
  refine Co.contract_attempt hKept fun w _ hA => ?_
  split
  · exact ⟨trivial, hQuiet w hA⟩
  · split
    · exact ⟨trivial, hQuiet w hA⟩
    · exact ⟨trivial, hRead w hA⟩

/-- What an await leaves behind. -/
theorem contract_awaitTask (inFlight : Bool) (before k : Nat) :
    Contract (fun _ => True) Around (fun w => Quiet w ∧ Began before w) (awaitTask inFlight k)
      (fun _ w => Quiet w ∧ Began before w)
      fun raised w => Began before w ∧
        match raised with
        | .awaited error => Quiet w ↔ (Ended.mk inFlight (some error)).raises = false
        | _ => Quiet w := by
  refine Co.contract_attemptWhen (undisturbed_began before) fun w _ hA _ => ?_
  split
  · exact ⟨trivial, hA.2, hA.1⟩
  · refine ⟨trivial, ?_⟩
    cases hError : (w.archive.task k).error with
    | none =>
        refine ⟨(quiet_append w hA.1 rfl).mpr ?_, hA.2⟩
        cases inFlight <;> rfl
    | some error => exact ⟨hA.2, quiet_append w hA.1 rfl⟩

theorem contract_compactOwn (before k : Nat) :
    Contract (fun _ => True) Around (fun w => Quiet w ∧ Began before w) (compactOwn before k)
      (fun advanced w => Quiet w ∧ (advanced = true → Began before w ∧ before < w.archive.boundary))
      Excused := by
  refine Contract.bind (B := fun _ w => Quiet w ∧ Began before w) ?_ fun compacted => ?_
  · refine Contract.tryCatch ((contract_awaitTask false before k).bind fun _ =>
      Co.contract_done fun _ _ hA => hA) fun raised => ?_
    cases raised with
    | ownCancellation => exact Co.contract_fail fun _ _ hE => hE.2
    | boundaryRead => exact Co.contract_fail fun _ _ hE => hE.2
    | awaited error =>
        cases error with
        | failed => exact Co.contract_done fun _ _ hE => ⟨hE.2.mpr rfl, hE.1⟩
        | cancelled => exact Co.contract_fail fun _ _ hE hQuiet => absurd (hE.2.mp hQuiet) (by decide)
  · cases compacted with
    | false => exact Co.contract_done fun _ _ hA => ⟨hA.1, nofun⟩
    | true =>
        refine contract_readBoundary (undisturbed_began before) (fun w hA => hA.1) fun w hA => ?_
        refine ⟨hA.1, fun hLater => ⟨?_, by simpa using hLater⟩⟩
        rw [Began, List.head?_append_of_ne_nil _ (by rintro hNil; simp [Began, hNil] at hA)]
        exact hA.2

theorem contract_compactNow (node : Nat) :
    Contract (fun _ => True) Around (fun w => w.boundaries = [] ∧ w.awaited = [])
      (compactNow node)
      (fun advanced w => Quiet w ∧
        (advanced = true → ∃ before, Began before w ∧ before < w.archive.boundary))
      Excused := by
  have hKept : Undisturbed (fun _ => True) Around fun w => w.boundaries = [] ∧ w.awaited = [] :=
    fun w w' _ _ hAround hA => ⟨hAround.1.trans hA.1, hAround.2.trans hA.2⟩
  have hNothing : ∀ w : Watch, w.awaited = [] → Quiet w := by
    intro w hNil ended hMem
    rw [hNil] at hMem
    cases hMem
  have hOwn : ∀ before k, Contract (fun _ => True) Around (fun w => Quiet w ∧ Began before w)
      (compactOwn before k) (fun advanced w => Quiet w ∧
        (advanced = true → ∃ before, Began before w ∧ before < w.archive.boundary)) Excused :=
    fun before k => (contract_compactOwn before k).post fun advanced w _ hB =>
      ⟨hB.1, fun hTrue => ⟨before, hB.2 hTrue⟩⟩
  refine Contract.bind (B := fun first w => Quiet w ∧ Began first.1 w)
    (contract_readBoundary hKept (fun w hA => hNothing w hA.2) fun w hA => ?_) fun first => ?_
  · refine ⟨hNothing _ hA.2, ?_⟩
    have hFirst : (firstTask node w.archive.boundary w.archive).1.1 = w.archive.boundary := by
      unfold firstTask
      split <;> rfl
    simp [Began, hA.1, hFirst]
  · obtain ⟨before, inFlight, k⟩ := first
    cases inFlight with
    | false => exact hOwn before k
    | true =>
        refine Contract.bind (B := fun _ w => Quiet w ∧ Began before w) ?_ fun _ => ?_
        · refine Contract.tryCatch (contract_awaitTask true before k) fun raised => ?_
          -- A cancellation is passed over, an error is raised.
          cases raised with
          | ownCancellation => exact Co.contract_done fun _ _ hE => ⟨hE.2, hE.1⟩
          | boundaryRead => exact Co.contract_fail fun _ _ hE => hE.2
          | awaited error =>
              cases error with
              | cancelled => exact Co.contract_done fun _ _ hE => ⟨hE.2.mpr rfl, hE.1⟩
              | failed => exact Co.contract_fail fun _ _ hE hQuiet => absurd (hE.2.mp hQuiet) (by decide)
        · -- either the boundary has moved, or there is a second half
          refine Contract.bind (B := fun next w => Quiet w ∧ Began before w ∧
              (next = none → before < w.archive.boundary))
            (contract_readBoundary (undisturbed_began before) (fun w hA => hA.1) fun w hA => ?_)
            fun next => ?_
          · refine ⟨hA.1, ?_, fun hNone => ?_⟩
            · rw [Began, List.head?_append_of_ne_nil _ (by rintro hNil; simp [Began, hNil] at hA)]
              exact hA.2
            · unfold secondTask at hNone ⊢
              split at hNone
              · rename_i hLater
                simp [hLater]
              · cases hNone
          · cases next with
            | none => exact Co.contract_done fun w _ hA => ⟨hA.1, fun _ => ⟨before, hA.2.1, hA.2.2 rfl⟩⟩
            | some k => exact (hOwn before k).pre fun w _ hA => ⟨hA.1, hA.2.1⟩

/-- Whatever becomes of the compactions of a dialog while `compact_now` is under way: it raises
its caller's cancellation and the errors of its own reads, and returns `True` where the
boundary is past the first one it read.  That is so exactly if no compaction that was in flight
has failed while it was awaited, and none that the second half awaited has been cancelled. -/
theorem degrades_softly_iff {node : Nat} {w t : Watch} {r : Except Raised Bool}
    (hStart : w.boundaries = [] ∧ w.awaited = []) (hRun : Co.Run Around (compactNow node) w r t) :
    ((∀ error, r ≠ .error (.awaited error)) ∧
      (r = .ok true → ∃ before, t.boundaries.head? = some before ∧ before < t.archive.boundary)) ↔
      ∀ ended ∈ t.awaited, ended.raises = false := by
  have hLeft := ((contract_compactNow node).run (fun _ _ _ _ => trivial) trivial hStart hRun).2
  constructor
  · rintro ⟨hRaises, -⟩
    cases r with
    | ok advanced => exact hLeft.1
    | error raised =>
        cases raised with
        | ownCancellation => exact hLeft
        | boundaryRead => exact hLeft
        | awaited error => exact absurd rfl (hRaises error)
  · intro hQuiet
    refine ⟨?_, ?_⟩
    · rintro error rfl
      exact hLeft hQuiet
    · rintro rfl
      exact hLeft.2 rfl

/-- A process with a compaction in flight. -/
def compacting : Watch where
  archive := { tasks := [{ node := 0, begun := true }], running := fun _ => some 0 }

/-- After the first read, the compaction has ended, and the boundary may have moved. -/
def ends (error : Option CompactError) (summaries : List DialogueSummary) : Watch where
  archive :=
    { tasks := [{ node := 0, begun := true, done := true, error }],
      running := fun _ => none, summaries }
  boundaries := [0]

theorem degrades_softly_advanced :
    ∃ t, Co.Run Around (compactNow 0) compacting (.ok true) t ∧
      (((∀ error, (.ok true : Except Raised Bool) ≠ .error (.awaited error)) ∧
        ((.ok true : Except Raised Bool) = .ok true →
          ∃ before, t.boundaries.head? = some before ∧ before < t.archive.boundary)) ↔
        ∀ ended ∈ t.awaited, ended.raises = false) := by
  have hRun : ∃ t, Co.Run Around (compactNow 0) compacting (.ok true) t :=
    ⟨_, .await .refl rfl (.await (.single (b := ends none [{ seqFrom := 1, seqTo := 5 }])
      ⟨rfl, rfl⟩) rfl (.await .refl rfl (.done true _)))⟩
  obtain ⟨t, hRun⟩ := hRun
  exact ⟨t, hRun, degrades_softly_iff ⟨rfl, rfl⟩ hRun⟩

/-- The LLM fails the compaction in flight, and with it the run that awaits it. -/
theorem in_flight_failure_raised :
    ∃ t, Co.Run Around (compactNow 0) compacting (.error (.awaited .failed)) t :=
  ⟨_, .await .refl rfl (.await (.single (b := ends (some .failed) []) ⟨rfl, rfl⟩) rfl
    (.fail _ _))⟩

end Reactive
end Context
end OctoForge
