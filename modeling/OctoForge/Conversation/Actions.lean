import Mathlib.Data.List.Count
import OctoForge.Conversation.Log
import OctoForge.Sequence.History

/-!
# What a step of the runner can do

`Act` lists the steps that any coroutine of the runner can take, each with what
its author has made sure of.  A run is created only under the spawn lock.  The
three ways to create one differ in what was checked before: `_start_answer`
found no run of the exchange, a background run has no exchange, and
`restart_task` does not look.  A collection is created, and a finished run
settled, only by the command the actor is handling.

Every statement about all runs of the runner is derived from this list, by one
case per constructor.
-/

namespace OctoForge
namespace Conversation

open Coop
open Dialog (ExchangeId ChatMessage)
open Sequence (Along)

namespace World

variable (s : World) (x : ExchangeId)

/-- The exchanges that have a run, once for every run. -/
def owners : List ExchangeId := s.processes.filterMap (·.exchangeId)

/-- The runs that were not told to stop. -/
def going : Nat := s.processes.countP fun p => !p.cancelled

theorem mem_owners : x ∈ s.owners ↔ ∃ p ∈ s.processes, p.exchangeId = some x := by
  simp [owners]

theorem noRun_iff : s.NoRun x ↔ x ∉ s.owners := by
  rw [mem_owners]
  constructor
  · rintro hNone ⟨p, hMem, hOwn⟩
    exact hNone p hMem hOwn
  · intro hNone p hMem hOwn
    exact hNone ⟨p, hMem, hOwn⟩

end World

/-! ## Stops -/

/-- The stop found the exchange OPEN. -/
def Note.FoundOpen (x : ExchangeId) (stop : Nat) : Note → Prop
  | .stopped number found => number = stop ∧ x ∈ found
  | _ => False

/-- A message submitted after the stop went to the exchange. -/
def Note.SentAfter (x : ExchangeId) (stop : Nat) : Note → Prop
  | .attached y stops => y = x ∧ stop < stops
  | _ => False

/-- The stop came between a message and the creation of its exchange. -/
def Note.CreatedAfter (x : ExchangeId) (stop : Nat) : Note → Prop
  | .created y epoch stops => y = x ∧ epoch ≤ stop ∧ stop < stops
  | _ => False

/-- The stop found the exchange OPEN, or a message submitted after it went to the
exchange. -/
def Covered (notes : List Note) (x : ExchangeId) (stop : Nat) : Prop :=
  (∃ n ∈ notes, n.FoundOpen x stop) ∨ ∃ n ∈ notes, n.SentAfter x stop

theorem covered_of_stopped {notes : List Note} {x : ExchangeId} {stop : Nat}
    {opened : List ExchangeId} (hNote : .stopped stop opened ∈ notes) (hMem : x ∈ opened) :
    Covered notes x stop :=
  Or.inl ⟨_, hNote, rfl, hMem⟩

theorem covered_of_attached {notes : List Note} {x : ExchangeId} {stop stops : Nat}
    (hNote : .attached x stops ∈ notes) (hLater : stop < stops) : Covered notes x stop :=
  Or.inr ⟨_, hNote, rfl, hLater⟩

theorem Covered.mono {notes notes' : List Note} {x : ExchangeId} {stop : Nat}
    (hSubset : ∀ n ∈ notes, n ∈ notes') (hCovered : Covered notes x stop) :
    Covered notes' x stop := by
  rcases hCovered with ⟨n, hMem, hNote⟩ | ⟨n, hMem, hNote⟩
  · exact Or.inl ⟨n, hSubset n hMem, hNote⟩
  · exact Or.inr ⟨n, hSubset n hMem, hNote⟩

def Belated (notes : List Note) (x : ExchangeId) (stop : Nat) : Prop :=
  ∃ n ∈ notes, n.CreatedAfter x stop

theorem Belated.mono {notes notes' : List Note} {x : ExchangeId} {stop : Nat}
    (hSubset : ∀ n ∈ notes, n ∈ notes') (hBelated : Belated notes x stop) :
    Belated notes' x stop := by
  obtain ⟨n, hMem, hNote⟩ := hBelated
  exact ⟨n, hSubset n hMem, hNote⟩

/-- OPEN is written only where every stop before is covered.  No stop falls into
the start of a run that is not told to stop, or between the message and the
creation of its exchange, unless it is covered.  Tasks are restarted before the
first stop. -/
def Note.Fair (before : List Note) : Note → Prop
  | .opened x stops => ∀ stop < stops, Covered before x stop
  | .started x since stops cancelled =>
      cancelled = false → ∀ stop < stops, since ≤ stop ∨ Belated before x stop →
        Covered before x stop
  | .restarted _ stops _ => stops = 0
  | _ => True

/-- Every stop so far is covered, or came between the message and the creation of
the exchange. -/
def Passed (notes : List Note) (x : ExchangeId) (stops : Nat) : Prop :=
  ∀ stop < stops, Covered notes x stop ∨ Belated notes x stop

theorem Passed.mono {notes notes' : List Note} {x : ExchangeId} {stops : Nat}
    (hSubset : ∀ n ∈ notes, n ∈ notes') (hPassed : Passed notes x stops) :
    Passed notes' x stops :=
  fun stop hStop => (hPassed stop hStop).imp (Covered.mono hSubset) (Belated.mono hSubset)

/-- An exchange that is stored OPEN has passed the stops, as long as the notes are
fair. -/
def OpenPassed (s : World) : Prop :=
  Along Note.Fair s.notes → ∀ x, s.status x = some .opened → Passed s.notes x s.cancelEpoch

/-- What is noted when an exchange becomes OPEN. -/
def OpenNoted (notes : List Note) (x : ExchangeId) (stops : Nat) : Prop :=
  .opened x stops ∈ notes ∨ ∃ epoch, .attached x epoch ∈ notes ∧ .created x epoch stops ∈ notes

theorem OpenNoted.mono {notes notes' : List Note} {x : ExchangeId} {stops : Nat}
    (hSubset : ∀ n ∈ notes, n ∈ notes') (hNoted : OpenNoted notes x stops) :
    OpenNoted notes' x stops := by
  rcases hNoted with hOpened | ⟨epoch, hAttached, hCreated⟩
  · exact Or.inl (hSubset _ hOpened)
  · exact Or.inr ⟨epoch, hSubset _ hAttached, hSubset _ hCreated⟩

/-- No run is created. -/
def Note.Plain : Note → Prop
  | .started .. | .restarted .. => False
  | _ => True

/-! ## Kinds of steps -/

/-- Statuses may be written, and COLLECTING is not among them.  Runs and locks
stay as they are. -/
structure Writes (s s' : World) : Prop where
  notes : ∃ more, s'.notes = s.notes ++ more ∧ (∀ n ∈ more, n.Plain) ∧
    ∀ x, s'.status x = some .opened →
      s.status x = some .opened ∨ OpenNoted more x s.cancelEpoch
  collecting : ∀ x, s'.status x = some .collecting → s.status x = some .collecting
  cancelEpoch : s'.cancelEpoch = s.cancelEpoch
  gathered : s'.gathered = s.gathered
  processes : s'.processes = s.processes
  actor : s'.actor = s.actor
  spawnLock : s'.spawnLock = s.spawnLock

/-- Runs are told to stop, ask or leave, and nothing else changes. -/
structure Retires (s s' : World) : Prop where
  owners : s'.owners.Sublist s.owners
  going : s'.going ≤ s.going
  status : s'.status = s.status
  notes : s'.notes = s.notes
  cancelEpoch : s'.cancelEpoch = s.cancelEpoch
  gathered : s'.gathered = s.gathered
  actor : s'.actor = s.actor
  spawnLock : s'.spawnLock = s.spawnLock

/-- There is room for one more run, if the runs that were not counted had been
told to stop. -/
def HasRoom (cfg : RunnerConfig) (s : World) : Prop :=
  (∀ n ∈ s.notes, n ≠ .discounted false) → s.going + 1 ≤ cfg.maxProcesses

/-- Why the run may start: the message that asks for it went to the exchange, or
the exchange was read as OPEN. -/
def Justified (seen : Seen) (cancelEpoch : Option Nat) (s : World) : Prop :=
  match cancelEpoch with
  | some epoch => .attached seen.exchange.id epoch ∈ s.notes
  | none => Along Note.Fair s.notes → Passed s.notes seen.exchange.id seen.look.stops

/-- What coroutine `me` can do in one step. -/
inductive Act (cfg : RunnerConfig) (me : Nat) (s : World) : World → Prop
  | write {s' : World} (hStep : Step s s') (hWrites : Writes s s') : Act cfg me s s'
  | retire {s' : World} (hStep : Step s s') (hRetires : Retires s s') : Act cfg me s s'
  | lock (hFree : s.spawnLock = none) : Act cfg me s { s with spawnLock := some me }
  | unlock (hHeld : s.spawnLock = some me) : Act cfg me s { s with spawnLock := none }
  | takeTurn (hFree : s.actor = none) : Act cfg me s { s with actor := some me }
  | endTurn (hTurn : s.actor = some me) : Act cfg me s { s with actor := none }
  | collect (title : String) (hTurn : s.actor = some me)
      (hNone : ∀ x, s.status x ≠ some .collecting) : Act cfg me s (s.create title .collecting).2
  | settle (x : ExchangeId) (task : TaskId) (status : ExchangeStatus) (keepIfAwaiting : Bool)
      (hTurn : s.actor = some me) : Act cfg me s (s.settleOwned x task status keepIfAwaiting).2
  | start (seen : Seen) (task : Task) (cancelEpoch : Option Nat) (hHeld : s.spawnLock = some me)
      (hOwn : task.exchangeId = some seen.exchange.id) (hTask : s.HasTask task)
      (hAlone : s.NoRun seen.exchange.id) (hRoom : HasRoom cfg s) (hJustified : Justified seen cancelEpoch s) :
      Act cfg me s (startProcess seen task cancelEpoch s)
  | restart (task : Task) (x : ExchangeId) (hHeld : s.spawnLock = some me)
      (hOwn : task.exchangeId = some x) (hTask : s.HasTask task) (hRoom : HasRoom cfg s) :
      Act cfg me s (restartProcess task x s)
  | background (task : Task) (hHeld : s.spawnLock = some me) (hOwn : task.exchangeId = none)
      (hTask : s.HasTask task) (hRoom : HasRoom cfg s) : Act cfg me s (s.createProcess task false)
  | stop : Act cfg me s s.handleCancel

/-! ## The steps that write -/

theorem Note.Mere.plain {n : Note} (hMere : n.Mere) : n.Plain := by
  cases n with
  | attached => trivial
  | discounted => trivial
  | _ => exact absurd hMere id

theorem Calm.writes {s s' : World} (hCalm : Calm s s') : Writes s s' := by
  obtain ⟨more, hNotes, hMere⟩ := hCalm.notes
  refine { notes := ⟨more, hNotes, fun n hMem => (hMere n hMem).plain,
             fun x hOpened => Or.inl (hCalm.status ▸ hOpened)⟩
           collecting := fun x hCollecting => hCalm.status ▸ hCollecting
           cancelEpoch := hCalm.cancelEpoch, gathered := hCalm.gathered
           processes := hCalm.processes, actor := hCalm.actor, spawnLock := hCalm.spawnLock }

/-- Steps that leave the statuses and the notes alone. -/
theorem Writes.still {s s' : World} (hStatus : s'.status = s.status) (hNotes : s'.notes = s.notes)
    (hEpoch : s'.cancelEpoch = s.cancelEpoch) (hGathered : s'.gathered = s.gathered)
    (hProcesses : s'.processes = s.processes) (hActor : s'.actor = s.actor)
    (hLock : s'.spawnLock = s.spawnLock) : Writes s s' where
  notes := ⟨[], by rw [hNotes, List.append_nil], fun _ hMem => by simp at hMem,
    fun x hOpened => Or.inl (hStatus ▸ hOpened)⟩
  collecting x hCollecting := hStatus ▸ hCollecting
  cancelEpoch := hEpoch
  gathered := hGathered
  processes := hProcesses
  actor := hActor
  spawnLock := hLock

theorem Writes.refl (s : World) : Writes s s := .still rfl rfl rfl rfl rfl rfl rfl

theorem Writes.trans {s s' s'' : World} (hFirst : Writes s s') (hSecond : Writes s' s'') :
    Writes s s'' := by
  obtain ⟨more, hNotes, hPlain, hOpened⟩ := hFirst.notes
  obtain ⟨more', hNotes', hPlain', hOpened'⟩ := hSecond.notes
  refine { notes := ⟨more ++ more', by rw [hNotes', hNotes, List.append_assoc],
             fun n hMem => (List.mem_append.mp hMem).elim (hPlain n) (hPlain' n), fun x hNew => ?_⟩
           collecting := fun x hNew => hFirst.collecting x (hSecond.collecting x hNew)
           cancelEpoch := hSecond.cancelEpoch.trans hFirst.cancelEpoch
           gathered := hSecond.gathered.trans hFirst.gathered
           processes := hSecond.processes.trans hFirst.processes
           actor := hSecond.actor.trans hFirst.actor
           spawnLock := hSecond.spawnLock.trans hFirst.spawnLock }
  rcases hOpened' x hNew with hOld | hNoted
  · rcases hOpened x hOld with hOld' | hNoted
    · exact Or.inl hOld'
    · exact Or.inr (hNoted.mono fun n hMem => List.mem_append_left _ hMem)
  · rw [hFirst.cancelEpoch] at hNoted
    exact Or.inr (hNoted.mono fun n hMem => List.mem_append_right _ hMem)

theorem plain_noteOf (s : World) (x : ExchangeId) (status : ExchangeStatus) :
    ∀ n ∈ s.noteOf x status, n.Plain := by
  intro n hMem
  cases status with
  | opened =>
      obtain rfl := List.mem_singleton.mp hMem
      trivial
  | _ => simp [World.noteOf] at hMem

/-- A status other than COLLECTING is written, and OPEN is noted. -/
theorem Writes.writeRow (s : World) (x : ExchangeId) {status : ExchangeStatus}
    (hStatus : status ≠ .collecting) (look : Option Look) (f : ExchangeRow → ExchangeRow) :
    Writes s (s.writeRow x status look f) where
  notes := by
    refine ⟨s.noteOf x status, rfl, plain_noteOf s x status, fun y hOpened => ?_⟩
    rw [World.status_writeRow] at hOpened
    split at hOpened
    · rename_i hSame
      obtain ⟨_, -, rfl⟩ := Option.map_eq_some_iff.mp hOpened
      exact Or.inr (Or.inl (hSame ▸ List.mem_singleton_self _))
    · exact Or.inl hOpened
  collecting y hCollecting := by
    rw [World.status_writeRow] at hCollecting
    split at hCollecting
    · obtain ⟨_, -, hSame⟩ := Option.map_eq_some_iff.mp hCollecting
      exact absurd hSame hStatus
    · exact hCollecting
  cancelEpoch := rfl
  gathered := rfl
  processes := rfl
  actor := rfl
  spawnLock := rfl

theorem Writes.openFor (s : World) (message : ChatMessage) (cancelEpoch : Nat) :
    Writes s (openFor message cancelEpoch s).2 where
  notes := by
    refine ⟨[.attached s.nextExchange cancelEpoch,
      .created s.nextExchange cancelEpoch s.cancelEpoch], ?_, fun n hMem => ?_, fun y hOpened => ?_⟩
    · simp [Conversation.openFor, World.create, World.note]
    · simp only [List.mem_cons, List.not_mem_nil, or_false] at hMem
      rcases hMem with rfl | rfl
      · trivial
      · trivial
    · unfold Conversation.openFor at hOpened
      rw [World.status_create] at hOpened
      split at hOpened
      · rename_i hSame
        obtain rfl : y = s.nextExchange := hSame
        exact Or.inr (Or.inr ⟨cancelEpoch, by simp, by simp⟩)
      · exact Or.inl hOpened
  collecting y hCollecting := by
    unfold Conversation.openFor at hCollecting
    rw [World.status_create] at hCollecting
    split at hCollecting
    · simp at hCollecting
    · exact hCollecting
  cancelEpoch := rfl
  gathered := rfl
  processes := rfl
  actor := rfl
  spawnLock := rfl

theorem Writes.reopen (s : World) : Writes s s.reopen := by
  unfold World.reopen
  induction List.range s.nextExchange generalizing s with
  | nil => exact .refl s
  | cons x rest ih =>
      refine Writes.trans ?_ (ih _)
      dsimp only
      split
      · exact .writeRow s x (by decide) none id
      · exact .refl s

/-! ## What follows for every step -/

section Consequences

variable {cfg : RunnerConfig} {me other : Nat} {s s' : World} {x : ExchangeId}

theorem Act.step (hWell : s.WellFormed) (hAct : Act cfg me s s') : Step s s' := by
  cases hAct with
  | write hStep _ => exact hStep
  | retire hStep _ => exact hStep
  | lock _ => exact .quiet { Quiet.refl s with }
  | unlock _ => exact .quiet { Quiet.refl s with }
  | takeTurn _ => exact .quiet { Quiet.refl s with }
  | endTurn _ => exact .quiet { Quiet.refl s with }
  | collect title _ _ => exact .create hWell title (by decide)
  | settle x task status keepIfAwaiting _ => exact .settleOwned s x task status keepIfAwaiting
  | start seen task cancelEpoch _ _ hTask _ _ _ =>
      refine .still (fun hWell => ?_) rfl rfl rfl (Nat.le_refl _)
      have hCreated := hWell.createProcess (cancelEpoch.any fun e => decide (e < s.cancelEpoch)) hTask
      exact hCreated.of_same rfl rfl rfl rfl fun p hMem => ⟨p, hMem, rfl, rfl⟩
  | restart task x _ _ hTask _ =>
      refine .still (fun hWell => ?_) rfl rfl rfl (Nat.le_refl _)
      have hCreated := hWell.createProcess false hTask
      exact hCreated.of_same rfl rfl rfl rfl fun p hMem => ⟨p, hMem, rfl, rfl⟩
  | background task _ _ hTask _ =>
      exact .still (fun hWell => hWell.createProcess false hTask) rfl rfl rfl (Nat.le_refl _)
  | stop => exact .still (fun hWell => hWell.handleCancel) rfl rfl rfl (Nat.le_refl _)

/-- What the settling of a run notes. -/
theorem settleOwned_notes (s : World) (x : ExchangeId) (task : TaskId) (status : ExchangeStatus)
    (keepIfAwaiting : Bool) :
    ∃ more, (s.settleOwned x task status keepIfAwaiting).2.notes = s.notes ++ more ∧
      (∀ n ∈ more, n.Plain) ∧
      ∀ y, (s.settleOwned x task status keepIfAwaiting).2.status y = some .opened →
        s.status y = some .opened ∨ OpenNoted more y s.cancelEpoch := by
  unfold World.settleOwned
  split
  · have hQuiet := quiet_gather x status s
    have hNotes : (s.gather x status).notes = s.notes := by
      unfold World.gather
      split <;> rfl
    refine ⟨(s.gather x status).noteOf x status, ?_, plain_noteOf _ x status, fun y hOpened => ?_⟩
    · rw [← hNotes]
      rfl
    · have hWritten := (s.gather x status).status_writeRow x y status none
        fun e => { e with pendingQuestion := none }
      rw [World.writeStatus, hWritten, hQuiet.status] at hOpened
      split at hOpened
      · rename_i hSame
        obtain ⟨_, -, rfl⟩ := Option.map_eq_some_iff.mp hOpened
        rw [← hQuiet.cancelEpoch]
        exact Or.inr (Or.inl (hSame ▸ List.mem_singleton_self _))
      · exact Or.inl hOpened
  · exact ⟨[], (List.append_nil _).symm, fun _ hMem => by simp at hMem,
      fun _ hOpened => Or.inl hOpened⟩

/-- The notes after a step: none about a new run, or one. -/
inductive NotesAfter (s s' : World) : Prop
  | plain (more : List Note) (hNotes : s'.notes = s.notes ++ more) (hPlain : ∀ n ∈ more, n.Plain)
  | started (seen : Seen) (cancelEpoch : Option Nat) (hJustified : Justified seen cancelEpoch s)
      (hNotes : s'.notes = s.notes ++ [.started seen.exchange.id seen.look.stops s.cancelEpoch
        (cancelEpoch.any fun epoch => decide (epoch < s.cancelEpoch))])
  | restarted (x : ExchangeId)
      (hNotes : s'.notes = s.notes ++
        [.restarted x s.cancelEpoch (s.liveProcessFor x).isNone])

theorem NotesAfter.same (hNotes : s'.notes = s.notes) : NotesAfter s s' :=
  .plain [] (by rw [hNotes, List.append_nil]) fun _ hMem => by simp at hMem

theorem Act.notes (hAct : Act cfg me s s') : NotesAfter s s' := by
  cases hAct with
  | write _ hWrites =>
      obtain ⟨more, hNotes, hPlain, -⟩ := hWrites.notes
      exact .plain more hNotes hPlain
  | retire _ hRetires => exact .same hRetires.notes
  | lock _ => exact .same rfl
  | unlock _ => exact .same rfl
  | takeTurn _ => exact .same rfl
  | endTurn _ => exact .same rfl
  | collect title _ _ => exact .same rfl
  | settle x task status keepIfAwaiting _ =>
      obtain ⟨more, hNotes, hPlain, -⟩ := settleOwned_notes s x task status keepIfAwaiting
      exact .plain more hNotes hPlain
  | start seen task cancelEpoch _ _ _ _ _ hJustified =>
      exact .started seen cancelEpoch hJustified rfl
  | restart task x _ _ _ _ => exact .restarted x rfl
  | background => exact .same rfl
  | stop =>
      refine .plain [_] rfl fun n hMem => ?_
      obtain rfl := List.mem_singleton.mp hMem
      trivial

theorem Act.notes_append (hAct : Act cfg me s s') : ∃ more, s'.notes = s.notes ++ more := by
  cases hAct.notes with
  | plain more hNotes _ => exact ⟨more, hNotes⟩
  | started _ _ _ hNotes => exact ⟨_, hNotes⟩
  | restarted _ hNotes => exact ⟨_, hNotes⟩

theorem Act.notes_mono (hAct : Act cfg me s s') {n : Note} (hMem : n ∈ s.notes) :
    n ∈ s'.notes := by
  obtain ⟨more, hNotes⟩ := hAct.notes_append
  rw [hNotes]
  exact List.mem_append_left _ hMem

/-! ### Locks -/

/-- The settling of a run writes to the store only. -/
theorem settleOwned_memory (s : World) (x : ExchangeId) (task : TaskId) (status : ExchangeStatus)
    (keepIfAwaiting : Bool) :
    (s.settleOwned x task status keepIfAwaiting).2.spawnLock = s.spawnLock ∧
      (s.settleOwned x task status keepIfAwaiting).2.actor = s.actor ∧
      (s.settleOwned x task status keepIfAwaiting).2.processes = s.processes ∧
      (s.settleOwned x task status keepIfAwaiting).2.cancelEpoch = s.cancelEpoch := by
  unfold World.settleOwned World.gather
  split
  · split
    · exact ⟨rfl, rfl, rfl, rfl⟩
    · exact ⟨rfl, rfl, rfl, rfl⟩
  · exact ⟨rfl, rfl, rfl, rfl⟩

/-- Nobody takes the spawn lock from its holder. -/
theorem Act.held (hAct : Act cfg other s s') (hNe : other ≠ me) (hHeld : s.spawnLock = some me) :
    s'.spawnLock = some me := by
  cases hAct with
  | write _ hWrites => exact hWrites.spawnLock.trans hHeld
  | retire _ hRetires => exact hRetires.spawnLock.trans hHeld
  | lock hFree => simp [hHeld] at hFree
  | unlock hOther => exact absurd (Option.some.inj (hOther.symm.trans hHeld)) hNe
  | takeTurn _ => exact hHeld
  | endTurn _ => exact hHeld
  | collect _ _ _ => exact hHeld
  | settle => exact (settleOwned_memory _ _ _ _ _).1.trans hHeld
  | start => exact hHeld
  | restart => exact hHeld
  | background => exact hHeld
  | stop => exact hHeld

/-- Nobody takes the turn of the command that is being handled. -/
theorem Act.turn (hAct : Act cfg other s s') (hNe : other ≠ me) (hTurn : s.actor = some me) :
    s'.actor = some me := by
  cases hAct with
  | write _ hWrites => exact hWrites.actor.trans hTurn
  | retire _ hRetires => exact hRetires.actor.trans hTurn
  | lock _ => exact hTurn
  | unlock _ => exact hTurn
  | takeTurn hFree => simp [hTurn] at hFree
  | endTurn hOther => exact absurd (Option.some.inj (hOther.symm.trans hTurn)) hNe
  | collect _ _ _ => exact hTurn
  | settle => exact (settleOwned_memory _ _ _ _ _).2.1.trans hTurn
  | start => exact hTurn
  | restart => exact hTurn
  | background => exact hTurn
  | stop => exact hTurn

/-! ### Runs -/

/-- The runs after a step: some have gone or were told to stop, or the holder of
the spawn lock has created one.  Where the new run is the second one of its
exchange, it was restarted. -/
inductive RunsAfter (cfg : RunnerConfig) (me : Nat) (s s' : World) : Prop
  | fewer (hOwners : s'.owners.Sublist s.owners) (hGoing : s'.going ≤ s.going)
  | more (hHeld : s.spawnLock = some me) (hRoom : HasRoom cfg s) (hGoing : s'.going ≤ s.going + 1)
      (hOwners : s'.owners = s.owners ∨ ∃ x, s'.owners = s.owners ++ [x] ∧
        (x ∈ s.owners → ∃ stops, .restarted x stops false ∈ s'.notes))

theorem RunsAfter.same (hProcesses : s'.processes = s.processes) : RunsAfter cfg me s s' := by
  refine .fewer ?_ (Nat.le_of_eq ?_)
  · rw [World.owners, World.owners, hProcesses]
  · rw [World.going, World.going, hProcesses]

theorem going_createProcess (s : World) (task : Task) (cancelled : Bool) :
    (s.createProcess task cancelled).going ≤ s.going + 1 := by
  simp only [World.going, World.createProcess, List.countP_append]
  have hOne := List.countP_le_length (p := fun p : Process => !p.cancelled)
    (l := [{ task := task.id, title := task.title, exchangeId := task.exchangeId, cancelled }])
  simpa using hOne

theorem owners_createProcess (s : World) (task : Task) (cancelled : Bool) :
    (s.createProcess task cancelled).owners = s.owners ++ task.exchangeId.toList := by
  simp only [World.owners, World.createProcess, List.filterMap_append]
  cases task.exchangeId with
  | none => rfl
  | some x => rfl

theorem owners_map {f : Process → Process} (hMap : s'.processes = s.processes.map f)
    (hSame : ∀ p, (f p).exchangeId = p.exchangeId) : s'.owners = s.owners := by
  rw [World.owners, hMap, List.filterMap_map, World.owners]
  exact List.filterMap_congr fun p _ => hSame p

theorem going_map {f : Process → Process} (hMap : s'.processes = s.processes.map f)
    (hStopped : ∀ p, p.cancelled = true → (f p).cancelled = true) : s'.going ≤ s.going := by
  rw [World.going, hMap, List.countP_map, World.going]
  refine List.countP_mono_left fun p _ hGoing => ?_
  simp only [Function.comp_apply, Bool.not_eq_true'] at hGoing ⊢
  by_contra hCancelled
  rw [hStopped p (by simpa using hCancelled)] at hGoing
  simp at hGoing

theorem Act.runs (hAct : Act cfg me s s') : RunsAfter cfg me s s' := by
  cases hAct with
  | write _ hWrites => exact .same hWrites.processes
  | retire _ hRetires => exact .fewer hRetires.owners hRetires.going
  | lock _ => exact .same rfl
  | unlock _ => exact .same rfl
  | takeTurn _ => exact .same rfl
  | endTurn _ => exact .same rfl
  | collect _ _ _ => exact .same rfl
  | settle => exact .same (settleOwned_memory _ _ _ _ _).2.2.1
  | start seen task cancelEpoch hHeld hOwn _ hAlone hRoom _ =>
      refine .more hHeld hRoom (going_createProcess s task _) (Or.inr ⟨seen.exchange.id, ?_, ?_⟩)
      · exact (owners_createProcess s task _).trans (by rw [hOwn]; rfl)
      · exact fun hMem => absurd hMem ((s.noRun_iff _).mp hAlone)
  | restart task x hHeld hOwn _ hRoom =>
      refine .more hHeld hRoom (going_createProcess s task _) (Or.inr ⟨x, ?_, fun hMem => ?_⟩)
      · exact (owners_createProcess s task _).trans (by rw [hOwn]; rfl)
      -- A restart beside a run of the exchange is noted.
      · have hBusy : (s.liveProcessFor x).isNone = false := by
          rw [Option.isNone_eq_false_iff, s.liveProcessFor_isSome]
          exact (s.mem_owners x).mp hMem
        refine ⟨s.cancelEpoch, List.mem_append_right _ ?_⟩
        rw [hBusy]
        exact List.mem_singleton_self _
  | background task hHeld hOwn _ hRoom =>
      refine .more hHeld hRoom (going_createProcess s task _) (Or.inl ?_)
      exact (owners_createProcess s task _).trans (by rw [hOwn]; simp)
  | stop =>
      have hOwners : s.handleCancel.owners = s.owners := owners_map rfl fun p => by split <;> rfl
      refine .fewer (hOwners ▸ .refl _) (going_map rfl fun p hCancelled => ?_)
      split
      · rfl
      · exact hCancelled

/-- Under the spawn lock the room that was found stays free. -/
structure Spacious (cfg : RunnerConfig) (me : Nat) (s : World) : Prop where
  held : s.spawnLock = some me
  room : HasRoom cfg s

/-- Under the spawn lock an exchange that was found without a run stays so. -/
structure Unmanned (me : Nat) (x : ExchangeId) (s : World) : Prop where
  held : s.spawnLock = some me
  alone : s.NoRun x

theorem HasRoom.mono (hGoing : s'.going ≤ s.going) (hNotes : ∀ n ∈ s.notes, n ∈ s'.notes)
    (hRoom : HasRoom cfg s) : HasRoom cfg s' :=
  fun hSound => Nat.le_trans (Nat.add_le_add_right hGoing 1)
    (hRoom fun n hMem => hSound n (hNotes n hMem))

theorem Spacious.act (hSpacious : Spacious cfg me s) (hNe : other ≠ me)
    (hAct : Act cfg other s s') : Spacious cfg me s' := by
  cases hAct.runs with
  | fewer _ hGoing =>
      exact ⟨hAct.held hNe hSpacious.held, hSpacious.room.mono hGoing fun _ => hAct.notes_mono⟩
  | more hHeld _ _ _ => exact absurd (Option.some.inj (hHeld.symm.trans hSpacious.held)) hNe

theorem Unmanned.act (hUnmanned : Unmanned me x s) (hNe : other ≠ me)
    (hAct : Act cfg other s s') : Unmanned me x s' := by
  cases hAct.runs with
  | fewer hOwners _ =>
      refine ⟨hAct.held hNe hUnmanned.held, ?_⟩
      rw [World.noRun_iff]
      exact fun hMem => (s.noRun_iff x).mp hUnmanned.alone (hOwners.subset hMem)
  | more hHeld _ _ _ => exact absurd (Option.some.inj (hHeld.symm.trans hUnmanned.held)) hNe

/-! ### Exchanges that are OPEN -/

/-- A step that notes the exchanges it opens. -/
theorem OpenPassed.noted {more : List Note} (hPassed : OpenPassed s)
    (hNotes : s'.notes = s.notes ++ more) (hEpoch : s'.cancelEpoch = s.cancelEpoch)
    (hOpened : ∀ y, s'.status y = some .opened →
      s.status y = some .opened ∨ OpenNoted more y s.cancelEpoch) : OpenPassed s' := by
  intro hFair y hNow
  rw [hEpoch]
  rw [hNotes] at hFair ⊢
  rcases hOpened y hNow with hOld | hWritten | ⟨epoch, hAttached, hCreated⟩
  · exact (hPassed hFair.of_append y hOld).mono fun n hMem => List.mem_append_left _ hMem
  · obtain ⟨before, after, hSplit, hNote⟩ := hFair.of_mem (List.mem_append_right s.notes hWritten)
    intro stop hStop
    have hBefore : Covered before y stop := hNote stop hStop
    rw [hSplit]
    exact Or.inl (hBefore.mono fun n hMem => List.mem_append_left _ hMem)
  · intro stop hStop
    rcases Nat.lt_or_ge stop epoch with hLater | hEarlier
    · exact Or.inl (covered_of_attached (List.mem_append_right _ hAttached) hLater)
    · exact Or.inr ⟨_, List.mem_append_right _ hCreated, rfl, hEarlier, hStop⟩

/-- The stop itself finds the OPEN exchanges OPEN. -/
theorem OpenPassed.handleCancel (hWell : s.WellFormed) (hPassed : OpenPassed s) :
    OpenPassed s.handleCancel := by
  intro hFair y hOpened stop hStop
  have hNow : s.status y = some .opened := hOpened
  rcases Nat.lt_succ_iff_lt_or_eq.mp hStop with hOld | rfl
  · have hBefore : Passed s.handleCancel.notes y s.cancelEpoch :=
      (hPassed hFair.of_append y hNow).mono fun n hMem => List.mem_append_left _ hMem
    exact hBefore stop hOld
  · refine Or.inl (covered_of_stopped (List.mem_append_right _ (List.mem_singleton_self _)) ?_)
    have hStored : y < s.nextExchange := hWell.lt_of_stored (by rw [hNow]; rfl)
    simp [World.openedExchanges, hStored, hNow]

theorem OpenPassed.act (hWell : s.WellFormed) (hPassed : OpenPassed s)
    (hAct : Act cfg me s s') : OpenPassed s' := by
  have hSame : ∀ {s' : World}, s'.notes = s.notes → s'.cancelEpoch = s.cancelEpoch →
      s'.status = s.status → OpenPassed s' := by
    intro s' hNotes hEpoch hStatus
    have hNil : s'.notes = s.notes ++ [] := by rw [hNotes, List.append_nil]
    exact hPassed.noted hNil hEpoch fun y hOpened => Or.inl (hStatus ▸ hOpened)
  cases hAct with
  | write _ hWrites =>
      obtain ⟨more, hNotes, -, hOpened⟩ := hWrites.notes
      exact hPassed.noted hNotes hWrites.cancelEpoch hOpened
  | retire _ hRetires => exact hSame hRetires.notes hRetires.cancelEpoch hRetires.status
  | lock _ => exact hSame rfl rfl rfl
  | unlock _ => exact hSame rfl rfl rfl
  | takeTurn _ => exact hSame rfl rfl rfl
  | endTurn _ => exact hSame rfl rfl rfl
  | collect title _ _ =>
      refine hPassed.noted (List.append_nil _).symm rfl fun y hOpened => ?_
      rw [World.status_create] at hOpened
      split at hOpened
      · simp at hOpened
      · exact Or.inl hOpened
  | settle x task status keepIfAwaiting _ =>
      obtain ⟨more, hNotes, -, hOpened⟩ := settleOwned_notes s x task status keepIfAwaiting
      exact hPassed.noted hNotes (settleOwned_memory _ _ _ _ _).2.2.2 hOpened
  | start => exact hPassed.noted rfl rfl fun y hOpened => Or.inl hOpened
  | restart => exact hPassed.noted rfl rfl fun y hOpened => Or.inl hOpened
  | background => exact hSame rfl rfl rfl
  | stop => exact hPassed.handleCancel hWell

end Consequences

/-! ## The protocol -/

/-- Everybody takes the steps of `Act`. -/
def runnerProtocol (cfg : RunnerConfig) : Protocol World where
  inv s := s.WellFormed ∧ OpenPassed s
  guarantee := Act cfg
  env := Calm

section Protocol

variable {cfg : RunnerConfig} {me : Nat} {s s' : World} {A : World → Prop}

theorem Act.inv (hInv : (runnerProtocol cfg).inv s) (hAct : Act cfg me s s') :
    (runnerProtocol cfg).inv s' :=
  ⟨(hAct.step hInv.1).wellFormed hInv.1, hInv.2.act hInv.1 hAct⟩

theorem Act.calm (hCalm : Calm s s') : Act cfg me s s' :=
  .write (.quiet hCalm.toQuiet) hCalm.writes

theorem Act.refl (s : World) : Act cfg me s s := .calm (.refl s)

/-- An assertion that steps of the others keep. -/
theorem stable_of_act (hKeep : ∀ s s' other, (runnerProtocol cfg).inv s → A s → other ≠ me →
      Act cfg other s s' → A s') :
    (runnerProtocol cfg).Stable me fun s => (runnerProtocol cfg).inv s ∧ A s := by
  rintro s s' ⟨hInv, hA⟩ ⟨hInv', hStep⟩
  refine ⟨hInv', ?_⟩
  rcases hStep with ⟨other, hNe, hAct⟩ | hCalm
  · exact hKeep s s' other hInv hA hNe hAct
  · exact hKeep s s' (me + 1) hInv hA (Nat.succ_ne_self me) (.calm hCalm)

/-- An assertion that every step keeps. -/
theorem kept_of_act (hKeep : ∀ s s' other, (runnerProtocol cfg).inv s → A s →
      Act cfg other s s' → A s') : (runnerProtocol cfg).Kept A := by
  intro s s' hInv hA hStep
  rcases hStep with ⟨other, hAct⟩ | hCalm
  · exact hKeep s s' other hInv hA hAct
  · exact hKeep s s' 0 hInv hA (.calm hCalm)

end Protocol

end Conversation
end OctoForge
