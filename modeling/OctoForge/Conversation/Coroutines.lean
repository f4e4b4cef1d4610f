import Mathlib.Data.List.Dedup
import OctoForge.Conversation.Actions

/-!
# Every coroutine keeps to the list

One specification for each coroutine of the runner: whatever the others do in
between, its steps are steps of `Act`.  What a coroutine has to remember from
one step to the next is its precondition: the look it took at an exchange, the
spawn lock and what it found under it, the message that went to the exchange,
the turn of the actor.
-/

namespace OctoForge
namespace Conversation

open Coop
open Co (Atoms Spec Steps Triple)
open Dialog (ExchangeId MessageId ChatMessage MessageRole MessageKind)
open Sequence (Along)

/-! ## Rules -/

/-- A step that writes and that needs no precondition. -/
structure Mild (s s' : World) : Prop where
  step : Step s s'
  writes : Writes s s'

theorem Calm.mild {s s' : World} (hCalm : Calm s s') : Mild s s' :=
  ⟨.quiet hCalm.toQuiet, hCalm.writes⟩

theorem Mild.trans {s s' s'' : World} (hFirst : Mild s s') (hSecond : Mild s' s'') : Mild s s'' :=
  ⟨hFirst.step.trans hSecond.step, hFirst.writes.trans hSecond.writes⟩

theorem Mild.act {cfg : RunnerConfig} {me : Nat} {s s' : World} (hMild : Mild s s') :
    Act cfg me s s' := .write hMild.step hMild.writes

/-- A write that carries its author's look. -/
theorem Looked.mild {x : ExchangeId} {look : Look} {s : World} (hLooked : Looked x look s)
    {status : ExchangeStatus} (hStatus : status ≠ .collecting) (f : ExchangeRow → ExchangeRow) :
    Mild s (s.writeRow x status (some look) f) :=
  ⟨hLooked.write status f, .writeRow s x hStatus (some look) f⟩

section Rules

variable {cfg : RunnerConfig} {α β : Type} {me : Nat} {A : World → Prop}

/-- An assertion that the others keep, beside the invariant. -/
def Steady (cfg : RunnerConfig) (me : Nat) (A : World → Prop) : Prop :=
  ∀ s s' other, (runnerProtocol cfg).inv s → A s → other ≠ me → Act cfg other s s' → A s'

theorem Steady.stable (hSteady : Steady cfg me A) :
    (runnerProtocol cfg).Stable me fun s => (runnerProtocol cfg).inv s ∧ A s :=
  stable_of_act hSteady

/-- An assertion that everybody keeps. -/
def Lasting (cfg : RunnerConfig) (A : World → Prop) : Prop :=
  ∀ s s' other, (runnerProtocol cfg).inv s → A s → Act cfg other s s' → A s'

theorem Lasting.kept (hLasting : Lasting cfg A) : (runnerProtocol cfg).Kept A :=
  kept_of_act hLasting

theorem Lasting.steady (hLasting : Lasting cfg A) : Steady cfg me A :=
  fun s s' other hInv hA _ hAct => hLasting s s' other hInv hA hAct

theorem lasting_true : Lasting cfg fun _ => True := fun _ _ _ _ _ _ => trivial

theorem Lasting.and {B : World → Prop} (hA : Lasting cfg A) (hB : Lasting cfg B) :
    Lasting cfg fun s => A s ∧ B s :=
  fun s s' other hInv hBoth hAct =>
    ⟨hA s s' other hInv hBoth.1 hAct, hB s s' other hInv hBoth.2 hAct⟩

theorem Steady.and {B : World → Prop} (hA : Steady cfg me A) (hB : Steady cfg me B) :
    Steady cfg me fun s => A s ∧ B s :=
  fun s s' other hInv hBoth hNe hAct =>
    ⟨hA s s' other hInv hBoth.1 hNe hAct, hB s s' other hInv hBoth.2 hNe hAct⟩

theorem mild_of_calm {c : Work α} (hCalm : Steps Calm c) : Steps Mild c :=
  hCalm.atoms fun _ _ _ _ hStep => ⟨trivial, hStep.mild⟩

/-- A mild step could as well be taken by somebody else, so it keeps what the
others keep. -/
theorem spec_mild {c : Work α} (hSteady : Steady cfg me A) (hMild : Steps Mild c) :
    Spec (runnerProtocol cfg) me A c fun _ => A :=
  hMild.spec hSteady.stable fun s s' hInv hA hStep => by
    have hMine : Act cfg me s s' := hStep.act
    exact ⟨hMine.inv hInv, hMine, hSteady s s' _ hInv hA (Nat.succ_ne_self me) hStep.act⟩

theorem spec_calm {c : Work α} (hSteady : Steady cfg me A) (hCalm : Steps Calm c) :
    Spec (runnerProtocol cfg) me A c fun _ => A :=
  spec_mild hSteady (mild_of_calm hCalm)

/-- One step of the list. -/
theorem spec_atomic {f : World → α × World} {B : α → World → Prop} (hSteady : Steady cfg me A)
    (hStep : ∀ s, (runnerProtocol cfg).inv s → A s →
      Act cfg me s (f s).2 ∧ B (f s).1 (f s).2) :
    Spec (runnerProtocol cfg) me A (Co.atomic f : Work α) B :=
  Co.triple_atomic hSteady.stable fun s hInv hA =>
    ⟨(hStep s hInv hA).1.inv hInv, (hStep s hInv hA).1, (hStep s hInv hA).2⟩

theorem spec_modify {f : World → World} {B : World → Prop} (hSteady : Steady cfg me A)
    (hStep : ∀ s, (runnerProtocol cfg).inv s → A s → Act cfg me s (f s) ∧ B (f s)) :
    Spec (runnerProtocol cfg) me A (Co.modify f : Work Unit) fun _ => B :=
  spec_atomic (f := fun s => ((), f s)) hSteady hStep

theorem spec_read {f : World → α} {B : α → World → Prop} (hSteady : Steady cfg me A)
    (hPost : ∀ s, (runnerProtocol cfg).inv s → A s → B (f s) s) :
    Spec (runnerProtocol cfg) me A (Co.read f : Work α) B :=
  spec_atomic (f := fun s => (f s, s)) hSteady fun s hInv hA => ⟨.refl s, hPost s hInv hA⟩

theorem spec_transaction {f : World → α × World} {B : α → World → Prop}
    (hSteady : Steady cfg me A)
    (hStep : ∀ s, (runnerProtocol cfg).inv s → A s →
      Act cfg me s (f s).2 ∧ B (f s).1 (f s).2) :
    Spec (runnerProtocol cfg) me A (transaction f) B := by
  refine Co.triple_attempt hSteady.stable fun s hInv hA => ?_
  obtain ⟨hAct, hPost⟩ := hStep s hInv hA
  split
  · exact ⟨hInv, .refl s, fun _ hEq => by simp at hEq, fun _ _ => trivial⟩
  · refine ⟨hAct.inv hInv, hAct, fun value hEq => ?_, fun _ _ => trivial⟩
    obtain rfl := Except.ok.inj hEq
    exact hPost

theorem spec_select {f : World → α} {B : α → World → Prop} (hSteady : Steady cfg me A)
    (hPost : ∀ s, (runnerProtocol cfg).inv s → A s → B (f s) s) :
    Spec (runnerProtocol cfg) me A (select f) B :=
  spec_transaction hSteady fun s hInv hA => ⟨.refl s, hPost s hInv hA⟩

theorem spec_transactionOn {x : ExchangeId} {f : World → α × World} {B : α → World → Prop}
    (hSteady : Steady cfg me A)
    (hStep : ∀ s, (runnerProtocol cfg).inv s → A s → x < s.nextExchange →
      Act cfg me s (f s).2 ∧ B (f s).1 (f s).2) :
    Spec (runnerProtocol cfg) me A (transactionOn x f) B := by
  refine Co.triple_attempt hSteady.stable fun s hInv hA => ?_
  split
  · exact ⟨hInv, .refl s, fun _ hEq => by simp at hEq, fun _ _ => trivial⟩
  · split
    · exact ⟨hInv, .refl s, fun _ hEq => by simp at hEq, fun _ _ => trivial⟩
    · rename_i hMissing
      have hStored : (s.status x).isSome := by
        simpa [Option.isSome_iff_ne_none] using hMissing
      obtain ⟨hAct, hPost⟩ := hStep s hInv hA (hInv.1.lt_of_stored hStored)
      refine ⟨hAct.inv hInv, hAct, fun value hEq => ?_, fun _ _ => trivial⟩
      obtain rfl := Except.ok.inj hEq
      exact hPost

theorem spec_suppressNotFound {c : Work α} (value : α)
    (hSpec : Spec (runnerProtocol cfg) me A c fun _ _ => True) :
    Spec (runnerProtocol cfg) me A (suppressNotFound value c) fun _ _ => True := by
  refine hSpec.tryCatch fun error _ => ?_
  cases error with
  | exchangeNotFound => exact Co.triple_done fun _ _ _ => trivial
  | unavailable => exact Co.triple_fail trivial

theorem act_releaseSpawnLock (s : World) : Act cfg me s (releaseSpawnLock me s) := by
  unfold releaseSpawnLock
  split
  · rename_i hHeld
    exact .unlock hHeld
  · exact .refl s

theorem act_releaseActor (s : World) : Act cfg me s (releaseActor me s) := by
  unfold releaseActor
  split
  · rename_i hTurn
    exact .endTurn hTurn
  · exact .refl s

theorem spec_withSpawnLock {body : Work α} (hLasting : Lasting cfg A)
    (hBody : Spec (runnerProtocol cfg) me (fun s => A s ∧ s.spawnLock = some me) body
      fun _ _ => True) :
    Spec (runnerProtocol cfg) me A (withSpawnLock me body) fun _ _ => True := by
  refine Triple.bind (B := fun _ s => A s ∧ s.spawnLock = some me)
    (Co.triple_blockUntil (hLasting.steady.stable) fun s hInv hA hFree => ?_) fun _ => ?_
  · have hAct : Act cfg me s { s with spawnLock := some me } :=
      .lock (Option.isNone_iff_eq_none.mp hFree)
    exact ⟨hAct.inv hInv, hAct, hLasting s _ me hInv hA hAct, rfl⟩
  · refine Triple.ensure (fun _ => lasting_true.steady.stable) (fun s hInv => ?_) hBody
    exact ⟨(act_releaseSpawnLock s).inv hInv, act_releaseSpawnLock s, fun _ _ => trivial⟩

/-- Coroutines that need nothing and promise nothing but the protocol. -/
def Keeps (cfg : RunnerConfig) (me : Nat) (c : Work α) : Prop :=
  Spec (runnerProtocol cfg) me (fun _ => True) c fun _ _ => True

theorem Keeps.of_mild {c : Work α} (hMild : Steps Mild c) : Keeps cfg me c :=
  spec_mild lasting_true.steady hMild

theorem Keeps.of_calm {c : Work α} (hCalm : Steps Calm c) : Keeps cfg me c :=
  .of_mild (mild_of_calm hCalm)

theorem Keeps.bind {c : Work α} {f : α → Work β} (hFirst : Keeps cfg me c)
    (hRest : ∀ value, Keeps cfg me (f value)) : Keeps cfg me (c.bind f) :=
  Triple.bind hFirst hRest

theorem keeps_done (value : α) : Keeps cfg me (.done value : Work α) :=
  Co.triple_done fun _ _ _ => trivial

theorem Keeps.tryCatch {c : Work α} {handler : StoreError → Work α} (hFirst : Keeps cfg me c)
    (hHandler : ∀ error, Keeps cfg me (handler error)) : Keeps cfg me (c.tryCatch handler) :=
  Triple.tryCatch hFirst fun error _ => hHandler error

theorem Keeps.forEach {items : List β} {body : β → Work Unit}
    (hBody : ∀ item, Keeps cfg me (body item)) : Keeps cfg me (Co.forEach items body) :=
  Triple.forEach fun item _ => hBody item

theorem Keeps.pre {c : Work α} (hKeeps : Keeps cfg me c) :
    Spec (runnerProtocol cfg) me A c fun _ _ => True :=
  hKeeps.weaken fun _ _ _ => trivial

theorem keeps_onActor {command : Work Unit}
    (hCommand : Spec (runnerProtocol cfg) me (fun s => s.actor = some me) command
      fun _ _ => True) : Keeps cfg me (onActor me command) := by
  refine Triple.bind (B := fun _ s => s.actor = some me)
    (Co.triple_blockUntil (lasting_true.steady.stable) fun s hInv _ hReady => ?_) fun _ => ?_
  · have hFree : s.actor = none := Option.isNone_iff_eq_none.mp (Bool.and_eq_true_iff.mp hReady).1
    have hAct : Act cfg me s { s with actor := some me } := .takeTurn hFree
    exact ⟨hAct.inv hInv, hAct, rfl⟩
  · refine Triple.ensure (fun _ => lasting_true.steady.stable) (fun s hInv => ?_)
      (hCommand.tryCatch fun _ _ => Co.triple_done fun _ _ _ => trivial)
    exact ⟨(act_releaseActor s).inv hInv, act_releaseActor s, fun _ _ => trivial⟩

theorem steady_turn : Steady cfg me fun s => s.actor = some me :=
  fun _ _ _ _ hTurn hNe hAct => hAct.turn hNe hTurn

theorem steady_held : Steady cfg me fun s => s.spawnLock = some me :=
  fun _ _ _ _ hHeld hNe hAct => hAct.held hNe hHeld

theorem steady_spacious : Steady cfg me (Spacious cfg me) :=
  fun _ _ _ _ hSpacious hNe hAct => hSpacious.act hNe hAct

theorem steady_unmanned (x : ExchangeId) : Steady cfg me (Unmanned me x) :=
  fun _ _ _ _ hUnmanned hNe hAct => hUnmanned.act hNe hAct

end Rules

/-! ## Looks and messages that last -/

section Lasting

variable {cfg : RunnerConfig} {x : ExchangeId}

theorem lasting_looked (look : Look) : Lasting cfg (Looked x look) :=
  fun _ _ _ hInv hLooked hAct => hLooked.step (hAct.step hInv.1)

/-- The author of the exchange's next write has this look in hand. -/
def LookedAt (seen : Seen) : World → Prop := Looked seen.exchange.id seen.look

theorem lasting_lookedAt (seen : Seen) : Lasting cfg (LookedAt seen) :=
  lasting_looked seen.look

/-- The exchange has been created. -/
def Exists (own : Option ExchangeId) (s : World) : Prop := ∀ x, own = some x → x < s.nextExchange

theorem lasting_noted (n : Note) : Lasting cfg fun s => n ∈ s.notes :=
  fun _ _ _ _ hMem hAct => hAct.notes_mono hMem

theorem lasting_justified (seen : Seen) (cancelEpoch : Option Nat) :
    Lasting cfg (Justified seen cancelEpoch) := by
  cases cancelEpoch with
  | some epoch => exact lasting_noted _
  | none =>
      intro s s' other hInv hJustified hAct hFair
      obtain ⟨more, hNotes⟩ := hAct.notes_append
      rw [hNotes] at hFair ⊢
      exact (hJustified hFair.of_append).mono fun n hMem => List.mem_append_left _ hMem

/-- The exchange was read, and if it was OPEN then it had passed the stops. -/
structure ReadAs (x : ExchangeId) (seen : Seen) (s : World) : Prop where
  id : seen.exchange.id = x
  looked : LookedAt seen s
  opened : seen.exchange.status = .opened → Justified seen none s

theorem lasting_readAs (seen : Seen) : Lasting cfg (ReadAs x seen) :=
  fun s s' other hInv hRead hAct =>
    ⟨hRead.id, lasting_lookedAt seen s s' other hInv hRead.looked hAct,
      fun hOpened => lasting_justified seen none s s' other hInv (hRead.opened hOpened) hAct⟩

/-- What a read of the exchange gives its reader. -/
theorem readAs_now {s : World} (hInv : (runnerProtocol cfg).inv s) {exchange : Exchange}
    (hRead : s.exchange x = some exchange) :
    ReadAs x { exchange, look := s.look x } s := by
  obtain ⟨rfl, hStatus⟩ := s.exchange_eq_some x hRead
  refine ⟨rfl, looked_now s _, fun hOpened hFair => ?_⟩
  exact hInv.2 hFair _ (hStatus.trans (congrArg some hOpened))

end Lasting

/-! ## Starting a run -/

section Starting

variable {cfg : RunnerConfig} {me : Nat}

theorem Mild.addTask {s : World} {own : Option ExchangeId} {kind : TaskKind} (hOwn : Exists own s)
    (hKind : kind = .run → own = none) (title : String) : Mild s (s.addTask kind own title).2 :=
  ⟨.still (fun hWell => hWell.addTask hOwn hKind) rfl rfl rfl (Nat.le_succ _),
    .still rfl rfl rfl rfl rfl rfl rfl⟩

/-- What `_start_answer` has made sure of: it holds the spawn lock, the exchange
has no run, there is room, and the run is called for. -/
structure Cleared (cfg : RunnerConfig) (me : Nat) (seen : Seen) (cancelEpoch : Option Nat)
    (s : World) : Prop where
  looked : LookedAt seen s
  spacious : Spacious cfg me s
  unmanned : Unmanned me seen.exchange.id s
  justified : Justified seen cancelEpoch s

theorem steady_cleared (seen : Seen) (cancelEpoch : Option Nat) :
    Steady cfg me (Cleared cfg me seen cancelEpoch) :=
  fun s s' other hInv hCleared hNe hAct =>
    ⟨lasting_lookedAt seen s s' other hInv hCleared.looked hAct, hCleared.spacious.act hNe hAct,
      hCleared.unmanned.act hNe hAct,
      lasting_justified seen cancelEpoch s s' other hInv hCleared.justified hAct⟩

/-- The task of a run that is about to start. -/
structure Begun (seen : Seen) (task : Task) (s : World) : Prop where
  own : task.exchangeId = some seen.exchange.id
  stored : s.HasTask task

theorem lasting_hasTask (task : Task) : Lasting cfg fun s => s.HasTask task :=
  fun _ _ _ hInv hTask hAct => hTask.mono (hAct.step hInv.1).tasks (hAct.step hInv.1).next

theorem lasting_begun (seen : Seen) (task : Task) : Lasting cfg (Begun seen task) :=
  fun s s' other hInv hBegun hAct =>
    ⟨hBegun.own, lasting_hasTask task s s' other hInv hBegun.stored hAct⟩

theorem spec_beginAnswer (seen : Seen) (cancelEpoch : Option Nat) :
    Spec (runnerProtocol cfg) me (Cleared cfg me seen cancelEpoch) (beginAnswer seen)
      fun task s => Begun seen task s ∧ Cleared cfg me seen cancelEpoch s := by
  have hSteady : Steady cfg me (Cleared cfg me seen cancelEpoch) := steady_cleared seen cancelEpoch
  refine spec_transactionOn hSteady fun s hInv hCleared hStored => ?_
  have hExists : Exists (some seen.exchange.id) s := by
    intro x hEq
    obtain rfl := Option.some.inj hEq
    exact hStored
  have hKind : TaskKind.answer = .run → some seen.exchange.id = none := fun hEq => by simp at hEq
  have hAdd := Mild.addTask hExists hKind seen.exchange.title
  have hMild := hAdd.trans ((hCleared.looked.step hAdd.step).mild (by decide : .inProgress ≠ _)
    fun e => { e with pendingQuestion := none })
  -- the others may take such a step too, so it keeps what they keep
  exact ⟨hMild.act, ⟨rfl, ⟨Nat.lt_succ_self _, hExists, hKind⟩⟩,
    hSteady s _ (me + 1) hInv hCleared (Nat.succ_ne_self me) hMild.act⟩

theorem spec_startAnswer (seen : Seen) (cancelEpoch : Option Nat) (notifyLimit : Bool) :
    Spec (runnerProtocol cfg) me (Cleared cfg me seen cancelEpoch)
      (startAnswer seen cancelEpoch notifyLimit) fun _ _ => True := by
  have hSteady : Steady cfg me (Cleared cfg me seen cancelEpoch) := steady_cleared seen cancelEpoch
  refine (spec_calm hSteady calm_stillOwnsDialog).bind fun owns => ?_
  split
  · refine (spec_modify (B := fun _ => True) hSteady fun s _ _ => ?_).bind fun _ => ?_
    · refine ⟨.write (.still (fun hWell => ?_) rfl rfl rfl (Nat.le_refl _)) (.still rfl rfl rfl rfl rfl rfl rfl),
        trivial⟩
      exact hWell.of_same rfl rfl rfl rfl fun p hMem => ⟨p, hMem, rfl, rfl⟩
    · exact Co.triple_done fun _ _ _ => trivial
  · refine (spec_calm hSteady (calm_select _)).bind fun verdict => ?_
    cases verdict with
    | some verdict =>
        dsimp only
        split
        · exact (spec_calm hSteady (calm_tariffNoticeOnce _ _)).weaken fun _ _ hA => hA
        · exact Co.triple_done fun _ _ _ => trivial
    | none =>
        refine (spec_beginAnswer seen cancelEpoch).bind fun task => ?_
        have hBegun : Lasting cfg (Begun seen task) := lasting_begun seen task
        have hBoth := hBegun.steady.and hSteady
        refine (spec_calm hBoth (calm_select _)).bind fun _ => ?_
        refine (spec_modify (B := fun _ => True) hBoth fun s _ hReady => ?_).bind fun _ => ?_
        · obtain ⟨hBegun, hCleared⟩ := hReady
          exact ⟨.start seen task cancelEpoch hCleared.unmanned.held hBegun.own hBegun.stored
            hCleared.unmanned.alone hCleared.spacious.room hCleared.justified, trivial⟩
        · exact Co.triple_done fun _ _ _ => trivial

theorem spec_getExchange {A : World → Prop} (hSteady : Steady cfg me A) (x : ExchangeId) :
    Spec (runnerProtocol cfg) me A (getExchange x) fun seen s => ReadAs x seen s ∧ A s := by
  refine Triple.bind (spec_select (B := fun found s =>
    (∀ seen, found = some seen → ReadAs x seen s) ∧ A s) hSteady fun s hInv hA => ?_)
    fun found => ?_
  · refine ⟨fun seen hFound => ?_, hA⟩
    obtain ⟨exchange, hRead, rfl⟩ := Option.map_eq_some_iff.mp hFound
    exact readAs_now hInv hRead
  · cases found with
    | none => exact Co.triple_fail trivial
    | some seen => exact Co.triple_done fun s _ hFound => ⟨hFound.1 seen rfl, hFound.2⟩

/-! ### Room -/

/-- The runs that `_exceeds_limit` does not count belong to different exchanges,
each with a run that was told to stop. -/
theorem cancelledTasks_le {s : World} {cancelled : List ExchangeId}
    (hSound : s.discountSound cancelled = true) :
    s.cancelledTasks cancelled ≤ s.processes.countP fun p => p.cancelled := by
  have hSubset : (cancelled.dedup.filter fun x => (s.liveProcessFor x).isSome) ⊆
      (s.processes.filter fun p => p.cancelled).filterMap (·.exchangeId) := by
    intro x hMem
    obtain ⟨hCancelled, hLive⟩ := List.mem_filter.mp hMem
    simp only [World.discountSound, List.all_eq_true, Bool.or_eq_true, List.any_eq_true,
      Bool.and_eq_true, decide_eq_true_eq] at hSound
    rcases hSound x (List.mem_dedup.mp hCancelled) with hNone | ⟨p, hRun, hOwn, hStopped⟩
    · simp [Option.isNone_iff_eq_none.mp hNone] at hLive
    · exact List.mem_filterMap.mpr ⟨p, List.mem_filter.mpr ⟨hRun, hStopped⟩, hOwn⟩
  have hNodup := (List.nodup_dedup cancelled).filter fun x => (s.liveProcessFor x).isSome
  calc s.cancelledTasks cancelled
      ≤ ((s.processes.filter fun p => p.cancelled).filterMap (·.exchangeId)).length :=
        (List.subperm_of_subset hNodup hSubset).length_le
    _ ≤ (s.processes.filter fun p => p.cancelled).length := List.length_filterMap_le _ _
    _ = s.processes.countP fun p => p.cancelled := (List.countP_eq_length_filter).symm

theorem length_processes (s : World) :
    s.processes.length = s.going + s.processes.countP fun p => p.cancelled := by
  rw [World.going, List.length_eq_countP_add_countP (fun p : Process => !p.cancelled)]
  congr 2
  funext p
  cases p.cancelled <;> rfl

/-- A run that is let in has room, where what was not counted was told to stop. -/
theorem hasRoom_of_admitted {s : World} {cancelled : List ExchangeId}
    (hAdmitted : (letIn cfg cancelled s).1 = true) : HasRoom cfg (letIn cfg cancelled s).2 := by
  unfold letIn at hAdmitted ⊢
  split
  · rename_i hExceeds
    simp [hExceeds] at hAdmitted
  · rename_i hFits
    intro hNotes
    have hSound : s.discountSound cancelled = true := by
      by_contra hUnsound
      refine hNotes (.discounted (s.discountSound cancelled))
        (List.mem_append_right _ (List.mem_singleton_self _)) ?_
      rw [Bool.not_eq_true] at hUnsound
      rw [hUnsound]
    have hLimit : s.processes.length + 1 ≤ cfg.maxProcesses + s.cancelledTasks cancelled := by
      simpa [World.exceedsLimit] using hFits
    have hTold := cancelledTasks_le hSound
    have hLength := length_processes s
    show s.going + 1 ≤ cfg.maxProcesses
    omega

theorem hasRoom_of_length {s : World} (hLength : s.processes.length < cfg.maxProcesses) :
    HasRoom cfg s :=
  fun _ => Nat.lt_of_le_of_lt List.countP_le_length hLength

theorem hasRoom_of_fits {s : World} (hFits : s.exceedsLimit cfg [] = false) : HasRoom cfg s := by
  have hLimit : ¬cfg.maxProcesses + s.cancelledTasks [] < s.processes.length + 1 :=
    of_decide_eq_false hFits
  have hNone : s.cancelledTasks [] = 0 := rfl
  exact hasRoom_of_length (by omega)

/-! ### Owners -/

/-- The exchange this turn created was looked at when it was created. -/
def Known (x : ExchangeId) (known : Option Seen) (s : World) : Prop :=
  ∀ seen, known = some seen → seen.exchange.id = x ∧ LookedAt seen s

theorem lasting_known (x : ExchangeId) (known : Option Seen) : Lasting cfg (Known x known) :=
  fun s s' other hInv hKnown hAct seen hSeen =>
    ⟨(hKnown seen hSeen).1,
      lasting_lookedAt seen s s' other hInv (hKnown seen hSeen).2 hAct⟩

theorem spec_knownOrGet {A : World → Prop} (hSteady : Steady cfg me A) (x : ExchangeId)
    (known : Option Seen) :
    Spec (runnerProtocol cfg) me (fun s => Known x known s ∧ A s) (knownOrGet x known)
      fun seen s => (seen.exchange.id = x ∧ LookedAt seen s) ∧ A s := by
  cases known with
  | none =>
      refine (spec_getExchange hSteady x).mono (fun _ _ hBoth => hBoth.2) (fun seen s _ hBoth => ?_)
        fun _ hError => hError
      exact ⟨⟨hBoth.1.id, hBoth.1.looked⟩, hBoth.2⟩
  | some seen => exact Co.triple_done fun s _ hBoth => ⟨hBoth.1 seen rfl, hBoth.2⟩

theorem lasting_found (x : ExchangeId) (seen : Seen) :
    Lasting cfg fun s => seen.exchange.id = x ∧ LookedAt seen s :=
  fun s s' other hInv hFound hAct =>
    ⟨hFound.1, lasting_lookedAt seen s s' other hInv hFound.2 hAct⟩

theorem spec_ensureOwner (x : ExchangeId) (message : ChatMessage) (cancelled : List ExchangeId)
    (cancelEpoch : Nat) (known : Option Seen) :
    Spec (runnerProtocol cfg) me (fun s => Known x known s ∧ .attached x cancelEpoch ∈ s.notes)
      (ensureOwner cfg me x message cancelled cancelEpoch known) fun _ _ => True := by
  have hKnown : Lasting cfg (Known x known) := lasting_known x known
  have hNoted : Lasting cfg fun s => .attached x cancelEpoch ∈ s.notes := lasting_noted _
  have hLasting := hKnown.and hNoted
  refine spec_suppressNotFound _ (spec_withSpawnLock hLasting ?_)
  refine Triple.bind (B := fun looked s => (Known x known s ∧ .attached x cancelEpoch ∈ s.notes) ∧
      (¬(looked.liveProcessFor x).isSome → Unmanned me x s))
    (spec_read (hLasting.steady.and steady_held) fun s _ hBoth => ?_) fun looked => ?_
  · exact ⟨hBoth.1, fun hNone => ⟨hBoth.2, World.noRun_of_liveProcessFor hNone⟩⟩
  split
  · exact Co.triple_done fun _ _ _ => trivial
  -- Under the lock nobody else starts a run, so there is still none when the exchange is read.
  rename_i hNone
  have hUnmanned : Steady cfg me fun s => .attached x cancelEpoch ∈ s.notes ∧ Unmanned me x s :=
    hNoted.steady.and (steady_unmanned x)
  refine Triple.bind ((spec_knownOrGet hUnmanned x known).pre fun s _ hBoth =>
    ⟨hBoth.1.1, hBoth.1.2, hBoth.2 hNone⟩) fun seen => ?_
  have hFound : Lasting cfg fun s => seen.exchange.id = x ∧ LookedAt seen s := lasting_found x seen
  refine Triple.bind (B := fun admitted s => admitted = true →
    Cleared cfg me seen (some cancelEpoch) s)
    (spec_atomic (hFound.steady.and hUnmanned) fun s hInv hReady => ?_) fun admitted => ?_
  · -- the note of the admission is the only change
    have hAct : Act cfg (me + 1) s (letIn cfg cancelled s).2 := .calm (calm_letIn cfg cancelled s)
    refine ⟨.calm (calm_letIn cfg cancelled s), fun hAdmitted => ?_⟩
    obtain ⟨⟨rfl, hLooked⟩, hAttached, hAlone⟩ :=
      (hFound.steady.and hUnmanned) s _ _ hInv hReady (Nat.succ_ne_self me) hAct
    exact ⟨hLooked, ⟨hAlone.held, hasRoom_of_admitted hAdmitted⟩, hAlone, hAttached⟩
  · split
    · rename_i hAdmitted
      refine Triple.bind ((spec_startAnswer seen (some cancelEpoch) true).pre fun _ _ hCleared =>
        hCleared hAdmitted) fun _ => Co.triple_done fun _ _ _ => trivial
    · refine Triple.bind (Keeps.of_calm (calm_rejectForLimit cfg message)).pre fun _ => ?_
      exact Co.triple_done fun _ _ _ => trivial

theorem keeps_resumeOpenExchange (x : ExchangeId) (notifyLimit : Bool) :
    Keeps cfg me (resumeOpenExchange cfg me x notifyLimit) := by
  refine (Keeps.of_calm (calm_read _)).bind fun found => ?_
  cases found with
  | none => exact keeps_done ()
  | some message =>
      refine spec_suppressNotFound () (spec_withSpawnLock lasting_true ?_)
      refine Triple.bind ((spec_getExchange steady_held x).pre fun _ _ hBoth => hBoth.2)
        fun seen => ?_
      have hRead : Lasting cfg (ReadAs x seen) := lasting_readAs seen
      refine Triple.bind (B := fun busy s => ReadAs x seen s ∧ (¬busy = true → Unmanned me x s))
        (spec_read (hRead.steady.and steady_held) fun s _ hBoth => ?_) fun busy => ?_
      · exact ⟨hBoth.1, fun hIdle => ⟨hBoth.2, World.noRun_of_liveProcessFor hIdle⟩⟩
      split
      · exact Co.triple_done fun _ _ _ => trivial
      rename_i hProceed
      -- The exchange is open and has no run.
      obtain ⟨hOpened, hIdle⟩ := not_or.mp hProceed
      refine Triple.pre (A := fun s => ReadAs x seen s ∧ Unmanned me x s) ?_
        fun _ _ hBoth => ⟨hBoth.1, hBoth.2 hIdle⟩
      refine Triple.bind (B := fun exceeds s => exceeds = false → Cleared cfg me seen none s)
        (spec_read (hRead.steady.and (steady_unmanned x)) fun s _ hBoth hFits => ?_)
        fun exceeds => ?_
      · obtain ⟨⟨rfl, hLooked, hJustified⟩, hAlone⟩ := hBoth
        exact ⟨hLooked, ⟨hAlone.held, hasRoom_of_fits hFits⟩, hAlone,
          hJustified (not_not.mp hOpened)⟩
      split
      · split
        · exact (Keeps.of_calm (calm_rejectForLimit cfg message)).pre
        · exact Co.triple_done fun _ _ _ => trivial
      · rename_i hFits
        refine Triple.bind ((spec_startAnswer seen none notifyLimit).pre fun _ _ hCleared =>
          hCleared (by simpa using hFits)) fun _ => Co.triple_done fun _ _ _ => trivial

theorem keeps_sweepUnownedOpen : Keeps cfg me (sweepUnownedOpen cfg me) := by
  refine Keeps.bind (.tryCatch (.of_calm (calm_select _)) fun _ => keeps_done _) fun stranded => ?_
  exact .forEach fun exchange => keeps_resumeOpenExchange exchange.id false

end Starting

/-! ## A message of the user -/

section Messages

variable {cfg : RunnerConfig} {me : Nat}

theorem Retires.map (s : World) {f : Process → Process}
    (hSame : ∀ p, (f p).exchangeId = p.exchangeId)
    (hStopped : ∀ p, p.cancelled = true → (f p).cancelled = true) :
    Retires s { s with processes := s.processes.map f } :=
  { owners := by rw [owners_map rfl hSame], going := going_map rfl hStopped, status := rfl
    notes := rfl, cancelEpoch := rfl, gathered := rfl, actor := rfl, spawnLock := rfl }

theorem act_cancelProcess (s : World) (task : TaskId) : Act cfg me s (s.cancelProcess task) := by
  refine .retire (.still (fun hWell => hWell.cancelProcess task) rfl rfl rfl (Nat.le_refl _))
    (.map s (fun p => ?_) fun p hCancelled => ?_)
  · split <;> rfl
  · split
    · rfl
    · exact hCancelled

theorem keeps_modify {f : World → World} (hAct : ∀ s, Act cfg me s (f s)) :
    Keeps cfg me (Co.modify f : Work Unit) :=
  spec_modify lasting_true.steady fun s _ _ => ⟨hAct s, trivial⟩

theorem mild_setStatus_cancelled (x : ExchangeId) :
    Steps Mild (setStatus x .cancelled none none) := by
  have hRefl : ∀ s, Mild s s := fun s => (Calm.refl s).mild
  refine atoms_transactionOn hRefl fun s _ _ _ => ⟨trivial, .write fun _ _ => rfl, ?_⟩
  exact .writeRow s x (by decide) none fun e => { e with pendingQuestion := none }

theorem keeps_suppressNotFound {α : Type} {c : Work α} (value : α) (hKeeps : Keeps cfg me c) :
    Keeps cfg me (suppressNotFound value c) :=
  spec_suppressNotFound value hKeeps

theorem keeps_cancelExchanges (ids : List ExchangeId) : Keeps cfg me (cancelExchanges ids) := by
  induction ids with
  | nil => exact keeps_done []
  | cons x rest ih =>
      refine (keeps_modify fun s => ?_).bind fun _ => ?_
      · split
        · exact act_cancelProcess s _
        · exact .refl s
      · have hClose : Keeps cfg me (setStatus x .cancelled none none) :=
          .of_mild (mild_setStatus_cancelled x)
        refine (keeps_suppressNotFound [] (hClose.bind fun _ => keeps_done [x])).bind fun done => ?_
        exact ih.bind fun _ => keeps_done _

/-- The exchange that was created for the message is known. -/
def Chosen (chosen : Option (Option (ExchangeId × Option Seen))) (s : World) : Prop :=
  ∀ x known, chosen = some (some (x, known)) → Known x known s

theorem lasting_chosen (chosen : Option (Option (ExchangeId × Option Seen))) :
    Lasting cfg (Chosen chosen) :=
  fun s s' other hInv hChosen hAct x known hEq =>
    lasting_known x known s s' other hInv (hChosen x known hEq) hAct

theorem mild_openFor (message : ChatMessage) (cancelEpoch : Nat) {s : World}
    (hWell : s.WellFormed) : Mild s (openFor message cancelEpoch s).2 := by
  let noted := (s.note (.attached s.nextExchange cancelEpoch)).note
    (.created s.nextExchange cancelEpoch s.cancelEpoch)
  have hNoted : Quiet s noted := { Quiet.refl s with }
  refine ⟨(Step.quiet hNoted).trans ?_, .openFor s message cancelEpoch⟩
  exact .create (hNoted.wellFormed hWell) message.content (by decide)

theorem spec_chooseExchange (message : ChatMessage) (decision : RouteDecision)
    (cancelled : List ExchangeId) (cancelEpoch : Nat) :
    Spec (runnerProtocol cfg) me (fun _ => True)
      (chooseExchange cfg message decision cancelled cancelEpoch) Chosen := by
  have hTrue : Steady cfg me fun _ => True := lasting_true.steady
  unfold chooseExchange
  split
  · refine (spec_calm hTrue (calm_retitle _ _)).bind fun _ => ?_
    refine Co.triple_done fun _ _ _ x known hEq seen hSeen => ?_
    simp only [Option.some.injEq, Prod.mk.injEq] at hEq
    simp [← hEq.2] at hSeen
  · exact Co.triple_done fun _ _ _ _ _ hEq => by simp at hEq
  · refine (spec_calm hTrue (calm_read _)).bind fun exceeds => ?_
    split
    · exact Co.triple_done fun _ _ _ _ _ hEq => by simp at hEq
    · refine (spec_transaction (B := LookedAt) hTrue fun s hInv _ => ?_).bind fun seen => ?_
      · exact ⟨(mild_openFor message cancelEpoch hInv.1).act, looked_now _ _⟩
      · refine Co.triple_done fun s _ hLooked x known hEq seen' hSeen => ?_
        simp only [Option.some.injEq, Prod.mk.injEq] at hEq
        obtain ⟨rfl, rfl⟩ := hEq
        obtain rfl := Option.some.inj hSeen
        exact ⟨rfl, hLooked⟩

/-- The append tells everybody where the message went. -/
theorem spec_appendNarrative {A : World → Prop} (hSteady : Steady cfg me A) (message : ChatMessage)
    (stops : Nat) :
    Spec (runnerProtocol cfg) me A (Co.modify (World.appendNarrative message stops) : Work Unit)
      fun _ s => A s ∧ ∀ x, message.exchangeId = some x → .attached x stops ∈ s.notes := by
  refine spec_modify hSteady fun s hInv hA => ?_
  have hCalm : Calm s (s.appendNarrative message stops) := by
    refine { Calm.refl s with notes := ⟨_, rfl, fun n hMem => ?_⟩ }
    obtain ⟨x, -, rfl⟩ := List.mem_map.mp hMem
    trivial
  refine ⟨.calm hCalm, hSteady s _ _ hInv hA (Nat.succ_ne_self me) (.calm hCalm), ?_⟩
  intro x hOwn
  exact List.mem_append_right _ (List.mem_map.mpr ⟨x, by simp [hOwn], rfl⟩)

theorem keeps_applyRoute (message : ChatMessage) (decision : RouteDecision) (cancelEpoch : Nat)
    (live : List Exchange) :
    Keeps cfg me (applyRoute cfg me message decision cancelEpoch live) := by
  refine (keeps_cancelExchanges decision.cancelIds).bind fun cancelled => ?_
  refine (spec_chooseExchange message decision cancelled cancelEpoch).bind fun chosen => ?_
  have hChosen : Lasting cfg (Chosen chosen) := lasting_chosen chosen
  refine (spec_appendNarrative hChosen.steady _ cancelEpoch).bind fun _ => ?_
  have hAttached : Lasting cfg fun s => ∀ x, (chosen.bind id).map (·.1) = some x →
      .attached x cancelEpoch ∈ s.notes :=
    fun _ _ _ _ hNoted hAct x hOwn => hAct.notes_mono (hNoted x hOwn)
  refine (spec_calm (hChosen.and hAttached).steady (calm_attachMessage _)).bind fun _ => ?_
  cases chosen with
  | none =>
      refine Triple.bind (Keeps.of_calm (calm_rejectForLimit cfg _)).pre fun _ => ?_
      exact Co.triple_done fun _ _ _ => trivial
  | some target =>
      refine Triple.bind (B := fun _ _ => True) ?_ fun assignment => ?_
      · cases target with
        | none => exact Co.triple_done fun _ _ _ => trivial
        | some pair =>
            exact (spec_ensureOwner pair.1 _ cancelled cancelEpoch pair.2).pre fun _ _ hBoth =>
              ⟨hBoth.1 pair.1 pair.2 rfl, hBoth.2 pair.1 rfl⟩
      · refine (Keeps.of_calm (calm_nudgeStaleExchanges cfg _ live cancelled)).bind fun _ => ?_
        exact keeps_done _

/-! ### Material -/

/-- While the actor handles a command that found no collection, there is none. -/
structure Uncollected (me : Nat) (s : World) : Prop where
  turn : s.actor = some me
  none : ∀ x, s.status x ≠ some .collecting

theorem steady_uncollected : Steady cfg me (Uncollected me) := by
  intro s s' other hInv hNone hNe hAct
  refine ⟨hAct.turn hNe hNone.turn, ?_⟩
  have hOther : s.actor ≠ some other := by
    rw [hNone.turn]
    exact fun hEq => hNe (Option.some.inj hEq).symm
  cases hAct with
  | write _ hWrites => exact fun x hNow => hNone.none x (hWrites.collecting x hNow)
  | retire _ hRetires => exact hRetires.status ▸ hNone.none
  | lock _ => exact hNone.none
  | unlock _ => exact hNone.none
  | takeTurn _ => exact hNone.none
  | endTurn _ => exact hNone.none
  | collect _ hTurn _ => exact absurd hTurn hOther
  | settle _ _ _ _ hTurn => exact absurd hTurn hOther
  | start => exact hNone.none
  | restart => exact hNone.none
  | background => exact hNone.none
  | stop => exact hNone.none

theorem findCollecting_none {s : World} (hWell : s.WellFormed) (hNone : s.findCollecting = none)
    (x : ExchangeId) : s.status x ≠ some .collecting := by
  intro hCollecting
  have hStored : x < s.nextExchange := hWell.lt_of_stored (by rw [hCollecting]; rfl)
  obtain ⟨row, hRow, hStatus⟩ := Option.map_eq_some_iff.mp hCollecting
  have hMem : ({ row with id := x } : Exchange) ∈ s.allExchanges := by
    simp only [World.allExchanges, List.mem_filterMap, List.mem_range]
    exact ⟨x, hStored, by simp [World.exchange, hRow]⟩
  simp only [World.findCollecting, List.find?_eq_none] at hNone
  exact hNone _ hMem (by simp [hStatus])

theorem spec_collectingExchange (command : Submit) :
    Spec (runnerProtocol cfg) me (fun s => s.actor = some me) (collectingExchange command)
      fun _ _ => True := by
  refine Triple.bind (B := fun found s => found = none → Uncollected me s)
    (spec_select steady_turn fun s hInv hTurn hNone => ⟨hTurn, findCollecting_none hInv.1 hNone⟩)
    fun found => ?_
  cases found with
  | some exchange => exact Co.triple_done fun _ _ _ => trivial
  | none =>
      refine Triple.pre (A := Uncollected me) ?_ fun _ _ hNone => hNone rfl
      refine Triple.bind (spec_transaction (B := fun _ _ => True) steady_uncollected
        fun s _ hNone => ?_) fun exchange => Co.triple_done fun _ _ _ => trivial
      exact ⟨.collect _ hNone.turn hNone.none, trivial⟩

theorem spec_collectMaterial (message : ChatMessage) (command : Submit) :
    Spec (runnerProtocol cfg) me (fun s => s.actor = some me) (collectMaterial message command)
      fun _ _ => True := by
  have hHome : Spec (runnerProtocol cfg) me (fun s => s.actor = some me) (materialHome command)
      fun _ _ => True := by
    refine (spec_calm steady_turn (calm_select _)).bind fun live => ?_
    refine (spec_calm steady_turn (calm_read _)).bind fun answering => ?_
    cases lastUpdated answering with
    | some exchange => exact Co.triple_done fun _ _ _ => trivial
    | none => exact spec_collectingExchange command
  refine hHome.bind fun x => ?_
  refine (Keeps.of_calm (calm_appendNarrative _ _)).bind fun _ => ?_
  refine (Keeps.of_calm (calm_attachMessage _)).bind fun _ => ?_
  exact (Keeps.of_calm (calm_touch x)).bind fun _ => keeps_done x

theorem spec_handleSubmit (reply : Option RouteArguments) (command : Submit) :
    Spec (runnerProtocol cfg) me (fun s => s.actor = some me) (handleSubmit cfg me reply command)
      fun _ _ => True := by
  refine Triple.bind (B := fun _ s => s.actor = some me) (spec_calm steady_turn ?_)
    fun taken => ?_
  · refine Atoms.tryCatch ((calm_intake command).bind fun id => ?_) fun _ => Co.atoms_done _
    cases id with
    | some id => exact Co.atoms_done _
    | none => exact Co.atoms_done _
  · cases taken with
    | error handled => exact Co.triple_done fun _ _ _ => trivial
    | ok id =>
        refine (spec_calm steady_turn (calm_select _)).bind fun _ => ?_
        cases hKind : command.kind with
        | material =>
            simp only [Submit.message, hKind]
            exact (spec_collectMaterial _ command).bind fun _ => keeps_done _
        | own =>
            simp only [Submit.message, hKind]
            refine (spec_calm steady_turn (calm_select _)).bind fun live => ?_
            refine (spec_calm steady_turn (calm_route cfg command live reply)).bind
              fun decision => ?_
            refine (spec_calm steady_turn (calm_select _)).bind fun _ => ?_
            exact (keeps_applyRoute _ decision command.cancelEpoch live).pre

theorem keeps_submit (command : Submit) (reply : Option RouteArguments) :
    Keeps cfg me (submit cfg me command reply) := by
  refine Keeps.bind (.of_calm (Co.atoms_atomic fun _ _ _ _ => ⟨trivial, { Calm.refl _ with }⟩)) fun epoch => ?_
  refine keeps_onActor ((spec_handleSubmit reply { command with cancelEpoch := epoch }).bind
    fun _ => keeps_done ())

end Messages

/-! ## The stop button, questions and finished runs -/

section Endings

variable {cfg : RunnerConfig} {me : Nat}

theorem keeps_cancel : Keeps cfg me cancel := by
  refine (keeps_modify fun s => .stop).bind fun _ => ?_
  refine (Keeps.of_calm (calm_select _)).bind fun live => ?_
  refine .forEach fun exchange => (Keeps.of_calm (calm_read _)).bind fun parked => ?_
  split
  · exact .of_mild (mild_setStatus_cancelled exchange.id)
  · exact keeps_done ()

theorem spec_setStatus_looked {x : ExchangeId} {look : Look} {status : ExchangeStatus}
    (hStatus : status ≠ .collecting) (question : Option String) :
    Spec (runnerProtocol cfg) me (Looked x look) (setStatus x status (some look) question)
      fun _ _ => True :=
  spec_transactionOn (lasting_looked look).steady fun _ _ hLooked _ =>
    ⟨(hLooked.mild hStatus fun e => { e with pendingQuestion := question }).act, trivial⟩

/-- The look an asking run took when it began to ask. -/
def LookedPair (asking : Option (ExchangeId × Look)) (s : World) : Prop :=
  ∀ x look, asking = some (x, look) → Looked x look s

theorem act_beginAsk (s : World) (task : TaskId) : Act cfg me s (beginAsk task s).2 := by
  have hWell : s.WellFormed → (beginAsk task s).2.WellFormed := fun hWell => hWell.beginAsk task
  unfold beginAsk at hWell ⊢
  split
  · exact .refl s
  · rename_i x hOwn
    simp only [hOwn] at hWell
    refine .retire (.still hWell rfl rfl rfl (Nat.le_refl _)) (.map s (fun p => ?_) fun p hCancelled => ?_)
    · split <;> rfl
    · split
      · exact hCancelled
      · exact hCancelled

theorem keeps_askUser (task : TaskId) (question : String) :
    Keeps cfg me (askUser task question) := by
  refine Triple.bind (B := LookedPair) (spec_atomic lasting_true.steady fun s hInv _ => ?_)
    fun asking => ?_
  · have hAct : Act cfg me s (beginAsk task s).2 := act_beginAsk s task
    refine ⟨hAct, fun x look hAsking => ?_⟩
    unfold beginAsk at hAsking
    split at hAsking
    · simp at hAsking
    · simp only [Option.some.injEq, Prod.mk.injEq] at hAsking
      obtain ⟨rfl, rfl⟩ := hAsking
      exact (looked_now s _).step (hAct.step hInv.1)
  · cases asking with
    | none => exact Co.triple_done fun _ _ _ => trivial
    | some pair =>
        obtain ⟨x, look⟩ := pair
        have hLooked : Lasting cfg (Looked x look) := lasting_looked look
        refine Triple.pre (A := Looked x look) ?_ fun _ _ hPair => hPair x look rfl
        refine (spec_calm hLooked.steady (calm_deliverNotice question (some x))).bind fun _ => ?_
        refine Triple.bind (spec_suppressNotFound ()
          (spec_setStatus_looked (by decide) (some question))) fun _ => ?_
        exact Co.triple_done fun _ _ _ => trivial

theorem spec_settleTo (x : ExchangeId) (task : TaskId) (status : ExchangeStatus)
    (keepIfAwaiting : Bool) :
    Spec (runnerProtocol cfg) me (fun s => s.actor = some me)
      (settleTo x task status keepIfAwaiting) fun _ _ => True :=
  spec_transaction steady_turn fun _ _ hTurn =>
    ⟨.settle x task status keepIfAwaiting hTurn, trivial⟩

theorem spec_settleExchange (command : Terminated) :
    Spec (runnerProtocol cfg) me (fun s => s.actor = some me) (settleExchange cfg me command)
      fun _ _ => True := by
  unfold settleExchange
  split
  · exact Co.triple_done fun _ _ _ => trivial
  · dsimp only
    split
    · refine (spec_settleTo _ _ _ _).bind fun settled => ?_
      split
      · exact keeps_resumeOpenExchange _ true
      · exact keeps_done ()
    · refine (spec_settleTo _ _ _ _).bind fun settled => ?_
      split
      · exact Keeps.of_calm (calm_touch _)
      · exact keeps_done ()
    · exact (spec_settleTo _ _ _ _).bind fun _ => keeps_done ()

theorem spec_handleTerminated (command : Terminated) :
    Spec (runnerProtocol cfg) me (fun s => s.actor = some me) (handleTerminated cfg me command)
      fun _ _ => True := by
  refine (spec_settleExchange command).bind fun _ => ?_
  refine (Keeps.of_calm (calm_of_still (still_modify (still_enqueueTerminal command)))).bind fun _ => ?_
  refine (Keeps.of_calm calm_flushDeliveries).bind fun _ => ?_
  exact keeps_sweepUnownedOpen

theorem spec_nextTerminated :
    Spec (runnerProtocol cfg) me (fun s => s.actor = some me) (nextTerminated cfg me)
      fun _ _ => True := by
  refine Triple.bind (B := fun _ s => s.actor = some me) (spec_atomic steady_turn
    fun s _ hTurn => ⟨.write ?_ (.still rfl rfl rfl rfl rfl rfl rfl), hTurn⟩) fun command => ?_
  · exact .still (fun hWell => hWell.of_processes fun p hMem => ⟨p, hMem, rfl, rfl⟩) rfl rfl rfl
      (Nat.le_refl _)
  · cases command with
    | none => exact Co.triple_done fun _ _ _ => trivial
    | some command => exact spec_handleTerminated command

theorem mild_finishTask (task : TaskId) (status : TaskStatus) :
    Steps Mild (execute (World.finishTask task status)) := by
  have hRefl : ∀ s, Mild s s := fun s => (Calm.refl s).mild
  refine atoms_transaction hRefl fun s _ _ => ⟨trivial, ?_, .still rfl rfl rfl rfl rfl rfl rfl⟩
  exact .still (fun hWell => hWell.finishTask task status) rfl rfl rfl (Nat.le_refl _)

theorem act_terminateProcess (s : World) (task : TaskId) (status : TaskStatus) (unseen : Unseen)
    (terminal : Option String) (deliveredLive : Bool) :
    Act cfg me s (s.terminateProcess task status unseen terminal deliveredLive) := by
  have hWell : s.WellFormed →
      (s.terminateProcess task status unseen terminal deliveredLive).WellFormed :=
    fun hWell => hWell.terminateProcess task status unseen terminal deliveredLive
  unfold World.terminateProcess at hWell ⊢
  split
  · exact .refl s
  · rename_i p hProcess
    simp only [hProcess] at hWell
    have hSublist := List.eraseP_sublist (p := fun q : Process => q.task = task) (l := s.processes)
    exact .retire (.still hWell rfl rfl rfl (Nat.le_refl _))
      { owners := hSublist.filterMap _, going := hSublist.countP_le, status := rfl
        notes := rfl, cancelEpoch := rfl, gathered := rfl, actor := rfl, spawnLock := rfl }

theorem keeps_pumpProcess (task : TaskId) (terminal : Terminal) (unseen : Unseen)
    (deliveredLive : Bool) : Keeps cfg me (pumpProcess task terminal unseen deliveredLive) := by
  refine (Keeps.of_calm (calm_read _)).bind fun running => ?_
  split
  · have hFinish : Keeps cfg me (execute (World.finishTask task terminal.taskStatus)) :=
      .of_mild (mild_finishTask task terminal.taskStatus)
    refine Keeps.bind (.tryCatch (hFinish.bind fun _ => keeps_done _) fun _ => keeps_done _)
      fun status => ?_
    exact keeps_modify fun s => act_terminateProcess s task status unseen _ deliveredLive
  · exact keeps_done ()

theorem keeps_startBackground (title : String) : Keeps cfg me (startBackground cfg me title) := by
  refine spec_withSpawnLock lasting_true ?_
  refine Triple.bind (B := fun full s => ¬full = true → Spacious cfg me s)
    ((spec_read steady_held fun s _ hHeld hRoom => ?_).pre fun _ _ hBoth => hBoth.2)
    fun full => ?_
  · exact ⟨hHeld, hasRoom_of_length (by simpa using hRoom)⟩
  split
  · exact Co.triple_done fun _ _ _ => trivial
  rename_i hRoom
  refine Triple.pre (A := Spacious cfg me) ?_ fun _ _ hSpacious => hSpacious hRoom
  refine Triple.bind (B := fun task s => (task.exchangeId = none ∧ s.HasTask task) ∧
    Spacious cfg me s) (spec_transaction steady_spacious fun s hInv hSpacious => ?_) fun task => ?_
  · have hNone : Exists none s := fun x hEq => by simp at hEq
    have hAdd : Mild s (s.addTask .run none title).2 := .addTask hNone (fun _ => rfl) title
    exact ⟨hAdd.act, ⟨rfl, World.hasTask_addTask hNone fun _ => rfl⟩, hSpacious.act (Nat.succ_ne_self me) hAdd.act⟩
  · have hOwn : Lasting cfg fun s => task.exchangeId = none ∧ s.HasTask task :=
      fun s s' other hInv hOwn hAct =>
        ⟨hOwn.1, lasting_hasTask task s s' other hInv hOwn.2 hAct⟩
    refine (spec_modify (B := fun _ => True) (hOwn.steady.and steady_spacious)
      fun s _ hBoth => ?_).bind fun _ => Co.triple_done fun _ _ _ => trivial
    exact ⟨.background task hBoth.2.held hBoth.1.1 hBoth.1.2 hBoth.2.room, trivial⟩

theorem keeps_spawnTask (title : String) : Keeps cfg me (spawnTask cfg me title) := by
  refine (Keeps.of_calm (calm_select _)).bind fun verdict => ?_
  cases verdict with
  | some _ => exact keeps_done false
  | none => exact keeps_startBackground title

theorem keeps_wake (title cronJobId : String) : Keeps cfg me (wake cfg me title cronJobId) := by
  refine (Keeps.of_calm (calm_select _)).bind fun verdict => ?_
  cases verdict with
  | some verdict =>
      exact (Keeps.of_calm (calm_tariffNoticeOnce _ _)).bind fun _ => keeps_done false
  | none =>
      refine (keeps_startBackground title).bind fun started => ?_
      split
      · exact keeps_done true
      · refine (Keeps.of_calm (calm_read _)).bind fun titles => ?_
        exact (Keeps.of_calm (calm_deliverNotice _ none)).bind fun _ => keeps_done false

end Endings

/-! ## Collected material -/

section Promotion

variable {cfg : RunnerConfig} {me : Nat}

/-- The exchange was looked at when it was read. -/
def SeenAt (found : Option Seen) (s : World) : Prop := ∀ seen, found = some seen → LookedAt seen s

theorem lasting_seenAt (found : Option Seen) : Lasting cfg (SeenAt found) :=
  fun s s' other hInv hSeen hAct seen hEq =>
    lasting_lookedAt seen s s' other hInv (hSeen seen hEq) hAct

theorem spec_materialTarget (collection : Exchange) (reply : Option RouteArguments) :
    Spec (runnerProtocol cfg) me (fun _ => True) (materialTarget collection reply) SeenAt := by
  refine Triple.bind (spec_select (B := fun items s => ∀ seen ∈ items, LookedAt seen s)
    lasting_true.steady fun s _ _ seen hMem => ?_) fun items => ?_
  · obtain ⟨e, -, rfl⟩ := List.mem_map.mp hMem
    exact looked_now s e.id
  · dsimp only
    have hItems : Lasting cfg fun s => ∀ seen ∈ items, LookedAt seen s :=
      fun s s' other hInv hItems hAct seen hMem =>
        lasting_lookedAt seen s s' other hInv (hItems seen hMem) hAct
    split
    · exact Co.triple_done fun _ _ _ seen hSeen => by simp at hSeen
    · refine (spec_calm hItems.steady (calm_select _)).bind fun _ => ?_
      split
      · refine Co.triple_done fun _ _ hItems seen hSeen => hItems seen ?_
        exact List.mem_of_mem_filter (List.mem_of_find?_eq_some hSeen)
      · exact Co.triple_done fun _ _ _ seen hSeen => by simp at hSeen

/-- An exchange that was looked at is opened and resumed. -/
theorem spec_openAndResume (seen : Seen) :
    Spec (runnerProtocol cfg) me (LookedAt seen)
      (do setStatus seen.exchange.id .opened (some seen.look) none
          resumeOpenExchange cfg me seen.exchange.id false) fun _ _ => True :=
  Triple.bind (spec_setStatus_looked (by decide) none) fun _ =>
    keeps_resumeOpenExchange seen.exchange.id false

theorem spec_reparentMaterial (collection : Exchange) (target : Seen) :
    Spec (runnerProtocol cfg) me (LookedAt target) (reparentMaterial cfg me collection target)
      fun _ _ => True := by
  have hLasting : Lasting cfg (LookedAt target) := lasting_lookedAt target
  have hSteady : Steady cfg me (LookedAt target) := hLasting.steady
  refine (spec_calm hSteady (calm_relabel _ _)).bind fun rows => ?_
  refine (spec_calm hSteady (Atoms.forEach fun id _ => calm_setExchange id _)).bind fun _ => ?_
  refine (spec_mild hSteady (mild_setStatus_cancelled collection.id)).bind fun _ => ?_
  refine (spec_calm hSteady (calm_touch _)).bind fun _ => ?_
  refine (spec_calm hSteady (calm_read _)).bind fun busy => ?_
  split
  · exact Co.triple_done fun _ _ _ => trivial
  · exact spec_openAndResume target

theorem keeps_handlePromote (x : ExchangeId) (reply : Option RouteArguments) :
    Keeps cfg me (handlePromote cfg me x reply) := by
  refine Triple.bind (spec_select (B := SeenAt) lasting_true.steady fun s hInv _ seen hSeen => ?_)
    fun found => ?_
  · obtain ⟨exchange, hRead, rfl⟩ := Option.map_eq_some_iff.mp hSeen
    exact (readAs_now hInv hRead).looked
  · cases found with
    | none => exact Co.triple_done fun _ _ _ => trivial
    | some seen =>
        have hLasting : Lasting cfg (SeenAt (some seen)) := lasting_seenAt (some seen)
        refine (spec_calm hLasting.steady (calm_read _)).bind fun now => ?_
        split
        · exact Co.triple_done fun _ _ _ => trivial
        · refine Triple.bind (((spec_materialTarget seen.exchange reply).frame hLasting.kept).pre
            fun _ _ hKnown => ⟨trivial, hKnown⟩) fun target => ?_
          cases target with
          | some target =>
              exact (spec_reparentMaterial seen.exchange target).pre
                fun _ _ hBoth => hBoth.1 target rfl
          | none => exact (spec_openAndResume seen).pre fun _ _ hBoth => hBoth.2 seen rfl

end Promotion

/-! ## Recovery -/

section Recovery

variable {cfg : RunnerConfig} {me : Nat}

theorem mild_failTask (task : TaskId) (error : String) : Steps Mild (failTask task error) := by
  refine (mild_finishTask task .failed).bind fun _ => mild_of_calm ?_
  refine Atoms.bind (calm_modify fun s => ?_) fun _ => calm_flushDeliveries
  exact { Calm.refl s with }

theorem mild_admitOrphaned (task : Task) : Steps Mild (admitOrphaned task) := by
  refine (mild_of_calm (calm_select _)).bind fun verdict => ?_
  cases verdict with
  | none => exact Co.atoms_done true
  | some verdict => exact (mild_failTask _ _).bind fun _ => Co.atoms_done false

/-- A task that is about to be restarted under the spawn lock, where there is
room. -/
structure Orphan (cfg : RunnerConfig) (me : Nat) (task : Task) (s : World) : Prop where
  spacious : Spacious cfg me s
  stored : s.HasTask task

theorem steady_orphan (task : Task) : Steady cfg me (Orphan cfg me task) :=
  fun s s' other hInv hOrphan hNe hAct =>
    ⟨hOrphan.spacious.act hNe hAct,
      lasting_hasTask task s s' other hInv hOrphan.stored hAct⟩

theorem spec_startOrphanedAnswer {task : Task} {x : ExchangeId}
    (hOwn : task.exchangeId = some x) :
    Spec (runnerProtocol cfg) me (Orphan cfg me task) (startOrphanedAnswer task x)
      fun _ _ => True := by
  refine Triple.bind (spec_select (B := fun look s => Looked x look s ∧ Orphan cfg me task s)
    (steady_orphan task) fun s _ hOrphan => ⟨looked_now s x, hOrphan⟩) fun look => ?_
  have hLooked : Lasting cfg (Looked x look) := lasting_looked look
  have hOrphan : Steady cfg me (Orphan cfg me task) := steady_orphan task
  have hBoth := hLooked.steady.and hOrphan
  split
  · exact (Keeps.of_mild (mild_finishTask task.id .done)).pre
  · refine (spec_mild hBoth (mild_admitOrphaned task)).bind fun admitted => ?_
    split
    · exact (spec_suppressNotFound () (spec_setStatus_looked (by decide) none)).pre
        fun _ _ hReady => hReady.1
    · refine (spec_calm hBoth (calm_select _)).bind fun _ => ?_
      refine Triple.bind (B := fun _ => Looked x look) (spec_modify hBoth fun s hInv hReady => ?_)
        fun _ => spec_suppressNotFound () (spec_setStatus_looked (by decide) none)
      obtain ⟨hLook, hOrphan⟩ := hReady
      have hAct : Act cfg me s (restartProcess task x s) :=
        .restart task x hOrphan.spacious.held hOwn hOrphan.stored hOrphan.spacious.room
      exact ⟨hAct, hLook.step (hAct.step hInv.1)⟩

theorem spec_startOrphaned (task : Task) :
    Spec (runnerProtocol cfg) me (Orphan cfg me task) (startOrphaned task) fun _ _ => True := by
  have hSteady : Steady cfg me (Orphan cfg me task) := steady_orphan task
  have hCreate : (task.exchangeId = none ∨ task.kind = .run) →
      Spec (runnerProtocol cfg) me (Orphan cfg me task)
        (Co.modify fun s => s.createProcess task false : Work Unit) fun _ _ => True := by
    intro hNone
    refine spec_modify hSteady fun s _ hOrphan => ⟨?_, trivial⟩
    have hOwn : task.exchangeId = none := hNone.elim id hOrphan.stored.background
    exact .background task hOrphan.spacious.held hOwn hOrphan.stored hOrphan.spacious.room
  unfold startOrphaned
  split
  · rename_i x _ hOwn
    exact spec_startOrphanedAnswer hOwn
  · rename_i _ hOwn
    refine (spec_mild hSteady (mild_admitOrphaned task)).bind fun admitted => ?_
    split
    · exact (spec_calm hSteady (calm_select _)).bind fun _ => hCreate (Or.inl hOwn)
    · exact Co.triple_done fun _ _ _ => trivial
  · rename_i hKind
    refine (spec_mild hSteady (mild_admitOrphaned task)).bind fun admitted => ?_
    split
    · exact hCreate (Or.inr hKind)
    · exact Co.triple_done fun _ _ _ => trivial

theorem spec_restartTask (task : Task) :
    Spec (runnerProtocol cfg) me (fun s => s.HasTask task) (restartTask cfg me task)
      fun _ _ => True := by
  have hTask : Lasting cfg fun s => s.HasTask task := lasting_hasTask task
  refine Triple.bind (spec_withSpawnLock hTask ?_) fun started => ?_
  · refine Triple.bind (B := fun room s => room = true → Orphan cfg me task s)
      (spec_read (hTask.steady.and steady_held) fun s _ hBoth hRoom => ?_) fun room => ?_
    · exact ⟨⟨hBoth.2, hasRoom_of_length (of_decide_eq_true hRoom)⟩, hBoth.1⟩
    split
    · rename_i hRoom
      refine Triple.bind ((spec_startOrphaned task).pre fun _ _ hOrphan =>
        hOrphan hRoom) fun _ => Co.triple_done fun _ _ _ => trivial
    · exact Co.triple_done fun _ _ _ => trivial
  · split
    · exact keeps_done ()
    · exact Keeps.of_mild (mild_failTask task.id restartLimitError)

theorem hasTask_of_mem_listOrphaned {s : World} (hWell : s.WellFormed) {task : Task}
    (hMem : task ∈ s.listOrphaned) : s.HasTask task := by
  simp only [World.listOrphaned, World.allTasks, List.mem_filter, List.mem_filterMap] at hMem
  obtain ⟨⟨id, -, hTask⟩, -⟩ := hMem
  exact hWell.tasks id task hTask

/-- What recovery knows of the tasks it restarts. -/
def Orphans (orphaned : List Task) (s : World) : Prop := ∀ task ∈ orphaned, s.HasTask task

theorem lasting_orphans (orphaned : List Task) : Lasting cfg (Orphans orphaned) :=
  fun s s' other hInv hAll hAct task hMem =>
    lasting_hasTask task s s' other hInv (hAll task hMem) hAct

theorem keeps_recoverDialog : Keeps cfg me (recoverDialog cfg me) := by
  have hReopen : Steps Mild (transaction fun s => (s.reopen.listUnownedOpen, s.reopen)) :=
    atoms_transaction (fun s => (Calm.refl s).mild) fun s _ _ => ⟨trivial, .reopen s, .reopen s⟩
  refine Keeps.bind (.tryCatch (.of_mild hReopen) fun _ => keeps_done _) fun stranded => ?_
  refine Triple.bind (Triple.tryCatch (B := Orphans) (spec_select lasting_true.steady
    fun s hInv _ task hMem => hasTask_of_mem_listOrphaned hInv.1 hMem)
    fun _ _ => Co.triple_done fun _ _ _ task hMem => by simp at hMem) fun orphaned => ?_
  have hOrphans : Lasting cfg (Orphans orphaned) := lasting_orphans orphaned
  refine Triple.bind (B := fun _ _ => True) (Triple.mono (Triple.forEach (A := Orphans orphaned)
    fun task hMem => ?_) (fun _ _ hAll => hAll) (fun _ _ _ _ => trivial) fun _ hError => hError)
    fun _ => ?_
  · have hRestart : Spec (runnerProtocol cfg) me (fun s => s.HasTask task)
        (Co.tryCatch (restartTask cfg me task) fun _ => pure () : Work Unit) fun _ _ => True :=
      Triple.tryCatch (spec_restartTask task) fun _ _ => Co.triple_done fun _ _ _ => trivial
    exact (hRestart.frame hOrphans.kept).mono (fun _ _ hAll => ⟨hAll task hMem, hAll⟩)
      (fun _ _ _ hBoth => hBoth.2) fun _ hError => hError
  · split
    · exact keeps_done ()
    · exact Keeps.tryCatch keeps_sweepUnownedOpen fun _ => keeps_done ()

end Recovery

/-! ## The runner as a system -/

section System

variable {cfg : RunnerConfig}

theorem keeps_body (call : ConversationCall) (me : Nat) :
    Keeps cfg me (conversationBody cfg call me) := by
  cases call with
  | submit command reply => exact keeps_submit command reply
  | cancel => exact keeps_cancel
  | askUser task question => exact (keeps_askUser task question).bind fun _ => keeps_done ()
  | pump task terminal unseen deliveredLive =>
      exact keeps_pumpProcess task terminal unseen deliveredLive
  | terminated => exact keeps_onActor spec_nextTerminated
  | spawnTask title => exact (keeps_spawnTask title).bind fun _ => keeps_done ()
  | wake title cronJobId => exact (keeps_wake title cronJobId).bind fun _ => keeps_done ()
  | deleteTask task => exact keeps_modify fun s => act_cancelProcess s task
  | promote x reply => exact keeps_onActor (keeps_handlePromote x reply).pre
  | recover => exact keeps_recoverDialog

theorem conversation_follows (cfg : RunnerConfig) :
    (conversation cfg).Follows (runnerProtocol cfg) where
  body_safe call me s hInv := (keeps_body call me s hInv trivial).mono fun _ _ _ => trivial
  event_env event s s' hInv hEvent := by
    have hCalm := calm_event event hEvent
    have hAct : Act cfg 0 s s' := .calm hCalm
    exact ⟨hAct.inv hInv, hCalm⟩
  crash_inv s s' hInv hCrash := by
    obtain rfl := Option.some.inj hCrash
    exact ⟨(Step.restart s).wellFormed hInv.1, fun _ x _ stop hStop => absurd hStop (Nat.not_lt_zero stop)⟩

/-- One move of a run: a step of somebody's, or a crash. -/
inductive Moved (cfg : RunnerConfig) (s : World) : World → Prop
  | act {s' : World} (me : Nat) (hAct : Act cfg me s s') : Moved cfg s s'
  | crash : Moved cfg s s.restart

theorem Moved.of_promised {s s' : World}
    (hPromised : System.Promised (conversation cfg) (runnerProtocol cfg) s s') :
    Moved cfg s s' := by
  cases hPromised with
  | idle hEq =>
      subst hEq
      exact .act 0 (.refl _)
  | guarantee me hAct => exact .act me hAct
  | env hCalm => exact .act 0 (.calm hCalm)
  | crash hCrash =>
      obtain rfl := Option.some.inj hCrash
      exact .crash

/-- A runner that was just built, over any tables. -/
structure World.Fresh (s : World) : Prop extends s.WellFormed where
  processes_eq : s.processes = []
  cancelEpoch_eq : s.cancelEpoch = 0
  notes_eq : s.notes = []

theorem World.Fresh.empty : ({} : World).Fresh where
  toWellFormed := .empty
  processes_eq := rfl
  cancelEpoch_eq := rfl
  notes_eq := rfl

theorem World.Fresh.safe {s : World} (hFresh : s.Fresh) :
    System.PoolSafe (runnerProtocol cfg) ({ st := s } : Pool World StoreError) := by
  refine System.PoolSafe.initial ⟨hFresh.toWellFormed, fun _ x _ stop hStop => ?_⟩
  rw [hFresh.cancelEpoch_eq] at hStop
  exact absurd hStop (Nat.not_lt_zero stop)

/-- The induction rule for runs: what every move keeps holds in every state. -/
theorem run_preserves {A : World → Prop} {p q : Pool World StoreError}
    (hKeep : ∀ s s', (runnerProtocol cfg).inv s → A s → Moved cfg s s' → A s')
    (hSafe : System.PoolSafe (runnerProtocol cfg) p) (hA : A p.st)
    (hRun : (conversation cfg).Run p q) : A q.st :=
  hRun.preserves (conversation_follows cfg)
    (fun s s' hInv hBefore hPromised => hKeep s s' hInv hBefore (.of_promised hPromised)) hSafe hA

end System

end Conversation
end OctoForge
