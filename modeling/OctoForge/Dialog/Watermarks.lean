import Mathlib.Data.List.Nodup
import OctoForge.Dialog.Steps

/-!
# Watermarks

Every coroutine of the runner takes only the steps of `Step`, whatever the
others do meanwhile.  The one that needs an argument is the assemble: between
its snapshot and its trim it is suspended several times, and what it knows
about the list it cut its tail from is protected by the lock.

So the invariant holds in every state of every run, and with it the reading of
a watermark: behind it are exactly the messages appended after the snapshot of
the run's last assemble.
-/

namespace OctoForge
namespace Dialog

open Coop
open Co (Safe Atoms Secure)
open Sequence (Numbered)

/-- What the coroutines of a runner promise each other. -/
def narrativeProtocol (cfg : NarrativeConfig) : Protocol Dialogue where
  inv := Sound
  guarantee := Step cfg
  env := Untouched

section Protocol

variable {cfg : NarrativeConfig} {me : Nat} {α : Type}

theorem Sound.untouched {s s' : Dialogue} (hSound : Sound s) (hUntouched : Untouched s s') :
    Sound s' :=
  hSound.step (Step.stored hUntouched : Step {} 0 s s')

theorem guarantee_idle (s : Dialogue) : (narrativeProtocol cfg).guarantee me s s :=
  .stored (Untouched.refl s)

/-- An atom is fine as soon as it is a step. -/
theorem atomOk_of_step {ready : Dialogue → Bool} {act : Dialogue → Dialogue}
    (hStep : ∀ s, Step cfg me s (act s)) :
    Co.AtomOk (narrativeProtocol cfg) me (fun _ => True) ready act :=
  fun s hSound _ _ => ⟨Sound.step hSound (hStep s), hStep s⟩

theorem secure_transaction {f : Dialogue → α × Dialogue}
    (hStored : ∀ s, Untouched s (f s).2) :
    Secure (narrativeProtocol cfg) me (transaction f) := by
  refine Atoms.secure (Co.atoms_attempt (atomOk_of_step fun s => ?_))
  by_cases hDown : s.storeDown = true
  · simp only [hDown, if_true]
    exact .stored (Untouched.refl s)
  · simp only [hDown]
    exact .stored (hStored s)

theorem secure_select (f : Dialogue → α) : Secure (narrativeProtocol cfg) me (select f) :=
  secure_transaction Untouched.refl

theorem secure_read (f : Dialogue → α) :
    Secure (narrativeProtocol cfg) me (Co.read f : Work α) :=
  Atoms.secure (Co.atoms_read guarantee_idle)

theorem secure_modify {f : Dialogue → Dialogue} (hStep : ∀ s, Step cfg me s (f s)) :
    Secure (narrativeProtocol cfg) me (Co.modify f : Work Unit) :=
  Atoms.secure (Co.atoms_modify (atomOk_of_step hStep))

theorem secure_atomic {f : Dialogue → α × Dialogue} (hStep : ∀ s, Step cfg me s (f s).2) :
    Secure (narrativeProtocol cfg) me (Co.atomic f : Work α) :=
  Atoms.secure (Co.atoms_atomic (atomOk_of_step hStep))

/-! ## The assemble -/

/-- Nobody but its holder moves the lock. -/
theorem Step.keeps_lock {other : Nat} {s s' : Dialogue} {a : Assembling}
    (hStep : Step cfg other s s') (hHeld : s.assembling = some a) (hOther : a.holder ≠ other) :
    s'.assembling = some a := by
  cases hStep with
  | stored hUntouched => exact hUntouched.assembling.trans hHeld
  | appended messages => exact hHeld
  | moved collection target position => exact hHeld
  | wrote id message => exact hHeld
  | retried id =>
      rcases takeOverflowRetry_eq s id with hEq | hEq <;> rw [hEq] <;> exact hHeld
  | launched prompt own => exact hHeld
  | terminated id =>
      rcases terminateProcess_eq s id with hEq | ⟨p, _, hEq⟩ <;> rw [hEq] <;> exact hHeld
  | acquired purpose own hFree hFits => simp [hFree] at hHeld
  | snapped count hHeld' hMe hNew =>
      obtain rfl := Option.some.inj (hHeld.symm.trans hHeld')
      exact absurd hMe hOther
  | finished assembled liveIds hHeld' hMe hSnapshot hTail hLen hAppended =>
      obtain rfl := Option.some.inj (hHeld.symm.trans hHeld')
      exact absurd hMe hOther
  | released hHeld' hMe =>
      obtain rfl := Option.some.inj (hHeld.symm.trans hHeld')
      exact absurd hMe hOther

/-- The holder keeps the lock, with everything it has noted there. -/
def Holds (a : Assembling) (s : Dialogue) : Prop := Sound s ∧ s.assembling = some a

theorem stable_holds {a : Assembling} (hMe : a.holder = me) :
    (narrativeProtocol cfg).Stable me (Holds a) := by
  intro s s' hHolds hRely
  obtain ⟨hSound', ⟨other, hOther, hStep⟩ | hEnv⟩ := hRely
  · refine ⟨hSound', Step.keeps_lock hStep hHolds.2 ?_⟩
    rw [hMe]
    exact hOther.symm
  · exact ⟨hSound', hEnv.assembling.trans hHolds.2⟩

/-- A read under the lock. -/
theorem safe_select_bind {β : Type} {a : Assembling} {f : Dialogue → α} {rest : α → Work β}
    {post : Except RunError β → Dialogue → Prop} {s : Dialogue} (hMe : a.holder = me)
    (hHolds : Holds a s) (hError : ∀ error t, Sound t → post (.error error) t)
    (hRest : ∀ value t, Holds a t → Safe (narrativeProtocol cfg) me post (rest value) t) :
    Safe (narrativeProtocol cfg) me post ((select f).bind rest) s := by
  rw [Co.safe_bind]
  refine Co.safe_readOnly guarantee_idle (readOnly_select f) (stable_holds hMe) hHolds ?_
  intro r t hHolds'
  cases r with
  | ok value => exact hRest value t hHolds'
  | error error => exact hError error t hHolds'.1

/-- What the assemble knows at its end: the lock is still its own, and the
snapshot noted there is the one it returns. -/
def Returns (me : Nat) (purpose : Purpose) (own : Option ExchangeId) (assembled : Assembled)
    (s : Dialogue) : Prop :=
  ∃ snapshot, Holds { holder := me, purpose, own, snapshot := some snapshot } s ∧
    assembled.tail = snapshot.tail ∧ assembled.snapshotLen = snapshot.len ∧
    assembled.appended = snapshot.appended

theorem stable_returns (purpose : Purpose) (own : Option ExchangeId) (assembled : Assembled) :
    (narrativeProtocol cfg).Stable me (Returns me purpose own assembled) := by
  intro s s' hReturns hRely
  obtain ⟨snapshot, hHolds, hSame⟩ := hReturns
  exact ⟨snapshot, stable_holds rfl s s' hHolds hRely, hSame⟩

theorem safe_startCompact {a : Assembling} {s : Dialogue} (hMe : a.holder = me)
    (hHolds : Holds a s) {post : Except RunError Unit → Dialogue → Prop}
    (hPost : ∀ t, Holds a t → post (.ok ()) t) :
    Safe (narrativeProtocol cfg) me post startCompact s := by
  refine Co.safe_await (Holds a) (stable_holds hMe) hHolds fun t hHolds' hSound _ => ?_
  have hUntouched : Untouched t { t with compacting := true } := ⟨rfl, rfl, rfl, rfl, rfl, rfl, rfl⟩
  have hSound' := Sound.untouched hSound hUntouched
  exact ⟨hSound', .stored hUntouched, hPost _ ⟨hSound', hHolds'.2⟩⟩

theorem safe_triggerCompact {a : Assembling} {s : Dialogue} (hMe : a.holder = me)
    (hHolds : Holds a s) (tail : List Entry) (afterSeq : Nat)
    {post : Except RunError Unit → Dialogue → Prop}
    (hPost : ∀ t, Holds a t → post (.ok ()) t)
    (hError : ∀ error t, Sound t → post (.error error) t) :
    Safe (narrativeProtocol cfg) me post (triggerCompact cfg tail afterSeq) s := by
  have hDecided : ∀ (overflows : Bool) t, Holds a t →
      Safe (narrativeProtocol cfg) me post
        (if overflows then startCompact else pure ()) t := by
    intro overflows t hHolds'
    cases overflows with
    | true => exact safe_startCompact hMe hHolds' hPost
    | false => exact hPost t hHolds'
  unfold triggerCompact
  split
  · exact hDecided true s hHolds
  · unfold tokenOverflow
    split
    · exact hDecided false s hHolds
    · simp only [Co.bind_eq, Co.bind_assoc]
      refine safe_select_bind hMe hHolds hError fun tokens t hHolds' => ?_
      cases tokens with
      | none => exact hDecided false t hHolds'
      | some promptTokens => exact hDecided _ t hHolds'

theorem safe_assemble {purpose : Purpose} {own : Option ExchangeId} {s : Dialogue}
    (hHolds : Holds { holder := me, purpose, own } s) :
    Safe (narrativeProtocol cfg) me
      (fun r t => ∀ assembled, r = .ok assembled → Returns me purpose own assembled t)
      (assemble cfg) s := by
  unfold assemble
  simp only [Co.bind_eq]
  rw [Co.safe_bind]
  refine Co.safe_gather_readOnly (Q := fun _ => Holds { holder := me, purpose, own })
    guarantee_idle (fun _ => stable_holds rfl) ?_ (fun _ _ _ => nofun) (readOnly_select _) hHolds.1
    (Co.safe_readOnly guarantee_idle (readOnly_select _) (stable_holds rfl) hHolds
      fun _ _ hHolds' _ _ => hHolds')
  rintro summaries ⟨counted, countedBoundary⟩ t hHoldsRead
  simp only [Co.continuePost_ok]
  -- the snapshot and everything after it
  have hRest : ∀ (summaries : List DialogueSummary) u,
      Holds { holder := me, purpose, own } u →
      Safe (narrativeProtocol cfg) me
        (fun r t => ∀ assembled, r = .ok assembled → Returns me purpose own assembled t)
        ((Co.atomic fun s =>
            (((takeSnapshot counted.length s).1, s.narrative),
              (takeSnapshot counted.length s).2)).bind fun x =>
          (triggerCompact cfg x.1.tail (maxSeqTo summaries)).bind fun _ =>
            Co.done { summaries, tail := x.1.tail, snapshotLen := x.1.len, counted,
                      history := x.2, appended := x.1.appended }) u := by
    intro summaries u hHoldsRest
    rw [Co.safe_bind]
    refine Co.safe_await _ (stable_holds rfl) hHoldsRest fun v hHoldsSnap hSound _ => ?_
    have hStep : Step cfg me v (takeSnapshot counted.length v).2 :=
      .snapped counted.length hHoldsSnap.2 rfl rfl
    have hNoted : Holds { holder := me, purpose, own
                          snapshot := some (takeSnapshot counted.length v).1 }
        (takeSnapshot counted.length v).2 := by
      refine ⟨hSound.step hStep, ?_⟩
      simp [takeSnapshot, hHoldsSnap.2]
    refine ⟨hSound.step hStep, hStep, ?_⟩
    simp only [Co.safe_done, Co.continuePost_ok]
    rw [Co.safe_bind]
    refine safe_triggerCompact rfl hNoted _ _ (fun w hHoldsEnd => ?_) (fun _ _ _ => nofun)
    rintro assembled hEq
    obtain rfl := Except.ok.inj hEq
    exact ⟨_, hHoldsEnd, rfl, rfl, rfl⟩
  split
  · exact safe_select_bind rfl hHoldsRead (fun _ _ _ => nofun) fun summaries' u hHolds' =>
      hRest summaries' u hHolds'
  · exact hRest summaries t hHoldsRead

theorem stable_fits {purpose : Purpose} {own : Option ExchangeId} :
    (narrativeProtocol cfg).Stable me fun s => Sound s ∧ purpose.Fits s own := by
  intro s s' hBoth hRely
  obtain ⟨hSound', ⟨other, _, hStep⟩ | hEnv⟩ := hRely
  · exact ⟨hSound', hBoth.2.lineage (Step.lineage hStep)⟩
  · have hStep : Step cfg me s s' := .stored hEnv
    exact ⟨hSound', hBoth.2.lineage hStep.lineage⟩

theorem secure_releaseAssembleLock : Secure (narrativeProtocol cfg) me (releaseAssembleLock me) := by
  refine secure_modify fun s => ?_
  cases hHeld : s.assembling with
  | none => exact .stored (by simpa [hHeld] using Untouched.refl s)
  | some a =>
      by_cases hMe : a.holder = me
      · simp only [hMe, Option.any_some, decide_true, if_true]
        exact .released hHeld hMe
      · simp only [hMe, Option.any_some, decide_false, Bool.false_eq_true, if_false]
        exact .stored (Untouched.refl s)

/-- An assemble keeps the promises in every interleaving: its trim is computed
from the snapshot it took under the lock. -/
theorem safe_assembleNarrative {purpose : Purpose} {own : Option ExchangeId} {s : Dialogue}
    (hSound : Sound s) (hFits : purpose.Fits s own) :
    Safe (narrativeProtocol cfg) me (fun _ t => Sound t)
      (assembleNarrative cfg me purpose own) s := by
  unfold assembleNarrative
  simp only [Co.bind_eq]
  rw [Co.safe_bind]
  refine Co.safe_await _ stable_fits ⟨hSound, hFits⟩ fun t hBoth _ hFree => ?_
  have hAcquired : Step cfg me t { t with assembling := some { holder := me, purpose, own } } :=
    .acquired purpose own (Option.isNone_iff_eq_none.mp hFree) hBoth.2
  refine ⟨hBoth.1.step hAcquired, hAcquired, ?_⟩
  simp only [Co.safe_done, Co.continuePost_ok]
  rw [Co.safe_tryCatch, Co.safe_bind]
  have hHandler : ∀ (error : RunError) u, Sound u →
      Safe (narrativeProtocol cfg) me (fun _ t => Sound t)
        ((releaseAssembleLock me).bind fun _ => (Co.throw error : Work (Assembled × List Entry))) u :=
    fun error u hSound' => (secure_releaseAssembleLock.bind fun _ => Co.secure_fail error) u hSound'
  refine Co.safe_gather_readOnly (Q := Returns me purpose own) guarantee_idle
    (stable_returns purpose own) ?_ ?_ (readOnly_select _) (hBoth.1.step hAcquired)
    (safe_assemble ⟨hBoth.1.step hAcquired, rfl⟩)
  · rintro assembled liveIds u hReturns
    simp only [Co.continuePost_ok]
    rw [Co.safe_bind]
    refine Co.safe_await _ (stable_returns purpose own assembled) hReturns
      fun v hReturns' hSound' _ => ?_
    obtain ⟨snapshot, hHolds, hTail, hLen, hAppended⟩ := hReturns'
    have hFinished : Step cfg me v (finishAssemble cfg purpose own assembled liveIds v).2 :=
      .finished assembled liveIds hHolds.2 rfl rfl hTail hLen hAppended
    exact ⟨hSound'.step hFinished, hFinished, hSound'.step hFinished⟩
  · intro error u
    exact hHandler error u

/-! ## The other coroutines -/

theorem fits_of_process? {s : Dialogue} {id : ProcessId} {p : Process} (hSound : Sound s)
    (hFound : s.process? id = some p) (hBuilt : p.narrativeBuilt = true) :
    (Purpose.sync id).Fits s p.exchangeId := by
  obtain ⟨hMem, hId⟩ := process?_spec hFound
  refine ⟨?_, fun q hOther hSame => ?_⟩
  · rw [← hId]
    exact hSound.ids p.id (List.mem_map_of_mem hMem)
  · have hEq : q = p :=
      List.inj_on_of_nodup_map hSound.distinct hOther hMem (hSame.trans hId.symm)
    rw [hEq]
    exact ⟨rfl, hBuilt⟩

theorem secure_assembleNarrative (purpose : Purpose) (own : Option ExchangeId)
    (hFits : ∀ s, purpose.Fits s own) :
    Secure (narrativeProtocol cfg) me (assembleNarrative cfg me purpose own) :=
  fun s hSound => safe_assembleNarrative hSound (hFits s)

theorem secure_syncBranch (id : ProcessId) (force : Bool) :
    Secure (narrativeProtocol cfg) me (syncBranch cfg me id force) := by
  unfold syncBranch
  intro s hSound
  refine Co.safe_await Sound (fun _ _ _ hRely => hRely.1) hSound fun t hSound' _ _ => ?_
  refine ⟨hSound', guarantee_idle t, ?_⟩
  simp only [Co.bind_done]
  split
  · exact hSound'
  · rename_i p hFound
    split
    · exact hSound'
    · rename_i hGo
      have hBuilt : p.narrativeBuilt = true := by
        simp only [Bool.or_eq_true, not_or] at hGo
        simpa using hGo.1
      have hAssemble : Safe (narrativeProtocol cfg) me (fun _ u => Sound u)
          (assembleNarrative cfg me (.sync id) p.exchangeId) t :=
        safe_assembleNarrative hSound' (fits_of_process? hSound' hFound hBuilt)
      simp only [Co.bind_eq]
      rw [Co.safe_bind]
      refine hAssemble.mono fun r u hSound'' => ?_
      cases r <;> exact hSound''

theorem secure_startAnswer (own : Option ExchangeId) :
    Secure (narrativeProtocol cfg) me (startAnswer cfg me own) :=
  (secure_assembleNarrative .answer own fun _ => trivial).bind fun _ => Co.secure_done ()

theorem secure_submit (message : ChatMessage) (target : Option ExchangeId) :
    Secure (narrativeProtocol cfg) me (submit message target) := by
  refine (secure_transaction fun s => untouched_insertRows s _ _).bind fun seqs => ?_
  refine (secure_modify fun s => .appended _).bind fun _ => ?_
  cases target with
  | none => exact Co.secure_done ()
  | some x => exact .forEach fun seq => secure_transaction fun s => untouched_setExchange s _ _

theorem secure_deliverNotice (content : String) (own : Option ExchangeId) :
    Secure (narrativeProtocol cfg) me (deliverNotice content own) :=
  (secure_transaction fun s => untouched_insertRows s _ _).bind fun _ =>
    secure_modify fun _ => .appended _

theorem secure_reparentMaterial (collection target : ExchangeId) (rounds position : Nat) :
    Secure (narrativeProtocol cfg) me (reparentMaterial collection target rounds position) := by
  induction rounds generalizing position with
  | zero => exact Co.secure_done ()
  | succ rounds ih =>
      refine (secure_atomic fun s => .moved collection target position).bind fun next => ?_
      cases next with
      | none => exact Co.secure_done ()
      | some found =>
          exact (secure_transaction fun s => untouched_setExchange s _ _).bind fun _ => ih found.1

theorem secure_compactAfterRunFinal :
    Secure (narrativeProtocol cfg) me (compactAfterRunFinal cfg me) :=
  .tryCatch ((secure_assembleNarrative .check none fun _ => trivial).bind fun _ => Co.secure_done ())
    fun _ => Co.secure_done ()

theorem secure_awaitCompact (before : Nat) :
    Secure (narrativeProtocol cfg) me (awaitCompact before) :=
  (Atoms.secure (Co.atoms_blockUntil (atomOk_of_step fun s => .stored (Untouched.refl s)))).bind
    fun _ => (secure_select _).bind fun _ => Co.secure_done _

theorem secure_compactNow : Secure (narrativeProtocol cfg) me compactNow := by
  have hStart : Secure (narrativeProtocol cfg) me startCompact :=
    secure_modify fun _ => .stored ⟨rfl, rfl, rfl, rfl, rfl, rfl, rfl⟩
  refine (secure_select _).bind fun before => Secure.bind ?_ fun advanced => ?_
  · refine (secure_read _).bind fun running => ?_
    cases running with
    | true => exact secure_awaitCompact before
    | false => exact Co.secure_done false
  · cases advanced with
    | true => exact Co.secure_done true
    | false => exact hStart.bind fun _ => secure_awaitCompact before

theorem secure_stream (id : ProcessId) (event : LoopEvent) :
    Secure (narrativeProtocol cfg) me (stream cfg me id event) := by
  cases event with
  | iterationStarted => exact secure_syncBranch id false
  | wrote message => exact secure_modify fun _ => .wrote id message
  | contextOverflow =>
      refine (secure_atomic fun _ => .retried id).bind fun retry => ?_
      cases retry with
      | false => exact Co.secure_fail _
      | true =>
          refine secure_compactNow.bind fun advanced => ?_
          cases advanced with
          | true => exact secure_syncBranch id true
          | false => exact Co.secure_fail _

theorem secure_persistThenAppend (messages : List ChatMessage) (promptTokens : Option Nat) :
    Secure (narrativeProtocol cfg) me (persistThenAppend messages promptTokens) :=
  (secure_transaction fun s => untouched_insertRows s _ _).bind fun _ =>
    secure_modify fun _ => .appended _

theorem secure_finalize (p : Process) (terminal : Terminal) :
    Secure (narrativeProtocol cfg) me (finalize cfg me p terminal) := by
  cases terminal with
  | finished content promptTokens =>
      refine (secure_persistThenAppend _ _).bind fun _ => ?_
      cases hBuilt : p.narrativeBuilt with
      | true => exact Co.secure_done ()
      | false => exact secure_compactAfterRunFinal
  | silent => exact secure_select _
  | failed => exact secure_select _
  | cancelled =>
      rw [finalize]
      split
      · exact secure_select _
      · exact secure_persistThenAppend _ _

theorem secure_pumpProcess (id : ProcessId) (events : List LoopEvent) (terminal : Terminal) :
    Secure (narrativeProtocol cfg) me (pumpProcess cfg me id events terminal) := by
  refine Secure.bind (.tryCatch ((Secure.forEach (secure_stream id)).bind fun _ =>
    Co.secure_done terminal) fun _ => Co.secure_done _) fun ended => ?_
  refine (secure_read _).bind fun found => ?_
  cases found with
  | none => exact Co.secure_done ()
  | some p =>
      exact Secure.bind (.tryCatch (secure_finalize p ended) fun _ => Co.secure_done ()) fun _ =>
        secure_modify fun _ => .terminated id

theorem untouched_event {event : DialogueEvent} {s s' : Dialogue}
    (hEvent : dialogueEvent event s = some s') : Untouched s s' := by
  cases event with
  | compacted summary =>
      simp only [dialogueEvent] at hEvent
      split at hEvent
      · obtain rfl := Option.some.inj hEvent
        exact ⟨rfl, rfl, rfl, rfl, rfl, rfl, rfl⟩
      · simp at hEvent
  | _ =>
      obtain rfl := Option.some.inj hEvent
      exact ⟨rfl, rfl, rfl, rfl, rfl, rfl, rfl⟩

theorem dialogue_follows : System.Follows (dialogue cfg) (narrativeProtocol cfg) where
  body_safe call me s hSound := by
    have hSecure : Secure (narrativeProtocol cfg) me (dialogueBody cfg call me) := by
      cases call with
      | submit message target => exact secure_submit message target
      | deliverNotice content own => exact secure_deliverNotice content own
      | startAnswer own => exact secure_startAnswer own
      | startProcess prompt own => exact secure_modify fun _ => .launched prompt own
      | pump id events terminal => exact secure_pumpProcess id events terminal
      | reparent collection target rounds => exact secure_reparentMaterial collection target rounds 0
    exact (hSecure s hSound).mono fun _ _ _ => trivial
  event_env event s s' hSound hEvent :=
    ⟨Sound.untouched hSound (untouched_event hEvent), untouched_event hEvent⟩
  crash_inv s s' _ hCrash := by simp [dialogue] at hCrash

/-- The invariant holds in every state of every run of a runner. -/
theorem dialogue_sound {s : Dialogue} (hFresh : s.Fresh) {q : Pool Dialogue RunError}
    (hRun : System.Run (dialogue cfg) { st := s } q) :
    System.PoolSafe (narrativeProtocol cfg) q :=
  hRun.sound dialogue_follows (.initial (Sound.fresh hFresh))

end Protocol

/-! ## Where a watermark points -/

/-- In every state of every run, behind the watermark of a run are exactly the
messages still held that were appended after the snapshot of its last completed
assemble, in their order. -/
theorem watermark_splits_at_snapshot {cfg : NarrativeConfig} {s : Dialogue} (hFresh : s.Fresh)
    {q : Pool Dialogue RunError} (hRun : System.Run (dialogue cfg) { st := s } q) {p : Process}
    (hMem : p ∈ q.st.processes) (hBuilt : p.narrativeBuilt = true) :
    p.watermark ≤ q.st.narrative.length ∧
      q.st.narrative.drop p.watermark =
        q.st.narrative.filter fun e => decide (p.snapshot ≤ e.serial) := by
  have hSound : Sound q.st := (dialogue_sound hFresh hRun).1
  obtain ⟨-, hSeen, hMark⟩ := hSound.process p hMem
  have hSeen := hSeen hBuilt
  have hMark := hMark hBuilt
  refine ⟨by omega, ?_⟩
  rw [hSound.serials.drop_eq_filter]
  apply List.filter_congr
  intro e hEntry
  -- an entry that is still held was not trimmed, so the maximum is no restriction
  have hHeld := (hSound.serials.bounds hEntry).1
  rw [hMark, decide_eq_decide]
  omega

/-- A notice arrives between the snapshot of a starting run and its trim. -/
def noticeDuringAssemble : List (System.Move (dialogue {})) :=
  [.start (.startAnswer (some 7)), .start (.deliverNotice "done" none)] ++
    resumes 0 4 ++ resumes 1 2 ++ resumes 0 2

/-- The run's watermark is its tail of two, the first message is gone, and the
notice is the only message behind the watermark. -/
theorem watermark_splits_at_snapshot_during_append :
    ∃ q p, System.Run (dialogue {}) { st := compactedDialogue } q ∧ p ∈ q.st.processes ∧
      p.watermark = 2 ∧ q.st.narrative.map (·.serial) = [1, 2, 3] ∧
      p.watermark ≤ q.st.narrative.length ∧
      q.st.narrative.drop p.watermark =
        q.st.narrative.filter fun e => decide (p.snapshot ≤ e.serial) := by
  have hMoves : (System.moves noticeDuringAssemble { st := compactedDialogue }).map
      (fun q : Pool Dialogue RunError => q.st.processes.any fun p =>
        p.narrativeBuilt && p.watermark = 2 && q.st.narrative.map (·.serial) = [1, 2, 3]) =
      some true := by
    decide +kernel
  obtain ⟨q, hRun, hEnd⟩ := System.Run.exists_of_moves noticeDuringAssemble hMoves
  obtain ⟨p, hMem, hHolds⟩ := List.any_eq_true.mp hEnd
  simp only [Bool.and_eq_true, decide_eq_true_eq] at hHolds
  obtain ⟨⟨hBuilt, hMark⟩, hSerials⟩ := hHolds
  exact ⟨q, p, hRun, hMem, hMark, hSerials,
    watermark_splits_at_snapshot compactedDialogue_fresh hRun hMem hBuilt⟩

end Dialog
end OctoForge
