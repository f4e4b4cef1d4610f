import OctoForge.Coop.Trace
import OctoForge.Conversation.Coroutines

/-!
# Late terminations

The end of a run waits in the inbox of the actor, and until it is handled the
user may have stopped the run, answered its question or started a new one of the
same exchange.  The write that settles the exchange carries its guard with it:
the task must be the newest of the exchange and the exchange must be live.

The handling does not end there.  A run that missed a message has its exchange
opened and resumed, and after every termination the sweep gives a run to the
exchanges it finds OPEN, whoever they belong to.  Those writes come with a new
task of the exchange, which is then the newest one.

`LateChange` lists what one step of the handling may do to the rows, and the
main result says that a step of the handling is one of these beside whatever
the others do.
-/

namespace OctoForge
namespace Conversation

open Coop Co
open Dialog (ExchangeId)

/-- What a step of handling the termination may do to the exchanges. -/
inductive LateChange (command : Terminated) (s s' : World) : Prop
  | kept (hRow : s'.row = s.row)
  | settled (x : ExchangeId) (hOwn : command.exchangeId = some x)
      (hNewest : s.newestTaskOf x = some command.taskId)
      (hLive : (s.status x).any (·.isLive) = true)
      (hAsked : command.exchangeStatus ≠ .cancelled → command.unseen = .nothing →
        s.status x ≠ some .awaitingUser)
      (hOthers : ∀ y, y ≠ x → s'.row y = s.row y)
  /-- Only the time stamp of the row changes. -/
  | stamped (x : ExchangeId) (hOwn : command.exchangeId = some x)
      (hOutcome : command.exchangeStatus ≠ .cancelled) (hUnseen : command.unseen = .materialOnly)
      (hRow : s'.row = (s.touch x).row)
  /-- A fresh run of an exchange that was read as OPEN. -/
  | started (x : ExchangeId) (look : Look) (hSaw : look.saw = some .opened)
      (hLog : s'.log = s.log ++ [{ exchange := x, status := .inProgress, look := some look }])
      (hNewest : s'.newestTaskOf x = some s.nextTask)
      (hOthers : ∀ y, y ≠ x → s'.row y = s.row y)

section Steps

variable {command : Terminated}

theorem late_of_still {α : Type} {c : Work α} (hStill : Steps Still c) :
    Steps (LateChange command) c :=
  hStill.atoms fun _ _ _ _ hStep => ⟨trivial, .kept hStep.row⟩

theorem row_writeRow_of_ne {x y : ExchangeId} (hOther : y ≠ x) (status : ExchangeStatus)
    (look : Option Look) (f : ExchangeRow → ExchangeRow) (s : World) :
    (s.writeRow x status look f).row y = s.row y :=
  Function.update_of_ne hOther _ _

theorem row_gather (x : ExchangeId) (status : ExchangeStatus) (s : World) :
    (s.gather x status).row = s.row := by
  unfold World.gather
  split
  · rfl
  · rfl

theorem newestTaskOf_addTask (kind : TaskKind) (x : ExchangeId) (title : String) (s : World) :
    (s.addTask kind (some x) title).2.newestTaskOf x = some s.nextTask := by
  simp [World.newestTaskOf, World.allTasks, World.addTask, List.range_succ]

/-- The guard of `settle_owned`. -/
theorem late_settleTo {x : ExchangeId} (status : ExchangeStatus) {keepIfAwaiting : Bool}
    (hOwn : command.exchangeId = some x)
    (hKeep : command.exchangeStatus ≠ .cancelled → command.unseen = .nothing →
      keepIfAwaiting = true) :
    Steps (LateChange command) (settleTo x command.taskId status keepIfAwaiting) := by
  refine atoms_transaction (fun _ => .kept rfl) fun s _ _ => ⟨trivial, ?_⟩
  unfold World.settleOwned
  split
  · rename_i hGuard
    simp only [World.ownsLive, Bool.and_eq_true, decide_eq_true_eq] at hGuard
    obtain ⟨hNewest, hGuard⟩ := hGuard
    obtain ⟨found, hFound, hPass⟩ := (Option.any_eq_true _ _).mp hGuard
    simp only [Bool.and_eq_true, Bool.not_eq_true', Bool.and_eq_false_iff] at hPass
    refine .settled x hOwn hNewest (by simp [hFound, hPass.1]) ?_ fun y hOther => ?_
    · intro hOutcome hUnseen hAwaiting
      rw [hFound, Option.some.injEq] at hAwaiting
      simp [hKeep hOutcome hUnseen, hAwaiting] at hPass
    · rw [World.writeStatus, row_writeRow_of_ne hOther, row_gather]
  · exact .kept rfl

/-- The task and the status land together. -/
theorem late_beginAnswer {seen : Seen} (hSaw : seen.look.saw = some .opened) :
    Steps (LateChange command) (beginAnswer seen) := by
  refine atoms_transactionOn (fun _ => .kept rfl) fun s _ _ _ => ⟨trivial, ?_⟩
  refine .started seen.exchange.id seen.look hSaw rfl ?_ fun y hOther => ?_
  · exact newestTaskOf_addTask .answer _ seen.exchange.title s
  · rw [World.writeStatus, row_writeRow_of_ne hOther]
    rfl

theorem late_startAnswer {seen : Seen} (hSaw : seen.look.saw = some .opened)
    (cancelEpoch : Option Nat) (notifyLimit : Bool) :
    Steps (LateChange command) (startAnswer seen cancelEpoch notifyLimit) := by
  refine Atoms.bind (late_of_still still_stillOwnsDialog) fun owns => ?_
  split
  · exact Atoms.bind (Co.atoms_modify fun _ _ _ _ => ⟨trivial, .kept rfl⟩) fun _ => Co.atoms_done _
  · refine Atoms.bind (late_of_still (still_select _)) fun budget => ?_
    cases budget with
    | some verdict =>
        dsimp only
        split
        · exact late_of_still (still_tariffNoticeOnce _ _)
        · exact Co.atoms_done _
    | none =>
        refine Atoms.bind (late_beginAnswer hSaw) fun task => ?_
        refine Atoms.bind (late_of_still (still_select _)) fun _ => ?_
        exact Atoms.bind (Co.atoms_modify fun _ _ _ _ => ⟨trivial, .kept rfl⟩)
          fun _ => Co.atoms_done _

/-- A look says what was read. -/
theorem ends_getExchange (x : ExchangeId) :
    Ends (fun r => ∀ seen, r = .ok seen → seen.look.saw = some seen.exchange.status)
      (getExchange x) := by
  refine Ends.bind (Q := fun r => ∀ seen, r = .ok (some seen) →
    seen.look.saw = some seen.exchange.status) (Co.ends_attempt fun s seen hRead => ?_)
    (fun found hFound => ?_) fun error hError seen hEq => ?_
  · dsimp only at hRead
    split at hRead
    · simp at hRead
    · simp only [Except.ok.injEq, Option.map_eq_some_iff] at hRead
      obtain ⟨exchange, hExchange, rfl⟩ := hRead
      exact (s.exchange_eq_some x hExchange).2
  · cases found with
    | some seen =>
        intro seen' hEq
        obtain rfl := Except.ok.inj hEq
        exact hFound _ rfl
    | none =>
        intro seen hEq
        simp at hEq
  · simp at hEq

theorem late_withSpawnLock {α : Type} {me : Nat} {body : Work α}
    (hBody : Steps (LateChange command) body) :
    Steps (LateChange command) (withSpawnLock me body) := by
  refine Atoms.bind (Co.atoms_blockUntil fun s _ _ _ => ⟨trivial, .kept rfl⟩) fun _ => ?_
  refine Atoms.ensure hBody fun s _ _ => ⟨trivial, .kept ?_⟩
  unfold releaseSpawnLock
  split
  · rfl
  · rfl

theorem late_resumeOpenExchange (cfg : RunnerConfig) (me : Nat) (x : ExchangeId)
    (notifyLimit : Bool) :
    Steps (LateChange command) (resumeOpenExchange cfg me x notifyLimit) := by
  refine Atoms.bind (late_of_still (still_read _)) fun latest => ?_
  cases latest with
  | none => exact Co.atoms_done _
  | some message =>
      refine Atoms.tryCatch (late_withSpawnLock ?_) fun error => ?_
      · refine Atoms.bind_ends (Atoms.bind (late_of_still (still_select _)) fun found => ?_)
          (ends_getExchange x) fun seen hSeen => ?_
        · cases found with
          | some seen => exact Co.atoms_done _
          | none => exact Co.atoms_fail _
        · refine Atoms.bind (late_of_still (still_read _)) fun busy => ?_
          split
          · exact Co.atoms_done _
          · rename_i hIdle
            have hOpened : seen.exchange.status = .opened :=
              not_not.mp fun hNot => hIdle (Or.inl hNot)
            have hSaw : seen.look.saw = some .opened := by rw [hSeen seen rfl, hOpened]
            refine Atoms.bind (late_of_still (still_read _)) fun exceeds => ?_
            split
            · split
              · exact late_of_still (still_rejectForLimit cfg message)
              · exact Co.atoms_done _
            · exact Atoms.bind (late_startAnswer hSaw none notifyLimit) fun _ => Co.atoms_done _
      · cases error with
        | exchangeNotFound => exact Co.atoms_done _
        | unavailable => exact Co.atoms_fail _

theorem late_settleExchange (cfg : RunnerConfig) (me : Nat) :
    Steps (LateChange command) (settleExchange cfg me command) := by
  unfold settleExchange
  split
  · exact Co.atoms_done _
  · rename_i x hOwn
    dsimp only
    split
    · rename_i hUnseen
      refine Atoms.bind (late_settleTo _ hOwn fun _ hNothing => ?_) fun settled => ?_
      · simp [hUnseen] at hNothing
      · split
        · exact late_resumeOpenExchange cfg me x true
        · exact Co.atoms_done _
    · rename_i hOutcome hUnseen
      refine Atoms.bind (late_settleTo _ hOwn fun _ hNothing => ?_) fun settled => ?_
      · simp [hUnseen] at hNothing
      · split
        · refine atoms_transaction (fun _ => .kept rfl) fun s _ _ => ⟨trivial, ?_⟩
          exact .stamped x hOwn (by simpa using hOutcome) hUnseen rfl
        · exact Co.atoms_done _
    · refine Atoms.bind (late_settleTo _ hOwn fun hOutcome _ => ?_) fun _ => Co.atoms_done _
      simpa using hOutcome

theorem late_handleTerminated (cfg : RunnerConfig) (me : Nat) :
    Steps (LateChange command) (handleTerminated cfg me command) := by
  refine Atoms.bind (late_settleExchange cfg me) fun _ => ?_
  refine Atoms.bind (late_of_still (still_modify (still_enqueueTerminal command))) fun _ => ?_
  refine Atoms.bind (late_of_still still_flushDeliveries) fun _ => ?_
  refine Atoms.bind (Atoms.tryCatch (late_of_still (still_select _)) fun _ => Co.atoms_done _)
    fun stranded => ?_
  exact Atoms.forEach fun exchange _ => late_resumeOpenExchange cfg me exchange.id false

end Steps

/-! ## Every order of events -/

/-- Whatever the others do meanwhile, every step of the handling is one of these:
the settlement writes only for the newest task of a live exchange, and every
other status it writes belongs to a run it starts. -/
theorem late_termination_harmless (cfg : RunnerConfig) (me : Nat) (command : Terminated)
    {env : World → World → Prop} {s t : World} {steps : List (World × World)} {rest : Work Unit}
    (hTrace : Trace env (handleTerminated cfg me command) s steps rest t) :
    ∀ u v, (u, v) ∈ steps → LateChange command u v :=
  (late_handleTerminated cfg me).trace hTrace

/-- Two runs of one exchange; the first one has ended and the second is going. -/
def superseded : World :=
  let created := (({} : World).create "plan a trip" .inProgress).2
  let first := created.addTask .answer (some 0) "plan a trip"
  let second := (first.2.finishTask first.1.id .done).addTask .answer (some 0) "plan a trip"
  second.2.createProcess second.1 false

def lateEnd : Terminated :=
  { taskId := 0, exchangeId := some 0, exchangeStatus := .answered, unseen := .nothing,
    terminal := some "by train", deliveredLive := true, byCancel := false }

/-- The end of the first run finds the exchange with the second one. -/
theorem late_termination_harmless_superseded :
    ∃ steps r t, Trace (fun s s' => ∃ m, s' = (conversationEvent m s).getD s)
        (handleTerminated {} 0 lateEnd) superseded steps (Co.ended r) t ∧
      steps.length = 4 ∧ t.status 0 = some .inProgress ∧
      ∀ u v, (u, v) ∈ steps → LateChange lateEnd u v := by
  have hTraces : (traceWith (fun m s => (conversationEvent m s).getD s) []
      (handleTerminated {} 0 lateEnd) superseded).map (fun (steps, _, t) =>
        (steps.length, t.status 0)) = some (4, some .inProgress) := by
    decide +kernel
  obtain ⟨steps, r, t, hTrace, hEnd⟩ := Trace.exists_of_traceWith [] hTraces
  obtain ⟨hLength, hStatus⟩ := Prod.mk.inj hEnd
  exact ⟨steps, r, t, hTrace, hLength, hStatus, late_termination_harmless {} 0 lateEnd hTrace⟩

/-- Both runs of a question are over and their ends are queued.  Material that was
forwarded earlier is moved to the question and opens it, and the budget refuses
the run. -/
def openedBehind : List (System.Move (conversation {})) :=
  List.flatten [[.start (.submit { content := "forwarded", kind := .material } none)],
    List.replicate 12 (.resume 0), [.event (.tick 60)],
    [.start (.submit { content := "question" } (some { action := "new" }))],
    List.replicate 23 (.resume 1),
    [.start (.submit { content := "one more thing" }
      (some { action := "continue", exchangeId := .id 1 }))], List.replicate 5 (.resume 2),
    [.start (.pump 0 (.finished "answer") .nothing true)], List.replicate 3 (.resume 3),
    List.replicate 17 (.resume 2),
    [.start (.pump 1 (.finished "another answer") .nothing true)], List.replicate 3 (.resume 4),
    [.event (.budget (some {})),
      .start (.promote 0 (some { action := "continue", exchangeId := .id 1 }))],
    List.replicate 20 (.resume 5), [.event (.budget none)]]

/-- The end of the first run is handled, and nothing else happens. -/
def firstEndHandled : List (System.Move (conversation {})) :=
  .start .terminated :: List.replicate 18 (.resume 6)

/-- The sweep at the end of the handling gives the exchange a run, although the
task that ended is not its newest. -/
theorem late_termination_starts_run :
    ∃ (q r : Pool World StoreError) (command : Terminated),
      System.Run (conversation {}) { st := {} } q ∧ System.moves firstEndHandled q = some r ∧
      q.st.inbox.head? = some command ∧ command.exchangeId = some 1 ∧ command.taskId = 0 ∧
      q.st.newestTaskOf 1 = some 1 ∧
      q.st.status 1 = some .opened ∧ r.st.status 1 = some .inProgress := by
  have hMoves : ((System.moves openedBehind { st := {} }).bind fun q =>
      (System.moves firstEndHandled q).map fun r =>
        (q.st.inbox.head?.map fun command => (command.exchangeId, command.taskId),
          q.st.newestTaskOf 1, q.st.status 1, r.st.status 1)) =
      some (some (some 1, 0), some 1, some .opened, some .inProgress) := by
    decide +kernel
  obtain ⟨q, hFirst, hRest⟩ := Option.bind_eq_some_iff.mp hMoves
  obtain ⟨r, hSecond, hSeen⟩ := Option.map_eq_some_iff.mp hRest
  simp only [Prod.mk.injEq, Option.map_eq_some_iff] at hSeen
  obtain ⟨⟨command, hHead, hOwn, hTask⟩, hNewest, hBefore, hAfter⟩ := hSeen
  exact ⟨q, r, command, .of_moves _ (.refl _) hFirst, hSecond, hHead, hOwn, hTask, hNewest,
    hBefore, hAfter⟩

end Conversation
end OctoForge
