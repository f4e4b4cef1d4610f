import OctoForge.Conversation.Steps

/-!
# The log of status writes

Every write of a status is in the log, in order.  A write that has no guard in
its WHERE clause carries the look its author last took.  It is clean when the
author had not seen the exchange cancelled and nobody cancelled it between that
look and the write.
-/

namespace OctoForge
namespace Conversation

open Dialog (ExchangeId)

/-- The exchange was cancelled at `index` of the log or later. -/
def CancelledSince (x : ExchangeId) (index : Nat) (log : List StatusWrite) : Prop :=
  ∃ w ∈ log.drop index, w.exchange = x ∧ w.status = .cancelled

/-- The author of the write had not seen the exchange cancelled, and nobody
cancelled it since.  `before` is the log the write was appended to. -/
def StatusWrite.Clean (w : StatusWrite) (before : List StatusWrite) : Prop :=
  ∀ look, w.look = some look →
    look.saw ≠ some .cancelled ∧ ¬CancelledSince w.exchange look.index before

/-- Every write of the log from `start` on is clean. -/
def CleanFrom (start : Nat) (log : List StatusWrite) : Prop :=
  ∀ k w, start ≤ k → log[k]? = some w → w.Clean (log.take k)

instance (x : ExchangeId) (index : Nat) (log : List StatusWrite) :
    Decidable (CancelledSince x index log) :=
  inferInstanceAs (Decidable (∃ w ∈ log.drop index, _))

instance (w : StatusWrite) (before : List StatusWrite) : Decidable (w.Clean before) :=
  inferInstanceAs (Decidable (∀ look ∈ w.look, _))

instance (start : Nat) (log : List StatusWrite) : Decidable (CleanFrom start log) :=
  decidable_of_iff (∀ k < log.length, ∀ w ∈ log[k]?, start ≤ k → w.Clean (log.take k))
    ⟨fun hAll k w hStart hWrite =>
      hAll k (List.getElem?_eq_some_iff.mp hWrite).1 w hWrite hStart,
    fun hClean k _ w hWrite hStart => hClean k w hStart hWrite⟩

theorem CancelledSince.append {x : ExchangeId} {index : Nat} {log : List StatusWrite}
    (hSince : CancelledSince x index log) (more : List StatusWrite) :
    CancelledSince x index (log ++ more) := by
  obtain ⟨w, hMem, hWrite⟩ := hSince
  refine ⟨w, ?_, hWrite⟩
  rw [List.drop_append]
  exact List.mem_append_left _ hMem

theorem CancelledSince.mono {x : ExchangeId} {index index' : Nat} {log : List StatusWrite}
    (hLe : index ≤ index') (hSince : CancelledSince x index' log) : CancelledSince x index log := by
  obtain ⟨w, hMem, hWrite⟩ := hSince
  have hSplit : log.drop index' = (log.drop index).drop (index' - index) := by
    rw [List.drop_drop]
    congr 1
    omega
  rw [hSplit] at hMem
  exact ⟨w, List.mem_of_mem_drop hMem, hWrite⟩

theorem CleanFrom.of_append {start : Nat} {log more : List StatusWrite}
    (hClean : CleanFrom start (log ++ more)) : CleanFrom start log := by
  intro k w hStart hWrite
  have hBound : k < log.length := (List.getElem?_eq_some_iff.mp hWrite).1
  have hClean' := hClean k w hStart (by rw [List.getElem?_append_left hBound, hWrite])
  rwa [List.take_append_of_le_length (Nat.le_of_lt hBound)] at hClean'

theorem CleanFrom.mono {start start' : Nat} {log : List StatusWrite} (hLe : start ≤ start')
    (hClean : CleanFrom start log) : CleanFrom start' log :=
  fun k w hStart => hClean k w (Nat.le_trans hLe hStart)

/-- The newest write of a clean log is clean. -/
theorem CleanFrom.last {log : List StatusWrite} {w : StatusWrite}
    (hClean : CleanFrom log.length (log ++ [w])) : w.Clean log := by
  have hLast := hClean log.length w (Nat.le_refl _) (by simp)
  rwa [List.take_left] at hLast

/-! ## Steps -/

/-- What any step may do: a cancelled exchange stays cancelled unless the step
logs a write that is not clean, and an exchange becomes cancelled only by a
write in the log. -/
structure Step (s s' : World) : Prop where
  wellFormed : s.WellFormed → s'.WellFormed
  next : s.nextExchange ≤ s'.nextExchange
  tasks : s.nextTask ≤ s'.nextTask
  log : ∃ more, s'.log = s.log ++ more
  kept : ∀ x, s.status x = some .cancelled → CleanFrom s.log.length s'.log →
    s'.status x = some .cancelled
  recorded : ∀ x, s'.status x = some .cancelled →
    s.status x = some .cancelled ∨ CancelledSince x s.log.length s'.log

/-- A step that changes neither a status nor the log. -/
theorem Step.still {s s' : World} (hWell : s.WellFormed → s'.WellFormed)
    (hNext : s'.nextExchange = s.nextExchange) (hStatus : s'.status = s.status)
    (hLog : s'.log = s.log)
    (hTasks : s.nextTask ≤ s'.nextTask) : Step s s' where
  wellFormed := hWell
  next := Nat.le_of_eq hNext.symm
  tasks := hTasks
  log := ⟨[], by simp [hLog]⟩
  kept x hCancelled _ := by rw [hStatus, hCancelled]
  recorded x hCancelled := by
    rw [hStatus] at hCancelled
    exact Or.inl hCancelled

theorem Step.refl (s : World) : Step s s := .still id rfl rfl rfl (Nat.le_refl _)

theorem Step.quiet {s s' : World} (hQuiet : Quiet s s') : Step s s' :=
  .still hQuiet.wellFormed hQuiet.nextExchange hQuiet.status hQuiet.log
    (Nat.le_of_eq hQuiet.nextTask.symm)

theorem Step.trans {s s' s'' : World} (hFirst : Step s s') (hSecond : Step s' s'') :
    Step s s'' := by
  obtain ⟨more, hLog⟩ := hFirst.log
  obtain ⟨more', hLog'⟩ := hSecond.log
  have hLength : s.log.length ≤ s'.log.length := by
    rw [hLog, List.length_append]
    exact Nat.le_add_right _ _
  refine ⟨fun hWell => hSecond.wellFormed (hFirst.wellFormed hWell),
    Nat.le_trans hFirst.next hSecond.next, Nat.le_trans hFirst.tasks hSecond.tasks,
    ⟨more ++ more', by simp [hLog, hLog']⟩, ?_, ?_⟩
  · intro x hCancelled hClean
    have hMiddle : s'.status x = some .cancelled := by
      refine hFirst.kept x hCancelled ?_
      rw [hLog'] at hClean
      exact hClean.of_append
    exact hSecond.kept x hMiddle (hClean.mono hLength)
  · intro x hCancelled
    rcases hSecond.recorded x hCancelled with hMiddle | hSince
    · rcases hFirst.recorded x hMiddle with hOld | hSince
      · exact Or.inl hOld
      · rw [hLog']
        exact Or.inr (hSince.append more')
    · exact Or.inr (hSince.mono hLength)

/-- A logged write, where it does not take a cancelled exchange back. -/
theorem Step.write {s : World} {x : ExchangeId} {status : ExchangeStatus} {look : Option Look}
    {f : ExchangeRow → ExchangeRow}
    (hAllowed : s.status x = some .cancelled →
      StatusWrite.Clean { exchange := x, status, look } s.log → status = .cancelled) :
    Step s (s.writeRow x status look f) := by
  refine ⟨fun hWell => hWell.writeRow status look f, Nat.le_refl _, Nat.le_refl _, ⟨_, rfl⟩, ?_, ?_⟩
  · intro y hCancelled hClean
    rw [World.status_writeRow]
    split
    · rename_i hSame
      subst hSame
      rw [hCancelled, hAllowed hCancelled hClean.last]
      rfl
    · exact hCancelled
  · intro y hCancelled
    rw [World.status_writeRow] at hCancelled
    split at hCancelled
    · rename_i hSame
      obtain ⟨_, -, rfl⟩ := Option.map_eq_some_iff.mp hCancelled
      exact Or.inr ⟨{ exchange := x, status := .cancelled, look },
        by simp [World.writeRow], hSame.symm, rfl⟩
    · exact Or.inl hCancelled

theorem Step.create {s : World} (hWell : s.WellFormed) (title : String)
    {status : ExchangeStatus} (hStatus : status ≠ .cancelled) :
    Step s (s.create title status).2 := by
  refine ⟨fun hWell => hWell.create title status, Nat.le_succ _, Nat.le_refl _, ⟨_, rfl⟩, ?_, ?_⟩
  · intro y hCancelled _
    have hOld : y ≠ s.nextExchange := by
      rintro rfl
      rw [hWell.exchanges _ (Nat.le_refl _)] at hCancelled
      simp at hCancelled
    rw [World.status_create, if_neg hOld, hCancelled]
  · intro y hCancelled
    rw [World.status_create] at hCancelled
    split at hCancelled
    · exact absurd (Option.some.inj hCancelled) hStatus
    · exact Or.inl hCancelled

/-- `settle_owned` never takes a cancelled exchange back: its guard asks for a
live one. -/
theorem Step.settleOwned (s : World) (x : ExchangeId) (task : TaskId) (status : ExchangeStatus)
    (keepIfAwaiting : Bool) : Step s (s.settleOwned x task status keepIfAwaiting).2 := by
  unfold World.settleOwned
  split
  · rename_i hOwns
    have hGather := Step.quiet (quiet_gather x status s)
    refine hGather.trans (.write fun hCancelled _ => ?_)
    rw [(quiet_gather x status s).status] at hCancelled
    simp [World.ownsLive, hCancelled, ExchangeStatus.isLive] at hOwns
  · exact .refl s

/-- The reset of a dead runner's exchanges touches those in progress. -/
theorem Step.reopen (s : World) : Step s s.reopen := by
  unfold World.reopen
  induction List.range s.nextExchange generalizing s with
  | nil => exact .refl s
  | cons x rest ih =>
      refine Step.trans ?_ (ih _)
      dsimp only
      split
      · rename_i hProgress
        refine .write fun hCancelled _ => ?_
        rw [hProgress] at hCancelled
        simp at hCancelled
      · exact .refl s

theorem Step.restart (s : World) : Step s s.restart := by
  refine .still (fun hWell => hWell.of_same rfl rfl rfl rfl fun p hMem => ?_) rfl rfl rfl
    (Nat.le_refl _)
  simp [World.restart] at hMem

/-! ## Looks -/

/-- An exchange that is cancelled now was seen cancelled, or has been cancelled
since the look. -/
structure Looked (x : ExchangeId) (look : Look) (s : World) : Prop where
  index : look.index ≤ s.log.length
  cancelled : s.status x = some .cancelled →
    look.saw = some .cancelled ∨ CancelledSince x look.index s.log

theorem looked_now (s : World) (x : ExchangeId) : Looked x (s.look x) s :=
  ⟨Nat.le_refl _, fun hCancelled => Or.inl hCancelled⟩

theorem Looked.step {x : ExchangeId} {look : Look} {s s' : World} (hLooked : Looked x look s)
    (hStep : Step s s') : Looked x look s' := by
  obtain ⟨more, hLog⟩ := hStep.log
  refine ⟨?_, fun hCancelled => ?_⟩
  · rw [hLog, List.length_append]
    exact Nat.le_trans hLooked.index (Nat.le_add_right _ _)
  · rcases hStep.recorded x hCancelled with hOld | hSince
    · rcases hLooked.cancelled hOld with hSaw | hSince
      · exact Or.inl hSaw
      · rw [hLog]
        exact Or.inr (hSince.append more)
    · exact Or.inr (hSince.mono hLooked.index)

/-- A write that carries its author's look is a step, clean or not. -/
theorem Looked.write {x : ExchangeId} {look : Look} {s : World} (hLooked : Looked x look s)
    (status : ExchangeStatus) (f : ExchangeRow → ExchangeRow) :
    Step s (s.writeRow x status (some look) f) := by
  refine .write fun hCancelled hClean => ?_
  obtain ⟨hSaw, hSince⟩ := hClean look rfl
  rcases hLooked.cancelled hCancelled with hSaw' | hSince'
  · exact absurd hSaw' hSaw
  · exact absurd hSince' hSince

end Conversation
end OctoForge
