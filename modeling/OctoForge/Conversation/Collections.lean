import OctoForge.Conversation.Coroutines

/-!
# At most one collection

Forwarded material waits in a collection, and all of it in the same one.  The
actor creates a collection only where it has found none.  A run that ends
without having seen the latest material turns its own exchange into a
collection, and nobody looks whether there is one already: a collection that was
there before the question survives beside it.
-/

namespace OctoForge
namespace Conversation

open Coop
open Dialog (ExchangeId)

namespace World

def SingleCollection (s : World) : Prop :=
  ∀ x y, s.status x = some .collecting → s.status y = some .collecting → x = y

/-- Every run that left its exchange as a collection found no other one. -/
def GathersAlone (s : World) : Prop := ∀ sole ∈ s.gathered, sole = true

instance (s : World) : Decidable s.GathersAlone :=
  inferInstanceAs (Decidable (∀ sole ∈ s.gathered, _))

end World

/-! ## Steps -/

/-- The collections after a step: some are gone, the only one was created, or a
run has left its exchange as one. -/
inductive CollectionsAfter (s s' : World) : Prop
  | fewer (hGathered : s'.gathered = s.gathered)
      (hFewer : ∀ x, s'.status x = some .collecting → s.status x = some .collecting)
  | created (x : ExchangeId) (hGathered : s'.gathered = s.gathered)
      (hOnly : ∀ y, s'.status y = some .collecting → y = x)
  | gathered (x : ExchangeId) (hGathered : s'.gathered = s.gathered ++ [s.soleCollection x])
      (hOthers : ∀ y, s'.status y = some .collecting → y = x ∨ s.status y = some .collecting)

section Steps

variable {cfg : RunnerConfig} {me : Nat} {s s' : World}

theorem CollectionsAfter.same (hStatus : s'.status = s.status) (hGathered : s'.gathered = s.gathered) :
    CollectionsAfter s s' :=
  .fewer hGathered fun _ hNow => hStatus ▸ hNow

theorem collections_settleOwned (s : World) (x : ExchangeId) (task : TaskId)
    (status : ExchangeStatus) (keepIfAwaiting : Bool) :
    CollectionsAfter s (s.settleOwned x task status keepIfAwaiting).2 := by
  unfold World.settleOwned
  split
  · have hStatus : ∀ y, ((s.gather x status).writeStatus x status none none).status y =
        if y = x then (s.status x).map fun _ => status else s.status y := by
      intro y
      rw [World.writeStatus, World.status_writeRow, (quiet_gather x status s).status]
    by_cases hCollecting : status = .collecting
    · -- the only branch that looks at nothing
      refine .gathered x ?_ fun y hNow => ?_
      · simp [World.gather, hCollecting, World.writeStatus, World.writeRow, World.updateExchange]
      · rw [hStatus] at hNow
        split at hNow
        · rename_i hSame
          exact Or.inl hSame
        · exact Or.inr hNow
    · refine .fewer ?_ fun y hNow => ?_
      · simp [World.gather, hCollecting, World.writeStatus, World.writeRow, World.updateExchange]
      · rw [hStatus] at hNow
        split at hNow
        · obtain ⟨_, -, hWritten⟩ := Option.map_eq_some_iff.mp hNow
          exact absurd hWritten hCollecting
        · exact hNow
  · exact .same rfl rfl

theorem Act.collections (hAct : Act cfg me s s') : CollectionsAfter s s' := by
  cases hAct with
  | write _ hWrites => exact .fewer hWrites.gathered hWrites.collecting
  | retire _ hRetires => exact .same hRetires.status hRetires.gathered
  | lock _ => exact .same rfl rfl
  | unlock _ => exact .same rfl rfl
  | takeTurn _ => exact .same rfl rfl
  | endTurn _ => exact .same rfl rfl
  | collect title _ hNone =>
      refine .created s.nextExchange rfl fun y hNow => ?_
      rw [World.status_create] at hNow
      split at hNow
      · rename_i hSame
        exact hSame
      · exact absurd hNow (hNone y)
  | settle x task status keepIfAwaiting _ =>
      exact collections_settleOwned s x task status keepIfAwaiting
  | start => exact .same rfl rfl
  | restart => exact .same rfl rfl
  | background => exact .same rfl rfl
  | stop => exact .same rfl rfl

theorem eq_of_soleCollection (hWell : s.WellFormed) {x y : ExchangeId}
    (hSole : s.soleCollection x = true) (hCollecting : s.status y = some .collecting) : y = x := by
  have hStored : y < s.nextExchange := hWell.lt_of_stored (by rw [hCollecting]; rfl)
  have hAll := List.all_eq_true.mp hSole y (List.mem_range.mpr hStored)
  simpa [hCollecting] using hAll

theorem singleCollection_act (hWell : s.WellFormed)
    (hSingle : s.GathersAlone → s.SingleCollection) (hAct : Act cfg me s s')
    (hAlone : s'.GathersAlone) : s'.SingleCollection := by
  intro y z hFirst hSecond
  cases hAct.collections with
  | fewer hGathered hFewer =>
      have hBefore : s.GathersAlone := fun sole hMem => hAlone sole (hGathered ▸ hMem)
      exact hSingle hBefore y z (hFewer y hFirst) (hFewer z hSecond)
  | created x _ hOnly => exact (hOnly y hFirst).trans (hOnly z hSecond).symm
  | gathered x hGathered hOthers =>
      have hSole : s.soleCollection x = true := by
        refine hAlone _ ?_
        rw [hGathered]
        exact List.mem_append_right _ (List.mem_singleton_self _)
      have hOnly : ∀ w, s'.status w = some .collecting → w = x := by
        intro w hNow
        rcases hOthers w hNow with hSame | hOld
        · exact hSame
        · exact eq_of_soleCollection hWell hSole hOld
      exact (hOnly y hFirst).trans (hOnly z hSecond).symm

end Steps

/-! ## Runs -/

/-- Along every run from a fresh runner over tables with at most one collection:
there is at most one, as long as every run that left its exchange as a
collection found no other one. -/
theorem single_collection {cfg : RunnerConfig} {start : World} {q : Pool World StoreError}
    (hStart : start.Fresh) (hSingle : start.SingleCollection)
    (hRun : System.Run (conversation cfg) { st := start } q) (hAlone : q.st.GathersAlone) :
    q.st.SingleCollection := by
  have hKeep : ∀ s s', (runnerProtocol cfg).inv s → (s.GathersAlone → s.SingleCollection) →
      Moved cfg s s' → (s'.GathersAlone → s'.SingleCollection) := by
    intro s s' hInv hBefore hMoved
    cases hMoved with
    | act me hAct => exact singleCollection_act hInv.1 hBefore hAct
    | crash => exact hBefore
  exact run_preserves hKeep hStart.safe (fun _ => hSingle) hRun hAlone

theorem World.singleCollection_empty : ({} : World).SingleCollection :=
  fun x y hNow => by simp [World.status] at hNow

/-- A run leaves its exchange as a collection, and later material joins it. -/
def gatheredOnce : List (System.Move (conversation {})) :=
  List.flatten [[.start (.submit { content := "question" } none)], List.replicate 22 (.resume 0),
    [.start (.submit { content := "forwarded", kind := .material } none)],
    List.replicate 10 (.resume 1), [.start (.pump 0 (.finished "answer") .materialOnly true)],
    List.replicate 3 (.resume 2), [.start .terminated], List.replicate 8 (.resume 3),
    [.start (.submit { content := "forwarded later", kind := .material } none)],
    List.replicate 11 (.resume 4)]

theorem single_collection_gathered :
    ∃ q : Pool World StoreError, System.Run (conversation {}) { st := {} } q ∧
      q.st.status 0 = some .collecting ∧ q.st.gathered = [true] ∧ q.st.SingleCollection := by
  have hMoves : (System.moves gatheredOnce { st := {} }).map (fun q =>
      (q.st.status 0, q.st.gathered)) = some (some .collecting, [true]) := by decide +kernel
  obtain ⟨q, hRun, hSeen⟩ := System.Run.exists_of_moves _ hMoves
  simp only [Prod.mk.injEq] at hSeen
  obtain ⟨hStatus, hGathered⟩ := hSeen
  have hAlone : q.st.GathersAlone := by
    rw [World.GathersAlone, hGathered]
    decide +kernel
  exact ⟨q, hRun, hStatus, hGathered,
    single_collection .empty World.singleCollection_empty hRun hAlone⟩

/-- A question is asked while an old collection waits.  Material that is forwarded
meanwhile goes to the question's run, which ends without having seen it. -/
def gatheredBeside : List (System.Move (conversation {})) :=
  List.flatten [[.start (.submit { content := "forwarded", kind := .material } none)],
    List.replicate 12 (.resume 0),
    [.event (.tick 60), .start (.submit { content := "question" } (some { action := "new" }))],
    List.replicate 23 (.resume 1),
    [.start (.submit { content := "forwarded later", kind := .material } none)],
    List.replicate 10 (.resume 2), [.start (.pump 0 (.finished "answer") .materialOnly true)],
    List.replicate 3 (.resume 3), [.start .terminated], List.replicate 8 (.resume 4)]

theorem second_collection_gathered :
    ∃ q : Pool World StoreError, System.Run (conversation {}) { st := {} } q ∧
      q.st.status 0 = some .collecting ∧ q.st.status 1 = some .collecting ∧
      ¬q.st.SingleCollection := by
  have hMoves : (System.moves gatheredBeside { st := {} }).map (fun q =>
      (q.st.status 0, q.st.status 1)) = some (some .collecting, some .collecting) := by decide +kernel
  obtain ⟨q, hRun, hSeen⟩ := System.Run.exists_of_moves _ hMoves
  simp only [Prod.mk.injEq] at hSeen
  obtain ⟨hFirst, hSecond⟩ := hSeen
  exact ⟨q, hRun, hFirst, hSecond, fun hSingle => absurd (hSingle 0 1 hFirst hSecond) (by decide)⟩

end Conversation
end OctoForge
