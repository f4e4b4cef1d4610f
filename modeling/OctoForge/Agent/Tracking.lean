import OctoForge.Agent.Loop
import Mathlib.Data.List.Forall2
import Mathlib.Data.List.Nodup
import OctoForge.Sequence.Places

/-!
# The books of a tracker

The tracker of an iteration finds a result by the id of its call.  As long as no
two of its calls have the same id, it finds the right one: every run of the
iteration that has not ended has its task in `tasks`, and every run that has
landed has its result in the queue or under its id (`Coherent`).

Runs only get older.  One that has ended stays as it is, so what has once been
answered from a run stays answered from it (`Grown`).
-/

namespace OctoForge
namespace Agent

/-- One run, later: the same call, and its task may have gone on, but it has not
landed since. -/
def Ages (run run' : ToolRun) : Prop :=
  run'.iteration = run.iteration ∧ run'.call = run.call ∧
    (run'.status = run.status ∨
      run.status.isEnded = false ∧ (run'.status = .expired ∨ run'.status = .cancelled))

theorem Ages.refl (run : ToolRun) : Ages run run := ⟨rfl, rfl, Or.inl rfl⟩

theorem Ages.ended {run run' : ToolRun} (hAges : Ages run run')
    (hEnded : run.status.isEnded = true) : run'.status = run.status := by
  rcases hAges.2.2 with hSame | ⟨hNot, -⟩
  · exact hSame
  · rw [hEnded] at hNot
    exact absurd hNot (by decide)

theorem Ages.not_ended {run run' : ToolRun} (hAges : Ages run run')
    (hNot : run'.status.isEnded = false) : run.status.isEnded = false := by
  rcases hAges.2.2 with hSame | ⟨hBefore, -⟩
  · rw [← hSame]
    exact hNot
  · exact hBefore

theorem Ages.landed {run run' : ToolRun} {r : ToolRunResult} (hAges : Ages run run')
    (hLanded : run'.status = .landed r) : run.status = .landed r := by
  rcases hAges.2.2 with hSame | ⟨-, hStatus | hStatus⟩
  · rw [← hSame, hLanded]
  · rw [hLanded] at hStatus
    simp at hStatus
  · rw [hLanded] at hStatus
    simp at hStatus

theorem ages_cancel (run : ToolRun) : Ages run run.cancel := by
  cases hStatus : run.status <;> simp [ToolRun.cancel, Ages, hStatus, RunStatus.isEnded]

/-- Every run of a list, later. -/
abbrev Older (runs runs' : List ToolRun) : Prop := List.Forall₂ Ages runs runs'

theorem Older.refl (runs : List ToolRun) : Older runs runs :=
  List.forall₂_same.mpr fun run _ => Ages.refl run

theorem Older.get {runs runs' : List ToolRun} (hOlder : Older runs runs') {n : Nat}
    {run : ToolRun} (hRun : runs[n]? = some run) : ∃ run', runs'[n]? = some run' ∧ Ages run run' := by
  induction hOlder generalizing n with
  | nil => simp at hRun
  | cons hAges _ ih =>
      cases n with
      | zero =>
          obtain rfl := Option.some.inj hRun
          exact ⟨_, rfl, hAges⟩
      | succ n => exact ih hRun

theorem Older.get_back {runs runs' : List ToolRun} (hOlder : Older runs runs') {n : Nat}
    {run' : ToolRun} (hRun : runs'[n]? = some run') : ∃ run, runs[n]? = some run ∧ Ages run run' := by
  induction hOlder generalizing n with
  | nil => simp at hRun
  | cons hAges _ ih =>
      cases n with
      | zero =>
          obtain rfl := Option.some.inj hRun
          exact ⟨_, rfl, hAges⟩
      | succ n => exact ih hRun

theorem older_set {runs : List ToolRun} {n : Nat} {run run' : ToolRun}
    (hRun : runs[n]? = some run) (hAges : Ages run run') : Older runs (runs.set n run') := by
  induction runs generalizing n with
  | nil => simp at hRun
  | cons first rest ih =>
      cases n with
      | zero =>
          obtain rfl := Option.some.inj hRun
          exact .cons hAges (Older.refl rest)
      | succ n => exact .cons (Ages.refl first) (ih hRun)

theorem older_mapIdx {runs : List ToolRun} {f : Nat → ToolRun → ToolRun}
    (hAges : ∀ n run, Ages run (f n run)) : Older runs (runs.mapIdx f) := by
  induction runs generalizing f with
  | nil => exact .nil
  | cons run rest ih =>
      rw [List.mapIdx_cons]
      exact .cons (hAges 0 run) (ih fun n run => hAges (n + 1) run)

/-- The calls a tracker has accepted, in order. -/
def callsOf (iteration : Nat) (runs : List ToolRun) : List ToolCall :=
  (runs.filter (·.iteration = iteration)).map (·.call)

theorem callsOf_append (iteration : Nat) (runs more : List ToolRun) :
    callsOf iteration (runs ++ more) = callsOf iteration runs ++ callsOf iteration more := by
  simp [callsOf]

theorem callsOf_congr {iteration : Nat} {runs runs' : List ToolRun}
    (hSame : runs'.map (fun run => (run.iteration, run.call)) =
      runs.map fun run => (run.iteration, run.call)) :
    callsOf iteration runs' = callsOf iteration runs := by
  have hPairs : ∀ list : List ToolRun, callsOf iteration list =
      ((list.map fun run => (run.iteration, run.call)).filter (·.1 = iteration)).map (·.2) := by
    intro list
    simp [callsOf, List.filter_map, Function.comp_def]
  rw [hPairs, hPairs, hSame]

theorem callsOf_older {iteration : Nat} {runs runs' : List ToolRun} (hOlder : Older runs runs') :
    callsOf iteration runs' = callsOf iteration runs := by
  refine callsOf_congr ?_
  induction hOlder with
  | nil => rfl
  | cons hAges _ ih => simp only [List.map_cons, hAges.1, hAges.2.1, ih]

theorem callsOf_set {iteration n : Nat} {runs : List ToolRun} {run run' : ToolRun}
    (hRun : runs[n]? = some run) (hIteration : run'.iteration = run.iteration)
    (hCall : run'.call = run.call) : callsOf iteration (runs.set n run') = callsOf iteration runs := by
  refine callsOf_congr ?_
  obtain ⟨hBound, rfl⟩ := List.getElem?_eq_some_iff.mp hRun
  refine List.ext_getElem (by simp) fun m hLeft hRight => ?_
  by_cases hSame : n = m
  · subst hSame
    simp [hIteration, hCall]
  · simp [List.getElem_set_ne hSame]

/-- The result is that of a run of the iteration. -/
def Landed (iteration : Nat) (runs : List ToolRun) (r : ToolRunResult) : Prop :=
  ∃ (n : Nat) (run : ToolRun), runs[n]? = some run ∧ run.iteration = iteration ∧
    run.call = r.call ∧ run.status = .landed r

theorem Landed.append {iteration : Nat} {runs : List ToolRun} {r : ToolRunResult}
    (hLanded : Landed iteration runs r) (more : List ToolRun) :
    Landed iteration (runs ++ more) r := by
  obtain ⟨n, run, hRun, hRest⟩ := hLanded
  refine ⟨n, run, ?_, hRest⟩
  rw [List.getElem?_append_left (List.getElem?_eq_some_iff.mp hRun).1, hRun]

theorem Landed.older {iteration : Nat} {runs runs' : List ToolRun} {r : ToolRunResult}
    (hLanded : Landed iteration runs r) (hOlder : Older runs runs') : Landed iteration runs' r := by
  obtain ⟨n, run, hRun, hIteration, hCall, hStatus⟩ := hLanded
  obtain ⟨run', hRun', hAges⟩ := hOlder.get hRun
  refine ⟨n, run', hRun', hAges.1.trans hIteration, hAges.2.1.trans hCall, ?_⟩
  rw [hAges.ended (by simp [hStatus, RunStatus.isEnded]), hStatus]

/-- The tracker of the iteration finds what the runs of the iteration have left. -/
structure Coherent (iteration : Nat) (runs : List ToolRun) (t : Tracker) : Prop where
  past : ∀ (n : Nat) run, runs[n]? = some run → run.iteration ≤ iteration
  calls : callsOf iteration runs = t.order
  ids : (t.order.map (·.id)).Nodup
  seen : t.seen = !t.order.isEmpty
  own : ∀ (n : Nat) run r, runs[n]? = some run → run.status = .landed r → r.call = run.call
  queue : ∀ r ∈ t.queue, Landed iteration runs r
  results : ∀ id r, t.results id = some r → r.call.id = id ∧ Landed iteration runs r
  found : ∀ (n : Nat) run r, runs[n]? = some run → run.iteration = iteration → run.status = .landed r →
    r ∈ t.queue ∨ t.results r.call.id = some r
  tasks : ∀ (n : Nat) run, runs[n]? = some run → run.iteration = iteration → run.status.isEnded = false →
    (run.call.id, n) ∈ t.tasks

namespace Coherent

variable {iteration : Nat} {runs : List ToolRun} {t : Tracker}

/-- Two runs of the iteration with the same id are one. -/
theorem unique (hBooks : Coherent iteration runs t) {n n' : Nat} {run run' : ToolRun}
    (hRun : runs[n]? = some run) (hRun' : runs[n']? = some run')
    (hIteration : run.iteration = iteration) (hIteration' : run'.iteration = iteration)
    (hId : run.call.id = run'.call.id) : n = n' := by
  have hNodup := hBooks.ids
  rw [← hBooks.calls, callsOf, List.map_map, List.Nodup, List.pairwise_map, List.pairwise_filter,
    List.pairwise_iff_getElem] at hNodup
  obtain ⟨hBound, hGet⟩ := List.getElem?_eq_some_iff.mp hRun
  obtain ⟨hBound', hGet'⟩ := List.getElem?_eq_some_iff.mp hRun'
  rcases Nat.lt_trichotomy n n' with hLt | hEq | hLt
  · refine absurd ?_ (hNodup n n' hBound hBound' hLt (by simp [hGet, hIteration])
      (by simp [hGet', hIteration']))
    simp [hGet, hGet', hId]
  · exact hEq
  · refine absurd ?_ (hNodup n' n hBound' hBound hLt (by simp [hGet', hIteration'])
      (by simp [hGet, hIteration]))
    simp [hGet, hGet', hId]

/-- Two results with the same id are one. -/
theorem unique_result (hBooks : Coherent iteration runs t) {r r' : ToolRunResult}
    (hLanded : Landed iteration runs r) (hLanded' : Landed iteration runs r')
    (hId : r.call.id = r'.call.id) : r = r' := by
  obtain ⟨n, run, hRun, hIteration, hCall, hStatus⟩ := hLanded
  obtain ⟨n', run', hRun', hIteration', hCall', hStatus'⟩ := hLanded'
  obtain rfl := hBooks.unique hRun hRun' hIteration hIteration' (by rw [hCall, hCall', hId])
  obtain rfl := Option.some.inj (hRun.symm.trans hRun')
  simpa using hStatus.symm.trans hStatus'

theorem older {runs' : List ToolRun} (hBooks : Coherent iteration runs t)
    (hOlder : Older runs runs') : Coherent iteration runs' t where
  past n run' hRun' := by
    obtain ⟨run, hRun, hAges⟩ := hOlder.get_back hRun'
    rw [hAges.1]
    exact hBooks.past n run hRun
  calls := by rw [callsOf_older hOlder, hBooks.calls]
  ids := hBooks.ids
  seen := hBooks.seen
  own n run' r hRun' hStatus := by
    obtain ⟨run, hRun, hAges⟩ := hOlder.get_back hRun'
    rw [hAges.2.1]
    exact hBooks.own n run r hRun (hAges.landed hStatus)
  queue r hMem := (hBooks.queue r hMem).older hOlder
  results id r hResult := ⟨(hBooks.results id r hResult).1, (hBooks.results id r hResult).2.older hOlder⟩
  found n run' r hRun' hIteration hStatus := by
    obtain ⟨run, hRun, hAges⟩ := hOlder.get_back hRun'
    exact hBooks.found n run r hRun (hAges.1 ▸ hIteration) (hAges.landed hStatus)
  tasks n run' hRun' hIteration hNot := by
    obtain ⟨run, hRun, hAges⟩ := hOlder.get_back hRun'
    rw [hAges.2.1]
    exact hBooks.tasks n run hRun (hAges.1 ▸ hIteration) (hAges.not_ended hNot)

/-- The tracker of the next iteration is empty. -/
theorem next (hBooks : Coherent iteration runs t) : Coherent (iteration + 1) runs {} where
  past n run hRun := Nat.le_succ_of_le (hBooks.past n run hRun)
  calls := by
    rw [callsOf, List.map_eq_nil_iff, List.filter_eq_nil_iff]
    intro run hMem
    obtain ⟨n, hRun⟩ := List.getElem?_of_mem hMem
    have hPast := hBooks.past n run hRun
    simp only [decide_eq_true_eq]
    omega
  ids := List.nodup_nil
  seen := rfl
  own := hBooks.own
  queue := by simp
  results := by simp
  found n run r hRun hIteration := by
    have hPast := hBooks.past n run hRun
    omega
  tasks n run hRun hIteration := by
    have hPast := hBooks.past n run hRun
    omega

end Coherent

/-! ## What a drain finds -/

theorem drain_results_cases (queue : List ToolRunResult) (results : String → Option ToolRunResult)
    (id : String) :
    (queue.foldl storeResult results id = results id ∧ ∀ r ∈ queue, r.call.id ≠ id) ∨
    ∃ r ∈ queue, r.call.id = id ∧ queue.foldl storeResult results id = some r := by
  induction queue generalizing results with
  | nil => exact Or.inl ⟨rfl, by simp⟩
  | cons first rest ih =>
      rw [List.foldl_cons]
      rcases ih (storeResult results first) with
        ⟨hSame, hOthers⟩ | ⟨r, hMem, hId, hFound⟩
      · by_cases hFirst : first.call.id = id
        · refine Or.inr ⟨first, List.mem_cons_self, hFirst, ?_⟩
          rw [hSame, ← hFirst, storeResult, Function.update_self]
        · refine Or.inl ⟨?_, fun r hMem => ?_⟩
          · rw [hSame, storeResult, Function.update_of_ne (fun hEq => hFirst hEq.symm)]
          · rcases List.mem_cons.mp hMem with rfl | hMem
            · exact hFirst
            · exact hOthers r hMem
      · exact Or.inr ⟨r, List.mem_cons_of_mem _ hMem, hId, hFound⟩

namespace Coherent

variable {iteration : Nat} {runs : List ToolRun} {t : Tracker}

/-- A landed result is found under its id, after a drain. -/
theorem drain_found (hBooks : Coherent iteration runs t) {r : ToolRunResult}
    (hLanded : Landed iteration runs r)
    (hAny : r ∈ t.queue ∨ t.results r.call.id = some r) :
    t.drain.results r.call.id = some r := by
  rcases drain_results_cases t.queue t.results r.call.id with
    ⟨hSame, hOthers⟩ | ⟨r', hMem, hId, hFound⟩
  · rcases hAny with hMem | hFound
    · exact absurd rfl (hOthers r hMem)
    · exact hSame.trans hFound
  · obtain rfl := hBooks.unique_result hLanded (hBooks.queue r' hMem) hId.symm
    exact hFound

theorem drain (hBooks : Coherent iteration runs t) : Coherent iteration runs t.drain where
  past := hBooks.past
  calls := hBooks.calls
  ids := hBooks.ids
  seen := hBooks.seen
  own := hBooks.own
  queue := by simp [Tracker.drain]
  results id r hResult := by
    rcases drain_results_cases t.queue t.results id with ⟨hSame, -⟩ | ⟨r', hMem, hId, hFound⟩
    · exact hBooks.results id r (hSame.symm.trans hResult)
    · obtain rfl := Option.some.inj (hFound.symm.trans hResult)
      exact ⟨hId, hBooks.queue r' hMem⟩
  found n run r hRun hIteration hStatus := by
    have hCall := hBooks.own n run r hRun hStatus
    exact Or.inr (hBooks.drain_found ⟨n, run, hRun, hIteration, hCall.symm, hStatus⟩
      (hBooks.found n run r hRun hIteration hStatus))
  tasks := hBooks.tasks

/-- A run lands, be it one of this iteration or one that was left behind. -/
theorem land (hBooks : Coherent iteration runs t) {n : Nat} {run : ToolRun} {r : ToolRunResult}
    (hRun : runs[n]? = some run) (hNot : run.status.isEnded = false) (hCall : r.call = run.call) :
    Coherent iteration (runs.set n { run with status := .landed r, alive := false })
      (if run.iteration = iteration then { t with queue := t.queue ++ [r] } else t) := by
  have hBound := (List.getElem?_eq_some_iff.mp hRun).1
  generalize hRuns : runs.set n { run with status := .landed r, alive := false } = runs'
  have hNew : runs'[n]? = some { run with status := .landed r, alive := false } := by
    rw [← hRuns, List.getElem?_set_self hBound]
  have hCases : ∀ {m other}, runs'[m]? = some other →
      m = n ∧ other = { run with status := .landed r, alive := false } ∨
        m ≠ n ∧ runs[m]? = some other := by
    intro m other hGet
    rw [← hRuns] at hGet
    exact Sequence.getElem?_set_cases hGet
  have hCalls : callsOf iteration runs' = callsOf iteration runs := by
    rw [← hRuns]
    exact callsOf_set hRun rfl rfl
  have hKeep : ∀ r', Landed iteration runs r' → Landed iteration runs' r' := by
    rintro r' ⟨m, other, hGet, hRest⟩
    have hNe : m ≠ n := by
      rintro rfl
      obtain rfl := Option.some.inj (hRun.symm.trans hGet)
      rw [hRest.2.2] at hNot
      simp [RunStatus.isEnded] at hNot
    refine ⟨m, other, ?_, hRest⟩
    rw [← hRuns, List.getElem?_set_ne (Ne.symm hNe), hGet]
  have hQueue : ∀ r' ∈ t.queue, r' ∈
      (if run.iteration = iteration then { t with queue := t.queue ++ [r] } else t).queue := by
    intro r' hMem
    split
    · exact List.mem_append_left _ hMem
    · exact hMem
  -- A run that was left behind is not queued, and nothing else of the tracker moves.
  have hSame : ∀ {α : Type} (f : Tracker → α), (∀ queue, f { t with queue } = f t) →
      f (if run.iteration = iteration then { t with queue := t.queue ++ [r] } else t) = f t := by
    intro α f hField
    split
    · exact hField _
    · rfl
  refine ⟨?_, ?_, ?_, ?_, ?_, ?_, ?_, ?_, ?_⟩
  · intro m other hGet
    rcases hCases hGet with ⟨rfl, rfl⟩ | ⟨-, hOld⟩
    · exact hBooks.past m run hRun
    · exact hBooks.past m other hOld
  · rw [hCalls, hSame (·.order) fun _ => rfl, hBooks.calls]
  · rw [hSame (·.order) fun _ => rfl]
    exact hBooks.ids
  · rw [hSame (·.order) fun _ => rfl, hSame (·.seen) fun _ => rfl, hBooks.seen]
  · intro m other r' hGet hStatus
    rcases hCases hGet with ⟨rfl, rfl⟩ | ⟨-, hOld⟩
    · obtain rfl : r = r' := by simpa using hStatus
      exact hCall
    · exact hBooks.own m other r' hOld hStatus
  · intro r' hMem
    split at hMem
    · rename_i hCurrent
      rcases List.mem_append.mp hMem with hMem | hMem
      · exact hKeep r' (hBooks.queue r' hMem)
      · obtain rfl := List.mem_singleton.mp hMem
        exact ⟨n, _, hNew, hCurrent, hCall.symm, rfl⟩
    · exact hKeep r' (hBooks.queue r' hMem)
  · intro id r' hResult
    rw [hSame (·.results) fun _ => rfl] at hResult
    exact ⟨(hBooks.results id r' hResult).1, hKeep r' (hBooks.results id r' hResult).2⟩
  · intro m other r' hGet hIteration hStatus
    rw [hSame (·.results) fun _ => rfl]
    rcases hCases hGet with ⟨rfl, rfl⟩ | ⟨-, hOld⟩
    · obtain rfl : r = r' := by simpa using hStatus
      have hCurrent : run.iteration = iteration := hIteration
      simp [hCurrent]
    · rcases hBooks.found m other r' hOld hIteration hStatus with hMem | hFound
      · exact Or.inl (hQueue r' hMem)
      · exact Or.inr hFound
  · intro m other hGet hIteration hRunning
    rw [hSame (·.tasks) fun _ => rfl]
    rcases hCases hGet with ⟨rfl, rfl⟩ | ⟨-, hOld⟩
    · simp [RunStatus.isEnded] at hRunning
    · exact hBooks.tasks m other hOld hIteration hRunning

/-- The tracker accepts a call with a new id: a run that has started, or a broken
call. -/
theorem accept (hBooks : Coherent iteration runs t) {t' : Tracker} {run : ToolRun}
    (hIteration : run.iteration = iteration) (hFresh : run.call.id ∉ t.order.map (·.id))
    (hOrder : t'.order = t.order ++ [run.call]) (hSeen : t'.seen = true)
    (hResults : t'.results = t.results)
    (hTasks : ∀ id n, (id, n) ∈ t.tasks → id ≠ run.call.id → (id, n) ∈ t'.tasks)
    (hStatus : (∃ r, run.status = .landed r ∧ r.call = run.call ∧ t'.queue = t.queue ++ [r]) ∨
      run.status.isEnded = false ∧ t'.queue = t.queue ∧ (run.call.id, runs.length) ∈ t'.tasks) :
    Coherent iteration (runs ++ [run]) t' := by
  have hOld : ∀ r ∈ t.queue, r ∈ t'.queue := by
    intro r hMem
    rcases hStatus with ⟨r', -, -, hQueue⟩ | ⟨-, hQueue, -⟩
    · rw [hQueue]
      exact List.mem_append_left _ hMem
    · rw [hQueue]
      exact hMem
  -- The run is the last of the list, so every other keeps its place.
  refine ⟨?_, ?_, ?_, ?_, ?_, ?_, ?_, ?_, ?_⟩
  · intro n other hOther
    rcases Sequence.getElem?_concat_cases hOther with hOther | ⟨rfl, rfl⟩
    · exact hBooks.past n other hOther
    · exact Nat.le_of_eq hIteration
  · rw [callsOf_append, hBooks.calls, hOrder]
    simp [callsOf, hIteration]
  · rw [hOrder, List.map_append, List.nodup_append]
    refine ⟨hBooks.ids, List.nodup_singleton _, ?_⟩
    rintro id hMem id' hMem' rfl
    obtain rfl : id = run.call.id := by simpa using hMem'
    exact hFresh hMem
  · rw [hSeen, hOrder]
    simp
  · intro n other r hOther hLanded
    rcases Sequence.getElem?_concat_cases hOther with hOther | ⟨rfl, rfl⟩
    · exact hBooks.own n other r hOther hLanded
    · rcases hStatus with ⟨r', hStatus, hCall, -⟩ | ⟨hNot, -⟩
      · obtain rfl : r' = r := by simpa using hStatus.symm.trans hLanded
        exact hCall
      · simp [hLanded, RunStatus.isEnded] at hNot
  · intro r hMem
    rcases hStatus with ⟨r', hStatus, hCall, hQueue⟩ | ⟨-, hQueue, -⟩
    · rw [hQueue] at hMem
      rcases List.mem_append.mp hMem with hMem | hMem
      · exact (hBooks.queue r hMem).append _
      · obtain rfl := List.mem_singleton.mp hMem
        exact ⟨runs.length, run, by simp, hIteration, hCall.symm, hStatus⟩
    · rw [hQueue] at hMem
      exact (hBooks.queue r hMem).append _
  · intro id r hResult
    rw [hResults] at hResult
    exact ⟨(hBooks.results id r hResult).1, (hBooks.results id r hResult).2.append _⟩
  · intro n other r hOther hCurrent hLanded
    rw [hResults]
    rcases Sequence.getElem?_concat_cases hOther with hOther | ⟨rfl, rfl⟩
    · exact (hBooks.found n other r hOther hCurrent hLanded).imp_left (hOld r)
    · rcases hStatus with ⟨r', hStatus, -, hQueue⟩ | ⟨hNot, -⟩
      · obtain rfl : r' = r := by simpa using hStatus.symm.trans hLanded
        rw [hQueue]
        exact Or.inl (List.mem_append_right _ (List.mem_singleton_self _))
      · simp [hLanded, RunStatus.isEnded] at hNot
  · intro n other hOther hCurrent hNot
    rcases Sequence.getElem?_concat_cases hOther with hOther | ⟨rfl, rfl⟩
    · refine hTasks _ n (hBooks.tasks n other hOther hCurrent hNot) fun hEq => hFresh ?_
      rw [← hEq, ← hBooks.calls, callsOf, List.map_map]
      exact List.mem_map.mpr ⟨other, List.mem_filter.mpr
        ⟨List.mem_of_getElem? hOther, by simp [hCurrent]⟩, rfl⟩
    · rcases hStatus with ⟨r', hStatus, -⟩ | ⟨-, -, hTask⟩
      · simp [hStatus, RunStatus.isEnded] at hNot
      · exact hTask

end Coherent

theorem mem_setTask_self (id : String) (number : Nat) (tasks : List (String × Nat)) :
    (id, number) ∈ setTask id number tasks := by
  unfold setTask
  split
  · rename_i hAny
    obtain ⟨task, hMem, hId⟩ := List.any_eq_true.mp hAny
    exact List.mem_map.mpr ⟨task, hMem, if_pos (by simpa using hId)⟩
  · exact List.mem_append_right _ (List.mem_singleton_self _)

theorem mem_setTask {id id' : String} {number n : Nat} {tasks : List (String × Nat)}
    (hMem : (id', n) ∈ tasks) (hNe : id' ≠ id) : (id', n) ∈ setTask id number tasks := by
  unfold setTask
  split
  · exact List.mem_map.mpr ⟨(id', n), hMem, by simp [hNe]⟩
  · exact List.mem_append_left _ hMem

/-- The books of a loop. -/
def Loop.Coherent (s : Loop) : Prop := Agent.Coherent s.iterations s.runs s.tracker

theorem Loop.Coherent.spawn {s : Loop} {call : ToolCall} (hBooks : s.Coherent)
    (hFresh : call.id ∉ s.tracker.order.map (·.id)) : (s.spawn call).Coherent :=
  Agent.Coherent.accept hBooks rfl hFresh rfl rfl rfl (fun _ _ hMem hNe => mem_setTask hMem hNe)
    (Or.inr ⟨rfl, rfl, mem_setTask_self _ _ _⟩)

theorem Loop.Coherent.markBroken {s : Loop} {callId name error : String} (hBooks : s.Coherent)
    (hFresh : callId ∉ s.tracker.order.map (·.id)) : (s.markBroken callId name error).Coherent :=
  Agent.Coherent.accept hBooks rfl hFresh rfl rfl rfl (fun _ _ hMem _ => hMem)
    (Or.inl ⟨_, rfl, rfl, rfl⟩)

theorem older_cancelTasks (s : Loop) : Older s.runs s.cancelTasks.runs := by
  refine older_mapIdx fun n run => ?_
  split
  · exact ages_cancel run
  · exact Ages.refl run

theorem Loop.Coherent.cancelTasks {s : Loop} (hBooks : s.Coherent) : s.cancelTasks.Coherent :=
  Agent.Coherent.older hBooks (older_cancelTasks s)

theorem Loop.Coherent.drain {s : Loop} (hBooks : s.Coherent) : s.drain.Coherent :=
  Agent.Coherent.drain hBooks

theorem Loop.Coherent.beginIteration {s : Loop} (hBooks : s.Coherent) :
    s.beginIteration.Coherent := by
  have hNext := Agent.Coherent.next hBooks
  rwa [show s.iterations + 1 = s.beginIteration.iterations by
    simp [Loop.iterations, Loop.beginIteration]] at hNext

/-! ## What the surroundings do -/

/-- A run lands. -/
def Loop.Lands (s s' : Loop) : Prop :=
  ∃ n run r, s.runs[n]? = some run ∧ run.status.isEnded = false ∧ r.call = run.call ∧
    s' = s.land n run r

/-- A step of the surroundings: the loop's own affairs stay as they are, the cancel
flag is never taken back, and of the runs one may land while the others get older. -/
structure Loop.Beside (s s' : Loop) : Prop where
  own : s'.own = s.own
  emitted : s'.emitted = s.emitted
  outcome : s'.outcome = s.outcome
  prompts : s'.prompts = s.prompts
  waiting : s'.waiting = s.waiting
  slips : s'.slips = s.slips
  cancelled : s.cancelled = true → s'.cancelled = true
  watched : s'.watched = true → s.watched = true ∨ s'.cancelled = true
  waitCancels : s'.waitCancels = s.waitCancels ∨
    s'.cancelled = true ∧ s'.waitCancels = s.waitCancels ++ s.waiting.toList
  runs : Older s.runs s'.runs ∧ s'.tracker = s.tracker ∨ s.Lands s'

theorem Loop.beside_set {s : Loop} {n : Nat} {run run' : ToolRun} (hRun : s.runs[n]? = some run)
    (hAges : Ages run run') : s.Beside { s with runs := s.runs.set n run' } :=
  ⟨rfl, rfl, rfl, rfl, rfl, rfl, id, Or.inl, Or.inl rfl, Or.inl ⟨older_set hRun hAges, rfl⟩⟩

theorem Loop.beside_land {s : Loop} {n : Nat} {run : ToolRun} {r : ToolRunResult}
    (hRun : s.runs[n]? = some run) (hNot : run.status.isEnded = false) (hCall : r.call = run.call) :
    s.Beside (s.land n run r) :=
  ⟨rfl, rfl, rfl, rfl, rfl, rfl, id, Or.inl, Or.inl rfl, Or.inr ⟨n, run, r, hRun, hNot, hCall, rfl⟩⟩

theorem Loop.Beside.refl (s : Loop) : s.Beside s :=
  ⟨rfl, rfl, rfl, rfl, rfl, rfl, id, Or.inl, Or.inl rfl, Or.inl ⟨Older.refl s.runs, rfl⟩⟩

theorem Loop.beside_toolEnds {s : Loop} {n : Nat} {run : ToolRun} (hRun : s.runs[n]? = some run)
    (hWaiting : run.status = .waiting) (outcome : ToolOutcome) :
    s.Beside (s.toolEnds n run outcome) := by
  have hNot : run.status.isEnded = false := by simp [hWaiting, RunStatus.isEnded]
  cases outcome with
  | output text => exact beside_land hRun hNot rfl
  | raised className message => exact beside_land hRun hNot rfl
  | cancelled => exact beside_set hRun ⟨rfl, rfl, Or.inr ⟨hNot, Or.inr rfl⟩⟩

theorem Loop.beside_toolStops {s : Loop} {n : Nat} {run : ToolRun} (hRun : s.runs[n]? = some run)
    (outcome : ToolOutcome) : s.Beside (s.happen (.toolStops n outcome)) := by
  simp only [happen, hRun]
  split
  · rename_i hExpired
    have hNot : run.status.isEnded = false := by simp [hExpired, RunStatus.isEnded]
    refine beside_land hRun hNot ?_
    cases outcome <;> rfl
  · exact beside_set hRun ⟨rfl, rfl, Or.inl rfl⟩
  · exact Beside.refl s

theorem Surroundings.beside {s s' : Loop} (hStep : Surroundings s s') : s.Beside s' := by
  obtain ⟨h, rfl⟩ := hStep
  cases h with
  | cancel =>
      refine ⟨rfl, rfl, rfl, rfl, rfl, rfl, fun _ => rfl, Or.inl, ?_, Or.inl ⟨Older.refl _, rfl⟩⟩
      show (if s.cancelled then s.waitCancels else _) = _ ∨ _
      split
      · exact Or.inl rfl
      · rename_i hNot
        exact Or.inr ⟨rfl, by simp [Loop.happen, hNot]⟩
  | watch =>
      refine ⟨rfl, rfl, rfl, rfl, rfl, rfl, id, fun hWatched => ?_, Or.inl rfl,
        Or.inl ⟨Older.refl _, rfl⟩⟩
      simpa [Loop.happen] using hWatched
  | arrive => exact { Loop.Beside.refl s with runs := Or.inl ⟨Older.refl _, rfl⟩ }
  | idle => exact { Loop.Beside.refl s with runs := Or.inl ⟨Older.refl _, rfl⟩ }
  | interrupt => exact { Loop.Beside.refl s with runs := Or.inl ⟨Older.refl _, rfl⟩ }
  | close => exact { Loop.Beside.refl s with runs := Or.inl ⟨Older.refl _, rfl⟩ }
  | closeFails fails => exact { Loop.Beside.refl s with runs := Or.inl ⟨Older.refl _, rfl⟩ }
  -- The tools act on their own run only, if it is there.
  | toolEnds n outcome =>
      cases hRun : s.runs[n]? with
      | none =>
          simp only [Loop.happen, hRun]
          exact Loop.Beside.refl s
      | some run =>
          simp only [Loop.happen, hRun]
          split
          · exact Loop.beside_toolEnds hRun ‹_› outcome
          · exact Loop.Beside.refl s
  | toolExpires n =>
      cases hRun : s.runs[n]? with
      | none =>
          simp only [Loop.happen, hRun]
          exact Loop.Beside.refl s
      | some run =>
          simp only [Loop.happen, hRun]
          split
          · rename_i hWaiting
            exact Loop.beside_set hRun
              ⟨rfl, rfl, Or.inr ⟨by simp [hWaiting, RunStatus.isEnded], Or.inl rfl⟩⟩
          · exact Loop.Beside.refl s
  | toolStops n outcome =>
      cases hRun : s.runs[n]? with
      | none =>
          simp only [Loop.happen, hRun]
          exact Loop.Beside.refl s
      | some run => exact Loop.beside_toolStops hRun outcome
  | toolDefies n =>
      cases hRun : s.runs[n]? with
      | none =>
          simp only [Loop.happen, hRun]
          exact Loop.Beside.refl s
      | some run =>
          simp only [Loop.happen, hRun]
          exact Loop.beside_set hRun ⟨rfl, rfl, Or.inl rfl⟩

theorem Loop.Beside.coherent {s s' : Loop} (hBeside : s.Beside s') (hBooks : s.Coherent) :
    s'.Coherent := by
  have hIterations : s'.iterations = s.iterations := by rw [iterations, hBeside.prompts, iterations]
  rcases hBeside.runs with ⟨hOlder, hTracker⟩ | ⟨n, run, r, hRun, hNot, hCall, rfl⟩
  · rw [Loop.Coherent, hIterations, hTracker]
    exact Agent.Coherent.older hBooks hOlder
  · exact Agent.Coherent.land hBooks hRun hNot hCall

end Agent
end OctoForge
