import Mathlib.Data.List.Count
import OctoForge.Conversation.Steps

/-!
# Sending a message again

A submit may carry the key its client gave it.  A handling that finds the key
stored does nothing: the message was taken before.  It was stored before, that
is; whether it was also routed the check does not ask.  A handling that fails
after its row was inserted and before the message was appended to the narrative
reports the failure, and when the client sends the message again the handling
takes it for a duplicate.

`resend_routed_once` counts over all the handlings of one key, each beside
others who may do anything but store the key: after a handling without failures
the message is stored once and routed once, unless one of the failed handlings
was interrupted between the two.
-/

namespace OctoForge
namespace Conversation

open Coop Co
open Dialog (ExchangeId MessageId ChatMessage MessageRole MessageKind)

/-- The step appends a message of the user to the narrative.  Every message that
is handled to the end is appended once, whether it goes to an exchange, is a
command or is refused by the process limit. -/
def routes (step : World × World) : Bool :=
  (step.2.narrative.drop step.1.narrative.length).any fun m => m.role = .user

def routings (steps : List (World × World)) : Nat := steps.countP routes

/-- The row was inserted and the message never reached the narrative. -/
def Interrupted (key : String) (steps : List (World × World)) : Prop :=
  (∃ u v, (u, v) ∈ steps ∧ key ∉ u.clientIds ∧ key ∈ v.clientIds) ∧ routings steps = 0

/-- What the others may do: anything but store the key. -/
def Unkeyed (key : String) (s s' : World) : Prop :=
  s'.clientIds.count key = s.clientIds.count key

/-! ## Steps that neither store nor route -/

structure Mute (s s' : World) : Prop where
  clientIds : s'.clientIds = s.clientIds
  unrouted : routes (s, s') = false

section Mute

variable {α : Type}

theorem mute_of_same {s s' : World} (hIds : s'.clientIds = s.clientIds)
    (hNarrative : s'.narrative = s.narrative) : Mute s s' :=
  ⟨hIds, by simp [routes, hNarrative]⟩

theorem Mute.refl (s : World) : Mute s s := mute_of_same rfl rfl

theorem mute_transaction {f : World → α × World} (hMute : ∀ s, Mute s (f s).2) :
    Steps Mute (transaction f) :=
  atoms_transaction Mute.refl fun s _ _ => ⟨trivial, hMute s⟩

theorem mute_transactionOn {x : ExchangeId} {f : World → α × World}
    (hMute : ∀ s, Mute s (f s).2) : Steps Mute (transactionOn x f) :=
  atoms_transactionOn Mute.refl fun s _ _ _ => ⟨trivial, hMute s⟩

theorem mute_select (f : World → α) : Steps Mute (select f) := mute_transaction Mute.refl

theorem mute_read (f : World → α) : Steps Mute (Co.read f : Work α) := Co.atoms_read Mute.refl

theorem mute_modify {f : World → World} (hMute : ∀ s, Mute s (f s)) :
    Steps Mute (Co.modify f : Work Unit) :=
  Co.atoms_modify fun s _ _ _ => ⟨trivial, hMute s⟩

theorem mute_suppressNotFound {value : α} {c : Work α} (hMute : Steps Mute c) :
    Steps Mute (suppressNotFound value c) := by
  refine Atoms.tryCatch hMute fun error => ?_
  cases error with
  | exchangeNotFound => exact Co.atoms_done _
  | unavailable => exact Co.atoms_fail _

theorem mute_withSpawnLock {me : Nat} {body : Work α} (hMute : Steps Mute body) :
    Steps Mute (withSpawnLock me body) := by
  refine Atoms.bind (Co.atoms_blockUntil fun s _ _ _ => ⟨trivial, mute_of_same rfl rfl⟩) fun _ => ?_
  refine Atoms.ensure hMute fun s _ _ => ⟨trivial, ?_⟩
  unfold releaseSpawnLock
  split
  · exact mute_of_same rfl rfl
  · exact .refl s

/-- A notice is nobody's message. -/
theorem mute_deliverNotice (content : String) (own : Option ExchangeId) :
    Steps Mute (deliverNotice content own) := by
  refine Atoms.bind (mute_transaction fun s => mute_of_same ?_ rfl) fun id => ?_
  · simp [World.persist]
  · refine Atoms.bind (mute_modify fun s => ⟨rfl, ?_⟩) fun _ => ?_
    · simp [routes, World.queueNotice]
    · exact Co.atoms_attempt fun _ _ _ _ => ⟨trivial, mute_of_same rfl rfl⟩

theorem mute_rejectForLimit (cfg : RunnerConfig) (message : ChatMessage) :
    Steps Mute (rejectForLimit cfg message) :=
  Atoms.bind (mute_read _) fun _ => mute_deliverNotice _ none

theorem mute_tariffNoticeOnce (key notice : String) :
    Steps Mute (tariffNoticeOnce key notice) := by
  refine Atoms.bind (Co.atoms_atomic fun s _ _ _ => ⟨trivial, ?_⟩) fun silent => ?_
  · dsimp only
    split
    · exact .refl s
    · exact mute_of_same rfl rfl
  · cases silent with
    | none => exact Atoms.bind (mute_deliverNotice notice none) fun _ => Co.atoms_done _
    | some s => exact Co.atoms_done _

theorem mute_startAnswer (seen : Seen) (cancelEpoch : Option Nat) (notifyLimit : Bool) :
    Steps Mute (startAnswer seen cancelEpoch notifyLimit) := by
  refine Atoms.bind (Atoms.tryCatch (mute_select _) fun _ => Co.atoms_done true) fun owns => ?_
  split
  · exact Atoms.bind (mute_modify fun s => mute_of_same rfl rfl) fun _ => Co.atoms_done _
  · refine Atoms.bind (mute_select _) fun budget => ?_
    cases budget with
    | some verdict =>
        dsimp only
        split
        · exact mute_tariffNoticeOnce _ _
        · exact Co.atoms_done _
    | none =>
        refine Atoms.bind (mute_transactionOn fun s => mute_of_same rfl rfl) fun task => ?_
        refine Atoms.bind (mute_select _) fun _ => ?_
        exact Atoms.bind (mute_modify fun s => mute_of_same rfl rfl) fun _ => Co.atoms_done _

theorem mute_knownOrGet (x : ExchangeId) (known : Option Seen) :
    Steps Mute (knownOrGet x known) := by
  cases known with
  | some seen => exact Co.atoms_done _
  | none =>
      refine Atoms.bind (mute_select _) fun found => ?_
      cases found with
      | some seen => exact Co.atoms_done _
      | none => exact Co.atoms_fail _

theorem mute_letIn (cfg : RunnerConfig) (cancelled : List ExchangeId) (s : World) :
    Mute s (letIn cfg cancelled s).2 := by
  unfold letIn
  split
  · exact .refl s
  · exact mute_of_same rfl rfl

theorem mute_ensureOwner (cfg : RunnerConfig) (me : Nat) (x : ExchangeId) (message : ChatMessage)
    (cancelled : List ExchangeId) (cancelEpoch : Nat) (known : Option Seen) :
    Steps Mute (ensureOwner cfg me x message cancelled cancelEpoch known) := by
  refine mute_suppressNotFound (mute_withSpawnLock ?_)
  refine Atoms.bind (mute_read _) fun looked => ?_
  split
  · exact Co.atoms_done _
  · refine Atoms.bind (mute_knownOrGet x known) fun seen => ?_
    refine Atoms.bind (Co.atoms_atomic fun s _ _ _ => ⟨trivial, mute_letIn cfg cancelled s⟩)
      fun admitted => ?_
    split
    · exact Atoms.bind (mute_startAnswer seen _ true) fun _ => Co.atoms_done _
    · exact Atoms.bind (mute_rejectForLimit cfg message) fun _ => Co.atoms_done _

theorem mute_attachMessage (message : ChatMessage) : Steps Mute (attachMessage message) := by
  unfold attachMessage
  split
  · exact mute_transaction fun s => mute_of_same rfl rfl
  · exact Co.atoms_done _

theorem mute_nudgeStaleExchanges (cfg : RunnerConfig) (current : Option ExchangeId)
    (live : List Exchange) (cancelled : List ExchangeId) :
    Steps Mute (nudgeStaleExchanges cfg current live cancelled) := by
  refine Atoms.bind (mute_read _) fun now => Atoms.forEach fun exchange _ => ?_
  cases exchange.pendingQuestion with
  | none => exact Co.atoms_done _
  | some question => exact mute_deliverNotice _ none

theorem mute_cancelExchanges (ids : List ExchangeId) : Steps Mute (cancelExchanges ids) := by
  induction ids with
  | nil => exact Co.atoms_done _
  | cons x rest ih =>
      refine Atoms.bind (mute_modify fun s => ?_) fun _ => ?_
      · split
        · exact mute_of_same rfl rfl
        · exact .refl s
      · refine Atoms.bind (mute_suppressNotFound ?_) fun done => ?_
        · exact Atoms.bind (mute_transactionOn fun s => mute_of_same rfl rfl)
            fun _ => Co.atoms_done _
        · exact Atoms.bind ih fun _ => Co.atoms_done _

theorem mute_chooseExchange (cfg : RunnerConfig) (message : ChatMessage) (decision : RouteDecision)
    (cancelled : List ExchangeId) (cancelEpoch : Nat) :
    Steps Mute (chooseExchange cfg message decision cancelled cancelEpoch) := by
  unfold chooseExchange
  split
  · refine Atoms.bind ?_ fun _ => Co.atoms_done _
    unfold retitle
    split
    · exact Co.atoms_done _
    · exact Atoms.tryCatch (mute_transaction fun s => mute_of_same rfl rfl) fun _ => Co.atoms_done _
  · exact Co.atoms_done _
  · refine Atoms.bind (mute_read _) fun exceeds => ?_
    split
    · exact Co.atoms_done _
    · exact Atoms.bind (mute_transaction fun s => mute_of_same rfl rfl) fun _ => Co.atoms_done _

theorem mute_materialHome (command : Submit) : Steps Mute (materialHome command) := by
  refine Atoms.bind (mute_select _) fun live => ?_
  refine Atoms.bind (mute_read _) fun answering => ?_
  split
  · exact Co.atoms_done _
  · refine Atoms.bind (mute_select _) fun found => ?_
    cases found with
    | some exchange => exact Co.atoms_done _
    | none =>
        exact Atoms.bind (mute_transaction fun s => mute_of_same rfl rfl) fun _ => Co.atoms_done _

theorem mute_route (cfg : RunnerConfig) (command : Submit) (live : List Exchange)
    (reply : Option RouteArguments) : Steps Mute (route cfg command live reply) := by
  refine Atoms.bind (mute_read _) fun now => ?_
  dsimp only
  split
  · exact Co.atoms_done _
  · exact Co.atoms_done _
  · exact Co.atoms_done _
  · exact Atoms.bind (mute_read _) fun _ => Co.atoms_done _

end Mute

/-! ## Failures -/

/-- The database answers. -/
def Up (s : World) : Prop := s.storeDown = false

/-- As long as the database answers, nothing is raised. -/
abbrev Sturdy {α : Type} (c : Work α) : Prop := Raises Up (fun _ => False) c

section Sturdy

variable {α : Type}

theorem sturdy_transaction (f : World → α × World) : Sturdy (transaction f) := by
  refine raises_attempt fun s error hUp hRaised => ?_
  rw [Up] at hUp
  simp [hUp] at hRaised

theorem sturdy_select (f : World → α) : Sturdy (select f) := sturdy_transaction _

theorem sturdy_read (f : World → α) : Sturdy (Co.read f : Work α) := fun _ _ => trivial

theorem sturdy_cancelExchanges (ids : List ExchangeId) : Sturdy (cancelExchanges ids) := by
  induction ids with
  | nil => trivial
  | cons x rest ih =>
      refine Raises.bind (fun _ _ => trivial) fun _ => ?_
      refine Raises.bind ?_ fun done => Raises.bind ih fun _ => raises_done _
      -- an exchange that is not there is passed over
      have hWrite : Raises Up (fun error => error = .exchangeNotFound)
          (setStatus x .cancelled none none) := by
        refine raises_attempt fun s error hUp hRaised => ?_
        rw [Up] at hUp
        simp only [hUp, Bool.false_eq_true, if_false] at hRaised
        split at hRaised
        · exact (Except.error.inj hRaised).symm
        · simp at hRaised
      refine Raises.tryCatch (Raises.bind hWrite fun _ => raises_done _) fun error hError => ?_
      subst hError
      exact raises_done _

theorem sturdy_chooseExchange (cfg : RunnerConfig) (message : ChatMessage)
    (decision : RouteDecision) (cancelled : List ExchangeId) (cancelEpoch : Nat) :
    Sturdy (chooseExchange cfg message decision cancelled cancelEpoch) := by
  unfold chooseExchange
  split
  · refine Raises.bind ?_ fun _ => raises_done _
    unfold retitle
    split
    · exact raises_done _
    · exact Raises.tryCatch (sturdy_transaction _) fun _ hNever => hNever.elim
  · exact raises_done _
  · refine Raises.bind (sturdy_read _) fun exceeds => ?_
    split
    · exact raises_done _
    · exact Raises.bind (sturdy_transaction _) fun _ => raises_done _

theorem sturdy_materialHome (command : Submit) : Sturdy (materialHome command) := by
  refine Raises.bind (sturdy_select _) fun live => ?_
  refine Raises.bind (sturdy_read _) fun answering => ?_
  split
  · exact raises_done _
  · refine Raises.bind (sturdy_select _) fun found => ?_
    cases found with
    | some exchange => exact raises_done _
    | none => exact Raises.bind (sturdy_transaction _) fun _ => raises_done _

theorem sturdy_route (cfg : RunnerConfig) (command : Submit) (live : List Exchange)
    (reply : Option RouteArguments) : Sturdy (route cfg command live reply) := by
  refine Raises.bind (sturdy_read _) fun now => ?_
  dsimp only
  split
  · exact raises_done _
  · exact raises_done _
  · exact raises_done _
  · exact Raises.bind (sturdy_read _) fun _ => raises_done _

end Sturdy

/-! ## One append -/

/-- Every trace that ends routes the message once, unless the database did not
answer before it came to that. -/
def RoutesOnce {α : Type} (c : Work α) : Prop :=
  ∀ ⦃env : World → World → Prop⦄ ⦃s t : World⦄ ⦃steps : List (World × World)⦄
    ⦃r : Except StoreError α⦄, Trace env c s steps (ended r) t →
    (∀ u v, (u, v) ∈ steps → v.clientIds = u.clientIds) ∧
      (routings steps = 1 ∨
        (routings steps = 0 ∧ (∃ error, r = .error error) ∧
          ∃ u v, (u, v) ∈ steps ∧ u.storeDown = true))

section Once

variable {α β : Type}

theorem routings_append (steps more : List (World × World)) :
    routings (steps ++ more) = routings steps + routings more :=
  List.countP_append

theorem routings_of_mute {env : World → World → Prop} {s t : World} {steps : List (World × World)}
    {c c' : Work α} (hMute : Steps Mute c) (hTrace : Trace env c s steps c' t) :
    routings steps = 0 := by
  refine List.countP_eq_zero.mpr fun step hMem => ?_
  simpa using (hMute.trace hTrace step.1 step.2 hMem).unrouted

/-- What comes before the append. -/
theorem RoutesOnce.after {c : Work α} {f : α → Work β} (hMute : Steps Mute c) (hSturdy : Sturdy c)
    (hRest : ∀ value, RoutesOnce (f value)) : RoutesOnce (c.bind f) := by
  intro env s t steps r hTrace
  rcases hTrace.bind_cases with ⟨value, first, second, u, rfl, hFirst, hSecond⟩ | ⟨error, rfl, hFail⟩
  · have hNone := routings_of_mute hMute hFirst
    obtain ⟨hIds, hOnce⟩ := hRest value hSecond
    refine ⟨fun v v' hMem => ?_, ?_⟩
    · rcases List.mem_append.mp hMem with hMem | hMem
      · exact (hMute.trace hFirst v v' hMem).clientIds
      · exact hIds v v' hMem
    · rw [routings_append, hNone, Nat.zero_add]
      rcases hOnce with hOnce | ⟨hNever, hError, v, v', hMem, hDown⟩
      · exact Or.inl hOnce
      · exact Or.inr ⟨hNever, hError, v, v', List.mem_append_right _ hMem, hDown⟩
  · refine ⟨fun v v' hMem => (hMute.trace hFail v v' hMem).clientIds, Or.inr ?_⟩
    refine ⟨routings_of_mute hMute hFail, ⟨error, rfl⟩, ?_⟩
    by_contra hNever
    refine hSturdy.trace hFail fun v v' hMem => ?_
    rw [Up, ← Bool.not_eq_true]
    exact fun hDown => hNever ⟨v, v', hMem, hDown⟩

/-- What comes after it. -/
theorem RoutesOnce.before {c : Work α} {f : α → Work β} (hOnce : RoutesOnce c)
    (hMute : ∀ value, Steps Mute (f value)) : RoutesOnce (c.bind f) := by
  intro env s t steps r hTrace
  rcases hTrace.bind_cases with ⟨value, first, second, u, rfl, hFirst, hSecond⟩ | ⟨error, rfl, hFail⟩
  · obtain ⟨hIds, hRouted⟩ := hOnce hFirst
    refine ⟨fun v v' hMem => ?_, Or.inl ?_⟩
    · rcases List.mem_append.mp hMem with hMem | hMem
      · exact hIds v v' hMem
      · exact ((hMute value).trace hSecond v v' hMem).clientIds
    · rw [routings_append, routings_of_mute (hMute value) hSecond, Nat.add_zero]
      rcases hRouted with hRouted | ⟨-, ⟨error, hError⟩, -⟩
      · exact hRouted
      · simp at hError
  · obtain ⟨hIds, hRouted⟩ := hOnce hFail
    refine ⟨hIds, ?_⟩
    rcases hRouted with hRouted | ⟨hNever, -, hDown⟩
    · exact Or.inl hRouted
    · exact Or.inr ⟨hNever, ⟨error, rfl⟩, hDown⟩

theorem routesOnce_append {message : ChatMessage} (hUser : message.role = .user) (stops : Nat) :
    RoutesOnce (Co.modify (World.appendNarrative message stops) : Work Unit) := by
  intro env s t steps r hTrace
  obtain ⟨u, -, rfl, -, -⟩ := hTrace.modify_cases
  refine ⟨fun v v' hMem => ?_, Or.inl ?_⟩
  · obtain ⟨rfl, rfl⟩ := Prod.mk.inj (List.mem_singleton.mp hMem)
    rfl
  · simp [routings, routes, World.appendNarrative, hUser]

theorem routesOnce_applyRoute (cfg : RunnerConfig) (me : Nat) {message : ChatMessage}
    (hUser : message.role = .user) (decision : RouteDecision) (cancelEpoch : Nat)
    (live : List Exchange) : RoutesOnce (applyRoute cfg me message decision cancelEpoch live) := by
  refine RoutesOnce.after (mute_cancelExchanges _) (sturdy_cancelExchanges _) fun cancelled => ?_
  refine RoutesOnce.after (mute_chooseExchange _ _ _ _ _) (sturdy_chooseExchange _ _ _ _ _) fun chosen => ?_
  refine RoutesOnce.before (routesOnce_append (by exact hUser) cancelEpoch) fun _ => ?_
  refine Atoms.bind (mute_attachMessage _) fun _ => ?_
  cases chosen with
  | none => exact Atoms.bind (mute_rejectForLimit cfg _) fun _ => Co.atoms_done _
  | some target =>
      refine Atoms.bind ?_ fun assignment => ?_
      · cases target with
        | none => exact Co.atoms_done _
        | some place => exact mute_ensureOwner cfg me _ _ _ _ _
      · exact Atoms.bind (mute_nudgeStaleExchanges cfg _ live cancelled) fun _ => Co.atoms_done _

theorem routesOnce_collectMaterial {message : ChatMessage} (hUser : message.role = .user)
    (command : Submit) : RoutesOnce (collectMaterial message command) := by
  refine RoutesOnce.after (mute_materialHome command) (sturdy_materialHome command) fun x => ?_
  refine RoutesOnce.before (routesOnce_append (by exact hUser) _) fun _ => ?_
  refine Atoms.bind (mute_attachMessage _) fun _ => ?_
  exact Atoms.bind (mute_transaction fun s => mute_of_same rfl rfl) fun _ => Co.atoms_done _

theorem routesOnce_rest (cfg : RunnerConfig) (me : Nat) (reply : Option RouteArguments)
    (command : Submit) (id : MessageId) :
    RoutesOnce ((do
      let message := { command.message with id := some id }
      select fun _ => ()
      match message.kind with
      | .material => do
          let x ← collectMaterial message command
          pure (.collected x)
      | .own => do
          let live ← select (·.listLive)
          let decision ← route cfg command live reply
          select fun _ => ()
          applyRoute cfg me message decision command.cancelEpoch live) : Work Handled) := by
  refine RoutesOnce.after (mute_select _) (sturdy_select _) fun _ => ?_
  dsimp only
  split
  · exact (routesOnce_collectMaterial rfl command).before fun _ => Co.atoms_done _
  · refine RoutesOnce.after (mute_select _) (sturdy_select _) fun live => ?_
    refine RoutesOnce.after (mute_route _ _ _ _) (sturdy_route _ _ _ _) fun decision => ?_
    refine RoutesOnce.after (mute_select _) (sturdy_select _) fun _ => ?_
    exact routesOnce_applyRoute cfg me rfl decision _ live

end Once

/-! ## Handlings -/

/-- A submit with the key is handled to its end. -/
def Handling (cfg : RunnerConfig) (key : String) (s : World) (steps : List (World × World))
    (r : Except StoreError Handled) (t : World) : Prop :=
  ∃ me reply command, command.clientMessageId = some key ∧
    Trace (Unkeyed key) (handleSubmit cfg me reply command) s steps (ended r) t

/-- The actor has told the user that the message was not handled. -/
def Fails : Except StoreError Handled → Bool
  | .error _ => true
  | .ok .notStored => true
  | .ok _ => false

/-- What a handling does with its key. -/
inductive Outcome (key : String) (s : World) (steps : List (World × World)) (t : World) : Prop
  | refused (hCount : t.clientIds.count key = s.clientIds.count key) (hUnrouted : routings steps = 0)
      (hSame : ∀ u v, (u, v) ∈ steps → v.clientIds = u.clientIds)
      (hWhy : key ∈ s.clientIds ∨ ∃ u v, (u, v) ∈ steps ∧ u.storeDown = true)
  | stored (hNew : key ∉ s.clientIds) (hCount : t.clientIds.count key = 1)
      (hStores : ∃ u v, (u, v) ∈ steps ∧ key ∉ u.clientIds ∧ key ∈ v.clientIds)
      (hOnce : routings steps = 1 ∨
        (routings steps = 0 ∧ ∃ u v, (u, v) ∈ steps ∧ u.storeDown = true))

section Handlings

variable {cfg : RunnerConfig} {key : String} {s t u : World} {steps : List (World × World)}

theorem Unkeyed.count (hOthers : Relation.ReflTransGen (Unkeyed key) s t) :
    t.clientIds.count key = s.clientIds.count key :=
  keeps_reflTransGen (A := fun v => v.clientIds.count key = s.clientIds.count key)
    (fun _ _ hOld hMove => hMove.trans hOld) hOthers rfl

theorem Unkeyed.mem_iff (hOthers : Relation.ReflTransGen (Unkeyed key) s t) :
    key ∈ t.clientIds ↔ key ∈ s.clientIds := by
  rw [← List.count_pos_iff, ← List.count_pos_iff, Unkeyed.count hOthers]

/-- The key is looked for and the row is inserted. -/
theorem intake_cases {command : Submit} (hKey : command.clientMessageId = some key)
    {r : Except StoreError (Option MessageId)}
    (hTrace : Trace (Unkeyed key) (intake command) s steps (ended r) t) :
    (t.clientIds.count key = s.clientIds.count key ∧
      (∀ u v, (u, v) ∈ steps → v = u) ∧ (∀ id, r ≠ .ok (some id)) ∧
      (key ∈ s.clientIds ∨ ∃ u v, (u, v) ∈ steps ∧ u.storeDown = true)) ∨
    (key ∉ s.clientIds ∧ t.clientIds.count key = 1 ∧ routings steps = 0 ∧ (∃ id, r = .ok (some id)) ∧
      ∃ u v, (u, v) ∈ steps ∧ key ∉ u.clientIds ∧ key ∈ v.clientIds) := by
  unfold intake isDuplicate at hTrace
  rw [hKey] at hTrace
  obtain ⟨u, hEnv, ⟨-, rest, rfl, hRest⟩ | ⟨hDown, rfl, rfl, rfl⟩⟩ := select_bind_cases hTrace
  · by_cases hKnown : key ∈ u.clientIds
    · simp only [hKnown, decide_true, if_true] at hRest
      obtain ⟨rfl, rfl, rfl⟩ := hRest.done_cases
      refine Or.inl ⟨Unkeyed.count hEnv, ?_, by simp, Or.inl ((Unkeyed.mem_iff hEnv).mp hKnown)⟩
      simp
    · simp only [hKnown, decide_false, Bool.false_eq_true, if_false] at hRest
      have hNew : key ∉ s.clientIds := fun hMem => hKnown ((Unkeyed.mem_iff hEnv).mpr hMem)
      obtain ⟨w, hEnv', ⟨-, last, rfl, hLast⟩ | ⟨hDown, rfl, rfl, rfl⟩⟩ :=
        transaction_bind_cases hRest
      · obtain ⟨rfl, rfl, rfl⟩ := hLast.done_cases
        -- Nobody else writes the key, so it is absent still when the row is inserted.
        have hAbsent : key ∉ w.clientIds := fun hMem => hKnown ((Unkeyed.mem_iff hEnv').mp hMem)
        refine Or.inr ⟨hNew, ?_, ?_, ⟨_, rfl⟩, w, (w.persist command.message (some key)).2, by simp,
          hAbsent, ?_⟩
        · simp [World.persist, List.count_eq_zero_of_not_mem hAbsent]
        · simp [routings, routes, World.persist]
        · simp [World.persist]
      · refine Or.inl ⟨?_, ?_, by simp, Or.inr ⟨t, t, by simp, hDown⟩⟩
        · rw [Unkeyed.count hEnv', Unkeyed.count hEnv]
        · intro v v' hMem
          simp only [List.mem_cons, Prod.mk.injEq, List.not_mem_nil, or_false] at hMem
          rcases hMem with ⟨rfl, rfl⟩ | ⟨rfl, rfl⟩
          · rfl
          · rfl
  · refine Or.inl ⟨Unkeyed.count hEnv, ?_, by simp, Or.inr ⟨t, t, by simp, hDown⟩⟩
    simp

/-- The message is taken if it got its row, and reported otherwise. -/
theorem taken_cases {env : World → World → Prop} {command : Submit}
    {r : Except StoreError (Except Handled MessageId)}
    (hTrace : Trace env (Co.tryCatch
      (do
        match ← intake command with
        | some id => pure (.ok id)
        | none => pure (.error .duplicate))
      fun _ => pure (.error .notStored) : Work (Except Handled MessageId)) s steps (ended r) t) :
    (∃ id, r = .ok (.ok id) ∧ Trace env (intake command) s steps (ended (.ok (some id))) t) ∨
    ∃ handled taken, r = .ok (.error handled) ∧ (∀ id, taken ≠ .ok (some id)) ∧
      Trace env (intake command) s steps (ended taken) t := by
  rcases hTrace.tryCatch_cases with ⟨value, rfl, hBody⟩ | ⟨error, first, second, u, rfl, hBody, hHandler⟩
  · rcases hBody.bind_cases with ⟨found, first, second, u, rfl, hIntake, hRest⟩ | ⟨error, hEq, -⟩
    · cases found with
      | some id =>
          obtain ⟨hResult, rfl, rfl⟩ := hRest.done_cases
          rw [List.append_nil]
          exact Or.inl ⟨id, hResult, hIntake⟩
      | none =>
          obtain ⟨hResult, rfl, rfl⟩ := hRest.done_cases
          rw [List.append_nil]
          exact Or.inr ⟨.duplicate, .ok none, hResult, by simp, hIntake⟩
    · simp at hEq
  · obtain ⟨rfl, rfl, rfl⟩ := hHandler.done_cases
    rw [List.append_nil]
    rcases hBody.bind_cases with ⟨found, first', second', v, rfl, -, hRest⟩ | ⟨error', hEq, hIntake⟩
    · cases found with
      | some id => exact absurd hRest.done_cases.1 (by simp)
      | none => exact absurd hRest.done_cases.1 (by simp)
    · exact Or.inr ⟨.notStored, .error error', rfl, by simp, hIntake⟩

theorem handling_outcome {r : Except StoreError Handled} (hHandling : Handling cfg key s steps r t) :
    Outcome key s steps t := by
  obtain ⟨me, reply, command, hKey, hTrace⟩ := hHandling
  rcases hTrace.bind_cases with ⟨taken, first, second, u, rfl, hTaken, hRest⟩ | ⟨error, rfl, hFail⟩
  · rcases taken_cases hTaken with ⟨id, hOk, hIntake⟩ | ⟨handled, found, hOk, hNot, hIntake⟩
    · obtain rfl := Except.ok.inj hOk
      rcases intake_cases hKey hIntake with
        ⟨-, -, hNever, -⟩ | ⟨hNew, hCount, hUnrouted, -, v, v', hMem, hBefore, hAfter⟩
      · exact absurd rfl (hNever id)
      · obtain ⟨hIds, hOnce⟩ := routesOnce_rest cfg me reply command id hRest
        refine .stored hNew ?_ ⟨v, v', List.mem_append_left _ hMem, hBefore, hAfter⟩ ?_
        · refine hRest.keeps (A := fun w => w.clientIds.count key = 1)
            (fun w w' hOld hMove => hMove.trans hOld) (fun w w' hStep hOld => ?_) hCount
          rw [hIds w w' hStep]
          exact hOld
        · rw [routings_append, hUnrouted, Nat.zero_add]
          rcases hOnce with hOnce | ⟨hNever, -, w, w', hStep, hDown⟩
          · exact Or.inl hOnce
          · exact Or.inr ⟨hNever, w, w', List.mem_append_right _ hStep, hDown⟩
    · obtain rfl := Except.ok.inj hOk
      obtain ⟨-, rfl, rfl⟩ := hRest.done_cases
      rw [List.append_nil]
      rcases intake_cases hKey hIntake with ⟨hCount, hIdle, -, hWhy⟩ | ⟨-, -, -, ⟨id, hStored⟩, -⟩
      · refine .refused hCount (List.countP_eq_zero.mpr fun step hMem => ?_)
          (fun v v' hMem => by rw [hIdle v v' hMem]) hWhy
        simp [routes, hIdle step.1 step.2 hMem]
      · exact absurd hStored (hNot id)
  · rcases taken_cases hFail with ⟨id, hOk, -⟩ | ⟨handled, found, hOk, -, -⟩
    · simp at hOk
    · simp at hOk

/-- Handlings of the key that failed, one after the other, with the steps of each. -/
inductive Failures (cfg : RunnerConfig) (key : String) :
    World → List (List (World × World)) → World → Prop
  | none (s : World) : Failures cfg key s [] s
  | again {s t u w : World} {all : List (List (World × World))} {steps : List (World × World)}
      {r : Except StoreError Handled} (hBefore : Failures cfg key s all t)
      (hLater : Relation.ReflTransGen (Unkeyed key) t u)
      (hHandling : Handling cfg key u steps r w) (hFails : Fails r = true) :
      Failures cfg key s (all ++ [steps]) w

/-- How often the key was stored and its message routed. -/
inductive Tally (key : String) (all : List (List (World × World))) (s : World) : Prop
  | untaken (hCount : s.clientIds.count key = 0) (hRouted : routings all.flatten = 0)
      (hNone : ∀ steps ∈ all, ¬Interrupted key steps)
  | taken (hCount : s.clientIds.count key = 1) (hRouted : routings all.flatten = 1)
      (hNone : ∀ steps ∈ all, ¬Interrupted key steps)
  | lost (hCount : s.clientIds.count key = 1) (hRouted : routings all.flatten = 0)
      (hSome : ∃ steps ∈ all, Interrupted key steps)

theorem Tally.others {all : List (List (World × World))} (hTally : Tally key all s)
    (hOthers : Relation.ReflTransGen (Unkeyed key) s t) : Tally key all t := by
  have hSame := Unkeyed.count hOthers
  cases hTally with
  | untaken hCount hRouted hNone => exact .untaken (hSame.trans hCount) hRouted hNone
  | taken hCount hRouted hNone => exact .taken (hSame.trans hCount) hRouted hNone
  | lost hCount hRouted hSome => exact .lost (hSame.trans hCount) hRouted hSome

theorem routings_snoc (all : List (List (World × World))) (steps : List (World × World)) :
    routings (all ++ [steps]).flatten = routings all.flatten + routings steps := by
  rw [List.flatten_append, List.flatten_singleton, routings_append]

theorem Tally.refused {all : List (List (World × World))} (hTally : Tally key all s)
    (hCount : t.clientIds.count key = s.clientIds.count key) (hUnrouted : routings steps = 0)
    (hSame : ∀ u v, (u, v) ∈ steps → v.clientIds = u.clientIds) : Tally key (all ++ [steps]) t := by
  have hNot : ¬Interrupted key steps := by
    rintro ⟨⟨u, v, hMem, hBefore, hAfter⟩, -⟩
    rw [hSame u v hMem] at hAfter
    exact hBefore hAfter
  have hAll : (∀ old ∈ all, ¬Interrupted key old) → ∀ old ∈ all ++ [steps], ¬Interrupted key old := by
    intro hNone old hMem
    rcases List.mem_append.mp hMem with hMem | hMem
    · exact hNone old hMem
    · obtain rfl := List.mem_singleton.mp hMem
      exact hNot
  cases hTally with
  | untaken hOld hRouted hNone =>
      refine .untaken (hCount.trans hOld) ?_ (hAll hNone)
      rw [routings_snoc, hRouted, hUnrouted]
  | taken hOld hRouted hNone =>
      refine .taken (hCount.trans hOld) ?_ (hAll hNone)
      rw [routings_snoc, hRouted, hUnrouted]
  | lost hOld hRouted hSome =>
      obtain ⟨old, hMem, hLost⟩ := hSome
      refine .lost (hCount.trans hOld) ?_ ⟨old, List.mem_append_left _ hMem, hLost⟩
      rw [routings_snoc, hRouted, hUnrouted]

theorem Tally.outcome {all : List (List (World × World))} (hTally : Tally key all s)
    (hOutcome : Outcome key s steps t) : Tally key (all ++ [steps]) t := by
  cases hOutcome with
  | refused hCount hUnrouted hSame _ => exact hTally.refused hCount hUnrouted hSame
  | stored hNew hCount hStores hOnce =>
      have hZero : s.clientIds.count key = 0 := List.count_eq_zero_of_not_mem hNew
      cases hTally with
      | taken hOld => omega
      | lost hOld => omega
      | untaken hOld hRouted hNone =>
          rcases hOnce with hOnce | ⟨hNever, -⟩
          · refine .taken hCount (by rw [routings_snoc, hRouted, hOnce]) fun old hMem => ?_
            rcases List.mem_append.mp hMem with hMem | hMem
            · exact hNone old hMem
            · obtain rfl := List.mem_singleton.mp hMem
              exact fun hLost => absurd hLost.2 (by omega)
          · refine .lost hCount (by rw [routings_snoc, hRouted, hNever]) ⟨steps, by simp, ?_⟩
            exact ⟨hStores, hNever⟩

theorem failures_tally {all : List (List (World × World))} (hNew : key ∉ s.clientIds)
    (hFailures : Failures cfg key s all t) : Tally key all t := by
  induction hFailures with
  | none => exact .untaken (List.count_eq_zero_of_not_mem hNew) rfl (by simp)
  | again _ hLater hHandling _ ih =>
      exact (ih.others hLater).outcome (handling_outcome hHandling)

/-- After a handling without failures the message is stored once and routed once,
unless one of the failed handlings was interrupted. -/
theorem resend_routed_once {all : List (List (World × World))} {w : World}
    {r : Except StoreError Handled} (hNew : key ∉ s.clientIds)
    (hFailures : Failures cfg key s all t) (hLater : Relation.ReflTransGen (Unkeyed key) t u)
    (hAgain : Handling cfg key u steps r w)
    (hUp : ∀ v v', (v, v') ∈ steps → v.storeDown = false) :
    (w.clientIds.count key = 1 ∧ routings (all.flatten ++ steps) = 1) ↔
      ∀ failed ∈ all, ¬Interrupted key failed := by
  have hOutcome := handling_outcome hAgain
  have hTally := ((failures_tally hNew hFailures).others hLater).outcome hOutcome
  have hNever : ¬∃ v v', (v, v') ∈ steps ∧ v.storeDown = true := by
    rintro ⟨v, v', hMem, hDown⟩
    simp [hUp v v' hMem] at hDown
  have hTotal := routings_snoc all steps
  rw [routings_append]
  -- What the failed handlings have left decides what the last one finds.
  cases hTally with
  | untaken hCount hRouted hNone =>
      cases hOutcome with
      | refused hSame _ _ hWhy =>
          rcases hWhy with hKnown | hDown
          · have hPos := List.count_pos_iff.mpr hKnown
            omega
          · exact absurd hDown hNever
      | stored _ hOne => omega
  | taken hCount hRouted hNone =>
      refine iff_of_true ⟨hCount, by omega⟩ fun failed hMem => ?_
      exact hNone failed (List.mem_append_left _ hMem)
  | lost hCount hRouted hSome =>
      refine iff_of_false (fun hBoth => by omega) fun hNone => ?_
      obtain ⟨old, hMem, hLost⟩ := hSome
      rcases List.mem_append.mp hMem with hMem | hMem
      · exact hNone old hMem hLost
      -- The last handling is the one that lost its route: it cannot have ended without a failure.
      · obtain rfl := List.mem_singleton.mp hMem
        cases hOutcome with
        | refused _ _ hSame _ =>
            obtain ⟨⟨v, v', hStep, hBefore, hAfter⟩, -⟩ := hLost
            rw [hSame v v' hStep] at hAfter
            exact hBefore hAfter
        | stored _ _ _ hOnce =>
            rcases hOnce with hOnce | ⟨-, hDown⟩
            · exact absurd hLost.2 (by omega)
            · exact hNever hDown

end Handlings

/-- The database comes and goes while the message is handled. -/
def handled (schedule : List (List ConversationEvent)) (s : World) :
    Option (List (World × World) × Except StoreError Handled × World) :=
  traceWith (fun m s => (conversationEvent m s).getD s) schedule
    (handleSubmit {} 0 none { content := "question", clientMessageId := some "k" }) s

theorem handling_of_handled {schedule : List (List ConversationEvent)} {s t : World}
    {steps : List (World × World)} {r : Except StoreError Handled}
    (hHandled : handled schedule s = some (steps, r, t)) : Handling {} "k" s steps r t := by
  refine ⟨0, none, { content := "question", clientMessageId := some "k" }, rfl, ?_⟩
  refine (Trace.of_traceWith hHandled).mono fun u v hMove => ?_
  obtain ⟨m, rfl⟩ := hMove
  cases m <;> rfl

/-- The database does not answer the first time and the message is sent again. -/
theorem resend_routed_once_refused :
    ∃ failed r steps r' t w, Handling {} "k" {} failed r t ∧ Fails r = true ∧
      Handling {} "k" t steps r' w ∧
      w.clientIds.count "k" = 1 ∧ routings (failed ++ steps) = 1 := by
  have hBoth : ((handled [[.store true]] {}).bind fun (failed, r, t) =>
      (handled [[.store false]] t).map fun (steps, _, _) =>
        decide (Fails r = true ∧ (failed.all fun (u, v) => v.clientIds = u.clientIds) = true ∧
          (steps.all fun (u, _) => !u.storeDown) = true)) = some true := by
    decide +kernel
  obtain ⟨⟨failed, r, t⟩, hFirst, hRest⟩ := Option.bind_eq_some_iff.mp hBoth
  obtain ⟨⟨steps, r', w⟩, hSecond, hSeen⟩ := Option.map_eq_some_iff.mp hRest
  obtain ⟨hFails, hSame, hUp⟩ := of_decide_eq_true hSeen
  have hFailed := handling_of_handled hFirst
  have hAgain := handling_of_handled hSecond
  have hFailures : Failures {} "k" {} [failed] t := .again (.none {}) .refl hFailed hFails
  have hOnce := resend_routed_once (by simp) hFailures .refl hAgain fun v v' hMem => by
    simpa using List.all_eq_true.mp hUp (v, v') hMem
  refine ⟨failed, r, steps, r', t, w, hFailed, hFails, hAgain, ?_⟩
  rw [List.flatten_singleton] at hOnce
  refine hOnce.mpr fun other hMem => ?_
  obtain rfl := List.mem_singleton.mp hMem
  rintro ⟨⟨u, v, hStep, hBefore, hAfter⟩, -⟩
  have hIds : v.clientIds = u.clientIds := by simpa using List.all_eq_true.mp hSame (u, v) hStep
  rw [hIds] at hAfter
  exact hBefore hAfter

/-- The row is inserted and the database stops answering.  Sent again, the message
is taken for a duplicate: it is stored, and nobody has ever looked at it. -/
theorem resend_swallowed :
    ∃ failed r steps r' t w, Handling {} "k" {} failed r t ∧ Fails r = true ∧
      Handling {} "k" t steps r' w ∧ (∀ v v', (v, v') ∈ steps → v.storeDown = false) ∧
      w.clientIds.count "k" = 1 ∧ routings (failed ++ steps) = 0 ∧ w.nextExchange = 0 := by
  have hBoth : ((handled [[], [], [.store true]] {}).bind fun (failed, r, t) =>
      (handled [[.store false]] t).map fun (steps, _, w) =>
        decide (Fails r = true ∧ (steps.all fun (u, _) => !u.storeDown) = true ∧
          w.clientIds.count "k" = 1 ∧ routings (failed ++ steps) = 0 ∧ w.nextExchange = 0)) =
      some true := by
    decide +kernel
  obtain ⟨⟨failed, r, t⟩, hFirst, hRest⟩ := Option.bind_eq_some_iff.mp hBoth
  obtain ⟨⟨steps, r', w⟩, hSecond, hSeen⟩ := Option.map_eq_some_iff.mp hRest
  obtain ⟨hFails, hUp, hEnd⟩ := of_decide_eq_true hSeen
  refine ⟨failed, r, steps, r', t, w, handling_of_handled hFirst, hFails,
    handling_of_handled hSecond, fun v v' hMem => ?_, hEnd⟩
  simpa using List.all_eq_true.mp hUp (v, v') hMem

end Conversation
end OctoForge
