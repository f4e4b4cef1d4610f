import Mathlib.Algebra.GroupWithZero.Nat
import Mathlib.Data.List.Nodup
import OctoForge.External.Spill
import OctoForge.Sequence.Keyed

/-!
# Task memory

`ResponseMemory` keeps the documents of all owners in one dictionary, in the order in which they
came.  Storing one evicts others of the same owner, oldest access first, until what the owner has
is within the budget; reading one makes it recent.

`step` is one call.  An owner's calls and documents go together: what the others do can be left
out of a run.
-/

namespace OctoForge
namespace External

/-- `StoredResponse`. -/
structure StoredResponse where
  id : Text
  ownerId : Text
  scope : Text
  kind : Text
  source : Text
  body : Text
  document : Option Json
  lastAccess : Nat

/-- `_items`, in the order of the dictionary. -/
abbrev Items := List StoredResponse

namespace Memory

/-- The items of one owner. -/
def mine (owner : Text) (items : Items) : Items := items.filter fun item => item.ownerId = owner

/-- The size of their bodies. -/
def total (items : Items) : Nat := (items.map fun item => item.body.length).sum

/-- `items[item.id] = item`. -/
def put (item : StoredResponse) (items : Items) : Items :=
  if items.any fun kept => kept.id = item.id then
    items.map fun kept => if kept.id = item.id then item else kept
  else items ++ [item]

/-- `min(mine, key=lambda item: item.last_access)`: the first of the least. -/
def oldest : Items → Option StoredResponse
  | [] => none
  | item :: rest =>
      match oldest rest with
      | none => some item
      | some other => if other.lastAccess < item.lastAccess then some other else some item

/-- `del items[id]`. -/
def delete (id : Text) (items : Items) : Items := items.filter fun item => !decide (item.id = id)

/-- The loop of `_evict`, in so many rounds: `rest` is what is left of the owner's items. -/
def evictFrom (budget : Nat) : (rounds : Nat) → (rest items : Items) → Items
  | 0, _, items => items
  | rounds + 1, rest, items =>
      if total rest ≤ budget then items
      else if rest.length = 1 then items
      else
        match oldest rest with
        | none => items
        | some item => evictFrom budget rounds (delete item.id rest) (delete item.id items)

/-- `_evict`; there are no more rounds than items. -/
def evict (budget : Nat) (owner : Text) (items : Items) : Items :=
  evictFrom budget (mine owner items).length (mine owner items) items

/-- `store`. -/
def store (budget : Nat) (item : StoredResponse) (items : Items) : Items :=
  evict budget item.ownerId (put item items)

/-- The item of an id. -/
def find (id : Text) (items : Items) : Option StoredResponse := items.find? fun item => item.id = id

/-- `item.last_access = now`. -/
def touch (id : Text) (now : Nat) (items : Items) : Items :=
  items.map fun item => if item.id = id then { item with lastAccess := now } else item

/-- `get`: the item, `none` when there is none of this owner. -/
def get (owner ref : Text) (now : Nat) (items : Items) : Option StoredResponse × Items :=
  match find (Text.removeStart responseRefStart ref) items with
  | none => (none, items)
  | some item =>
      if item.ownerId = owner then
        (some { item with lastAccess := now },
          touch (Text.removeStart responseRefStart ref) now items)
      else (none, items)

/-- `drop_scope`. -/
def dropScope (scope : Text) (items : Items) : Items :=
  items.filter fun item => !decide (item.scope = scope)

/-! ## Calls -/

inductive Call where
  /-- `store`, with the id it draws and the time of the clock in the item. -/
  | store (item : StoredResponse)
  | get (owner ref : Text) (now : Nat)
  | dropScope (scope : Text)

/-- Whose call it is; scopes are not shared. -/
def Call.owner (scopeOwner : Text → Text) : Call → Text
  | .store item => item.ownerId
  | .get owner _ _ => owner
  | .dropScope scope => scopeOwner scope

/-- The id that is drawn. -/
def Call.id? : Call → Option Text
  | .store item => some item.id
  | _ => none

/-- The time of the clock, where it is asked. -/
def Call.time? : Call → Option Nat
  | .store item => some item.lastAccess
  | .get _ _ now => some now
  | .dropScope _ => none

/-- One call: what it returns, and the items after it. -/
def step (budget : Nat) (items : Items) : Call → Option StoredResponse × Items
  | .store item => (some item, store budget item items)
  | .get owner ref now => get owner ref now items
  | .dropScope scope => (none, dropScope scope items)

/-- The calls with what they return. -/
def outcomes (budget : Nat) : Items → List Call → List (Call × Option StoredResponse)
  | _, [] => []
  | items, call :: rest =>
      (call, (step budget items call).1) :: outcomes budget (step budget items call).2 rest

/-- The items after some calls. -/
def after (budget : Nat) : Items → List Call → Items
  | items, [] => items
  | items, call :: rest => after budget (step budget items call).2 rest

/-- What is known of the calls: ids are fresh, the clock does not go back, and a scope has one
owner. -/
structure Proper (scopeOwner : Text → Text) (calls : List Call) : Prop where
  fresh : (calls.filterMap Call.id?).Nodup
  clock : (calls.filterMap Call.time?).Pairwise (· ≤ ·)
  scopes : ∀ item, .store item ∈ calls → scopeOwner item.scope = item.ownerId

/-! ## The owner's part -/

variable {budget now rounds : Nat} {owner other ref id scope : Text} {items rest : Items}
  {item : StoredResponse} {call : Call} {calls : List Call} {scopeOwner : Text → Text}

/-- No item has been drawn twice, and scopes have the owners they have. -/
structure Sound (scopeOwner : Text → Text) (items : Items) : Prop where
  ids : (items.map (·.id)).Nodup
  scopes : ∀ item ∈ items, scopeOwner item.scope = item.ownerId

theorem Sound.nil : Sound scopeOwner [] := ⟨List.nodup_nil, nofun⟩

theorem Sound.sublist {items' : Items} (hSound : Sound scopeOwner items)
    (hSub : items'.Sublist items) : Sound scopeOwner items' :=
  ⟨hSound.ids.sublist (hSub.map _), fun item hMem => hSound.scopes item (hSub.subset hMem)⟩

/-- Two items with one id are one item. -/
theorem Sound.eq_of_id {item' : StoredResponse} (hSound : Sound scopeOwner items)
    (hMem : item ∈ items) (hMem' : item' ∈ items) (hId : item.id = item'.id) : item = item' :=
  List.inj_on_of_nodup_map hSound.ids hMem hMem' hId

theorem mem_mine : item ∈ mine owner items ↔ item ∈ items ∧ item.ownerId = owner := by
  simp [mine, List.mem_filter]

theorem mine_mine : mine owner (mine owner items) = mine owner items := by
  simp [mine]

theorem mine_append (a b : Items) : mine owner (a ++ b) = mine owner a ++ mine owner b :=
  List.filter_append a b

theorem mine_delete : mine owner (delete id items) = delete id (mine owner items) :=
  List.filter_comm _ _ _

theorem mine_dropScope : mine owner (dropScope scope items) = dropScope scope (mine owner items) :=
  List.filter_comm _ _ _

theorem delete_of_not_mem (hNone : ∀ item ∈ items, item.id ≠ id) : delete id items = items := by
  refine List.filter_eq_self.mpr fun item hMem => ?_
  simpa using hNone item hMem

theorem mem_of_oldest (hOldest : oldest items = some item) : item ∈ items := by
  induction items generalizing item with
  | nil => cases hOldest
  | cons first rest ih =>
      rw [oldest] at hOldest
      split at hOldest
      · obtain rfl := Option.some.inj hOldest
        exact List.mem_cons_self
      · rename_i other hRest
        split at hOldest
        · obtain rfl := Option.some.inj hOldest
          exact List.mem_cons_of_mem first (ih hRest)
        · obtain rfl := Option.some.inj hOldest
          exact List.mem_cons_self

/-- Evicting is done by the owner's items, and seen in them. -/
theorem mine_evictFrom : mine owner (evictFrom budget rounds rest items) =
    evictFrom budget rounds rest (mine owner items) := by
  induction rounds generalizing rest items with
  | zero => rfl
  | succ rounds ih =>
      unfold evictFrom
      split
      · rfl
      · split
        · rfl
        · split
          · rfl
          · rw [ih, mine_delete]

/-- What is evicted is among the owner's items. -/
theorem evictFrom_apart (hApart : ∀ a ∈ rest, ∀ b ∈ items, b.id ≠ a.id) :
    evictFrom budget rounds rest items = items := by
  induction rounds generalizing rest with
  | zero => rfl
  | succ rounds ih =>
      unfold evictFrom
      split
      · rfl
      · split
        · rfl
        · split
          · rfl
          · rename_i item hOldest
            rw [delete_of_not_mem (hApart item (mem_of_oldest hOldest))]
            exact ih fun a hMem => hApart a (List.mem_of_mem_filter hMem)

theorem evictFrom_sublist : (evictFrom budget rounds rest items).Sublist items := by
  induction rounds generalizing rest items with
  | zero => exact List.Sublist.refl items
  | succ rounds ih =>
      unfold evictFrom
      split
      · exact List.Sublist.refl items
      · split
        · exact List.Sublist.refl items
        · split
          · exact List.Sublist.refl items
          · exact ih.trans List.filter_sublist

theorem put_fresh (hFresh : ∀ kept ∈ items, kept.id ≠ item.id) :
    put item items = items ++ [item] := by
  have hNone : items.any (fun kept => kept.id = item.id) = false := by
    rw [List.any_eq_false]
    exact fun kept hMem => by simpa using hFresh kept hMem
  rw [put, hNone]
  rfl

theorem Sound.put (hSound : Sound scopeOwner items) (hFresh : ∀ kept ∈ items, kept.id ≠ item.id)
    (hScope : scopeOwner item.scope = item.ownerId) : Sound scopeOwner (items ++ [item]) := by
  refine ⟨?_, fun kept hMem => ?_⟩
  · rw [List.map_append, List.nodup_append]
    refine ⟨hSound.ids, by simp, fun a hA b hB => ?_⟩
    obtain ⟨kept, hMem, rfl⟩ := List.mem_map.mp hA
    obtain rfl : b = item.id := by simpa using hB
    exact hFresh kept hMem
  · rcases List.mem_append.mp hMem with hOld | hNew
    · exact hSound.scopes kept hOld
    · obtain rfl := List.mem_singleton.mp hNew
      exact hScope

theorem find_eq_some (hSound : Sound scopeOwner items) :
    find id items = some item ↔ item ∈ items ∧ item.id = id :=
  Sequence.find?_key_eq_some hSound.ids

theorem mine_touch : mine owner (touch id now items) = touch id now (mine owner items) := by
  induction items with
  | nil => rfl
  | cons first rest ih =>
      have hOwner : (if first.id = id then { first with lastAccess := now } else first).ownerId =
          first.ownerId := by
        split <;> rfl
      simp only [mine, touch, List.map_cons, List.filter_cons, hOwner] at ih ⊢
      split
      · rw [List.map_cons, ih]
      · exact ih

theorem touch_of_not_mem (hNone : ∀ item ∈ items, item.id ≠ id) : touch id now items = items := by
  unfold touch
  rw [List.map_congr_left fun item hMem => if_neg (hNone item hMem)]
  exact List.map_id' items

/-- An owner's call reads and writes the owner's part of the items. -/
theorem step_own (budget : Nat) (hSound : Sound scopeOwner items)
    (hFresh : ∀ id, call.id? = some id → ∀ kept ∈ items, kept.id ≠ id)
    (hOwn : call.owner scopeOwner = owner) :
    (step budget items call).1 = (step budget (mine owner items) call).1 ∧
      mine owner (step budget items call).2 = (step budget (mine owner items) call).2 := by
  cases call with
  | store item =>
      obtain rfl : item.ownerId = owner := hOwn
      have hMine : ∀ kept ∈ mine item.ownerId items, kept.id ≠ item.id := fun kept hMem =>
        hFresh item.id rfl kept (mem_mine.mp hMem).1
      have hSelf : mine item.ownerId [item] = [item] := by simp [mine]
      refine ⟨rfl, ?_⟩
      show mine item.ownerId (store budget item items) =
        store budget item (mine item.ownerId items)
      simp only [store, evict, put_fresh (hFresh item.id rfl), put_fresh hMine, mine_evictFrom,
        mine_append, mine_mine, hSelf]
  | get other ref now =>
      obtain rfl : other = owner := hOwn
      show (get other ref now items).1 = (get other ref now (mine other items)).1 ∧
        mine other (get other ref now items).2 = (get other ref now (mine other items)).2
      generalize hId : Text.removeStart responseRefStart ref = id
      have hPart : Sound scopeOwner (mine other items) := hSound.sublist List.filter_sublist
      unfold get
      rw [hId]
      cases hFind : find id (mine other items) with
      | some item =>
          obtain ⟨hMem, hItem⟩ := (find_eq_some hPart).mp hFind
          obtain ⟨hAll, hOwner⟩ := mem_mine.mp hMem
          rw [(find_eq_some hSound).mpr ⟨hAll, hItem⟩]
          simp only [hOwner, if_true]
          exact ⟨trivial, mine_touch⟩
      | none =>
          cases hAll : find id items with
          | none => exact ⟨rfl, rfl⟩
          | some item =>
              -- it is there, and another's
              obtain ⟨hMem, hItem⟩ := (find_eq_some hSound).mp hAll
              have hOther : item.ownerId ≠ other := by
                intro hOwner
                rw [(find_eq_some hPart).mpr ⟨mem_mine.mpr ⟨hMem, hOwner⟩, hItem⟩] at hFind
                cases hFind
              simp only [hOther, if_false]
              exact ⟨trivial, trivial⟩
  | dropScope scope => exact ⟨rfl, mine_dropScope⟩

/-- A call of somebody else leaves the owner's part alone. -/
theorem step_other (budget : Nat) (hSound : Sound scopeOwner items)
    (hFresh : ∀ id, call.id? = some id → ∀ kept ∈ items, kept.id ≠ id)
    (hScoped : ∀ item, call = .store item → scopeOwner item.scope = item.ownerId)
    (hOther : call.owner scopeOwner ≠ owner) :
    mine owner (step budget items call).2 = mine owner items := by
  cases call with
  | store item =>
      have hAll := hSound.put (hFresh item.id rfl) (hScoped item rfl)
      have hOwner : item.ownerId ≠ owner := hOther
      have hNew : mine owner [item] = [] := by simp [mine, hOwner]
      show mine owner (store budget item items) = mine owner items
      -- An eviction goes through one owner's items, so nobody else pays for the new one.
      rw [store, evict, put_fresh (hFresh item.id rfl), mine_evictFrom, evictFrom_apart,
        mine_append, hNew, List.append_nil]
      intro a hA b hB hId
      obtain ⟨hMemA, hOwnerA⟩ := mem_mine.mp hA
      obtain ⟨hMemB, hOwnerB⟩ := mem_mine.mp hB
      obtain rfl := hAll.eq_of_id hMemB hMemA hId
      exact hOwner (hOwnerA.symm.trans hOwnerB)
  | get caller ref now =>
      show mine owner (get caller ref now items).2 = mine owner items
      unfold get
      split
      · rfl
      · rename_i item hFind
        obtain ⟨hMem, hItem⟩ := (find_eq_some hSound).mp hFind
        split
        · rename_i hCaller
          rw [mine_touch, touch_of_not_mem]
          intro kept hKept hId
          obtain ⟨hMemKept, hOwner⟩ := mem_mine.mp hKept
          obtain rfl := hSound.eq_of_id hMemKept hMem (hId.trans hItem.symm)
          exact hOther (hCaller.symm.trans hOwner)
        · rfl
  | dropScope scope =>
      show mine owner (dropScope scope items) = mine owner items
      rw [mine_dropScope]
      refine List.filter_eq_self.mpr fun item hMem => ?_
      obtain ⟨hAll, hOwner⟩ := mem_mine.mp hMem
      have hScope : item.scope ≠ scope := by
        rintro rfl
        exact hOther ((hSound.scopes item hAll).trans hOwner)
      simpa using hScope

/-! ## Runs -/

/-- The items in a run that goes on with these calls. -/
structure Held (scopeOwner : Text → Text) (calls : List Call) (items : Items) : Prop where
  sound : Sound scopeOwner items
  fresh : ∀ kept ∈ items, kept.id ∉ calls.filterMap Call.id?
  recent : ∀ kept ∈ items, ∀ now ∈ calls.filterMap Call.time?, kept.lastAccess ≤ now

theorem Held.nil : Held scopeOwner calls [] := ⟨.nil, nofun, nofun⟩

theorem Proper.tail (hProper : Proper scopeOwner (call :: calls)) : Proper scopeOwner calls := by
  refine ⟨hProper.fresh.sublist ?_, hProper.clock.sublist ?_, fun item hMem =>
    hProper.scopes item (List.mem_cons_of_mem call hMem)⟩
  · exact (List.sublist_cons_self call calls).filterMap _
  · exact (List.sublist_cons_self call calls).filterMap _

theorem Held.fresh_head (hHeld : Held scopeOwner (call :: calls) items) :
    ∀ id, call.id? = some id → ∀ kept ∈ items, kept.id ≠ id := by
  rintro id hId kept hMem rfl
  exact hHeld.fresh kept hMem (List.mem_filterMap.mpr ⟨call, List.mem_cons_self, hId⟩)

/-- Sound items with the ids and the times of others, or of the call. -/
theorem Held.of_mem {items' : Items} (hProper : Proper scopeOwner (call :: calls))
    (hHeld : Held scopeOwner (call :: calls) items) (hSound : Sound scopeOwner items')
    (hMem : ∀ kept ∈ items', (kept.id ∈ items.map (·.id) ∨ call.id? = some kept.id) ∧
      (kept.lastAccess ∈ items.map (·.lastAccess) ∨ call.time? = some kept.lastAccess)) :
    Held scopeOwner calls items' := by
  have hIds : ∀ id ∈ calls.filterMap Call.id?, id ∈ (call :: calls).filterMap Call.id? :=
    fun id hId => ((List.sublist_cons_self call calls).filterMap _).subset hId
  have hTimes : ∀ now ∈ calls.filterMap Call.time?, now ∈ (call :: calls).filterMap Call.time? :=
    fun now hNow => ((List.sublist_cons_self call calls).filterMap _).subset hNow
  refine ⟨hSound, fun kept hKept hId => ?_, fun kept hKept now hNow => ?_⟩
  · rcases (hMem kept hKept).1 with hOld | hNew
    · obtain ⟨old, hOld, hSame⟩ := List.mem_map.mp hOld
      exact hHeld.fresh old hOld (hSame ▸ hIds kept.id hId)
    · have hNodup := hProper.fresh
      rw [List.filterMap_cons, hNew] at hNodup
      exact (List.nodup_cons.mp hNodup).1 hId
  · rcases (hMem kept hKept).2 with hOld | hNew
    · obtain ⟨old, hOld, hSame⟩ := List.mem_map.mp hOld
      rw [← hSame]
      exact hHeld.recent old hOld now (hTimes now hNow)
    · have hClock := hProper.clock
      rw [List.filterMap_cons, hNew] at hClock
      exact (List.pairwise_cons.mp hClock).1 now hNow

theorem store_sublist (hFresh : ∀ kept ∈ items, kept.id ≠ item.id) :
    (store budget item items).Sublist (items ++ [item]) := by
  unfold store evict
  rw [put_fresh hFresh]
  exact evictFrom_sublist

theorem Held.step (budget : Nat) (hProper : Proper scopeOwner (call :: calls))
    (hHeld : Held scopeOwner (call :: calls) items) :
    Held scopeOwner calls (step budget items call).2 := by
  cases call with
  | store item =>
      have hFresh := hHeld.fresh_head item.id rfl
      have hSub : (store budget item items).Sublist (items ++ [item]) := store_sublist hFresh
      refine hHeld.of_mem hProper ((hHeld.sound.put hFresh
        (hProper.scopes item List.mem_cons_self)).sublist hSub) fun kept hMem => ?_
      rcases List.mem_append.mp (hSub.subset hMem) with hOld | hNew
      · exact ⟨.inl (List.mem_map_of_mem hOld), .inl (List.mem_map_of_mem hOld)⟩
      · obtain rfl := List.mem_singleton.mp hNew
        exact ⟨.inr rfl, .inr rfl⟩
  | get owner ref now =>
      show Held scopeOwner calls (get owner ref now items).2
      have hSame : Held scopeOwner calls items := hHeld.of_mem hProper hHeld.sound fun kept hMem =>
        ⟨.inl (List.mem_map_of_mem hMem), .inl (List.mem_map_of_mem hMem)⟩
      unfold get
      split
      · exact hSame
      · split
        · rename_i item hFind hOwner
          generalize Text.removeStart responseRefStart ref = id
          have hIds : (touch id now items).map (·.id) = items.map (·.id) := by
            rw [touch, List.map_map]
            refine List.map_congr_left fun kept _ => ?_
            simp only [Function.comp]
            split <;> rfl
          refine hHeld.of_mem hProper ⟨hIds ▸ hHeld.sound.ids, fun kept hMem => ?_⟩
            fun kept hMem => ⟨.inl (hIds ▸ List.mem_map_of_mem hMem), ?_⟩
          -- A read only moves the time of the last use.
          · obtain ⟨old, hOld, rfl⟩ := List.mem_map.mp hMem
            have hScope := hHeld.sound.scopes old hOld
            split <;> exact hScope
          · obtain ⟨old, hOld, rfl⟩ := List.mem_map.mp hMem
            split
            · exact .inr rfl
            · exact .inl (List.mem_map_of_mem hOld)
        · exact hSame
  | dropScope scope =>
      refine hHeld.of_mem hProper (hHeld.sound.sublist List.filter_sublist) fun kept hMem => ?_
      have hOld := List.mem_of_mem_filter hMem
      exact ⟨.inl (List.mem_map_of_mem hOld), .inl (List.mem_map_of_mem hOld)⟩

/-- What an owner is answered in a run without the others. -/
theorem outcomes_owner (hProper : Proper scopeOwner calls) (hHeld : Held scopeOwner calls items)
    (owner : Text) :
    (outcomes budget items calls).filter (fun outcome => outcome.1.owner scopeOwner = owner) =
      outcomes budget (mine owner items)
        (calls.filter fun call => call.owner scopeOwner = owner) := by
  induction calls generalizing items with
  | nil => rfl
  | cons call rest ih =>
      have hRest := ih hProper.tail (hHeld.step budget hProper)
      by_cases hOwn : call.owner scopeOwner = owner
      · obtain ⟨hAnswer, hItems⟩ := step_own budget hHeld.sound hHeld.fresh_head hOwn
        rw [List.filter_cons_of_pos (by simpa using hOwn), outcomes, outcomes,
          List.filter_cons_of_pos (by simpa using hOwn), hRest, hItems, hAnswer]
      · have hItems := step_other budget hHeld.sound hHeld.fresh_head
          (fun item hEq => hProper.scopes item (hEq ▸ List.mem_cons_self)) hOwn
        rw [List.filter_cons_of_neg (by simpa using hOwn), outcomes,
          List.filter_cons_of_neg (by simpa using hOwn), hRest, hItems]

/-! ## The budget -/

/-- The item that came last is not the first of the least recent. -/
theorem oldest_before {before : Items} (hSome : before ≠ [])
    (hRecent : ∀ kept ∈ before, kept.lastAccess ≤ item.lastAccess) :
    ∃ other ∈ before, oldest (before ++ [item]) = some other := by
  induction before with
  | nil => exact absurd rfl hSome
  | cons first rest ih =>
      have hFirst := hRecent first List.mem_cons_self
      have hRest : ∃ other, oldest (rest ++ [item]) = some other ∧
          (other ∈ rest ∨ ¬other.lastAccess < first.lastAccess) := by
        cases rest with
        | nil => exact ⟨item, rfl, .inr (by omega)⟩
        | cons second more =>
            obtain ⟨other, hMem, hOldest⟩ := ih (by simp) fun kept hMem =>
              hRecent kept (List.mem_cons_of_mem first hMem)
            exact ⟨other, hOldest, .inl hMem⟩
      obtain ⟨other, hOldest, hWhich⟩ := hRest
      rw [List.cons_append, oldest, hOldest]
      by_cases hLess : other.lastAccess < first.lastAccess
      · refine ⟨other, List.mem_cons_of_mem first (hWhich.resolve_right (by omega)), ?_⟩
        simp [hLess]
      · exact ⟨first, List.mem_cons_self, by simp [hLess]⟩

/-- Evicting leaves the owner within the budget, or with the one item that has just come. -/
theorem evictFrom_bounds {before : Items} (budget rounds : Nat)
    (hIds : ((before ++ [item]).map (·.id)).Nodup)
    (hRecent : ∀ kept ∈ before, kept.lastAccess ≤ item.lastAccess)
    (hRounds : before.length < rounds) :
    ∃ kept, evictFrom budget rounds (before ++ [item]) (before ++ [item]) = kept ++ [item] ∧
      (total (kept ++ [item]) ≤ budget ∨ kept = []) := by
  induction rounds generalizing before with
  | zero => omega
  | succ rounds ih =>
      unfold evictFrom
      split
      · rename_i hFits
        exact ⟨before, rfl, .inl hFits⟩
      · split
        · rename_i hOne
          refine ⟨before, rfl, .inr (List.eq_nil_of_length_eq_zero ?_)⟩
          simpa using hOne
        · rename_i hMore
          have hSome : before ≠ [] := by
            rintro rfl
            exact hMore rfl
          obtain ⟨other, hMem, hOldest⟩ := oldest_before hSome hRecent
          rw [hOldest]
          -- the one that goes is another than the one that came
          have hApart : item.id ≠ other.id := by
            rw [List.map_append, List.nodup_append] at hIds
            exact fun hSame => hIds.2.2 other.id (List.mem_map_of_mem hMem) item.id (by simp)
              hSame.symm
          have hDelete : delete other.id (before ++ [item]) = delete other.id before ++ [item] := by
            rw [delete, List.filter_append]
            simp [delete, hApart]
          have hShorter : (delete other.id before).length < before.length :=
            List.length_filter_lt_length_iff_exists.mpr ⟨other, hMem, by simp⟩
          simp only [hDelete]
          exact ih (hIds.sublist ((List.filter_sublist.append (List.Sublist.refl [item])).map _))
            (fun kept hKept => hRecent kept (List.mem_of_mem_filter hKept)) (by omega)

/-- What an owner has when an item has been stored. -/
theorem store_bounds (hProper : Proper scopeOwner (.store item :: calls))
    (hHeld : Held scopeOwner (.store item :: calls) items) :
    (total (mine item.ownerId (store budget item items)) ≤ budget ∨
        (mine item.ownerId (store budget item items)).length = 1) ∧
      item ∈ store budget item items := by
  have hFresh := hHeld.fresh_head item.id rfl
  have hSound := hHeld.sound.put hFresh (hProper.scopes item List.mem_cons_self)
  have hMine : mine item.ownerId (items ++ [item]) = mine item.ownerId items ++ [item] := by
    rw [mine_append]
    simp [mine]
  have hPart : Sound scopeOwner (mine item.ownerId (items ++ [item])) :=
    hSound.sublist List.filter_sublist
  rw [hMine] at hPart
  obtain ⟨kept, hKept, hBound⟩ := evictFrom_bounds budget
    (mine item.ownerId items ++ [item]).length hPart.ids
    (fun kept hMem => hHeld.recent kept (mem_mine.mp hMem).1 item.lastAccess
      (List.mem_filterMap.mpr ⟨.store item, List.mem_cons_self, rfl⟩)) (by simp)
  have hStore : mine item.ownerId (store budget item items) = kept ++ [item] := by
    rw [store, evict, put_fresh hFresh, mine_evictFrom, hMine, hKept]
  refine ⟨?_, ?_⟩
  · rw [hStore]
    rcases hBound with hFits | rfl
    · exact .inl hFits
    · exact .inr rfl
  · have hMem : item ∈ mine item.ownerId (store budget item items) := by
      rw [hStore]
      simp
    exact (mem_mine.mp hMem).1

theorem Held.after {before rest : List Call} (budget : Nat)
    (hProper : Proper scopeOwner (before ++ rest))
    (hHeld : Held scopeOwner (before ++ rest) items) :
    Proper scopeOwner rest ∧ Held scopeOwner rest (after budget items before) := by
  induction before generalizing items with
  | nil => exact ⟨hProper, hHeld⟩
  | cons call more ih => exact ih hProper.tail (hHeld.step budget hProper)

theorem after_append (before rest : List Call) :
    after budget items (before ++ rest) = after budget (after budget items before) rest := by
  induction before generalizing items with
  | nil => rfl
  | cons call more ih => exact ih

/-- Whatever all owners do with the memory: each is answered as if the others had done nothing,
and after each store its owner is within the budget, or has the one item that was stored, which
is always there. -/
theorem owners_isolated_and_bounded (budget : Nat) (hProper : Proper scopeOwner calls) :
    (∀ owner, (outcomes budget [] calls).filter (fun outcome => outcome.1.owner scopeOwner = owner) =
      outcomes budget [] (calls.filter fun call => call.owner scopeOwner = owner)) ∧
    ∀ before item rest, calls = before ++ .store item :: rest →
      (total (mine item.ownerId (after budget [] (before ++ [.store item]))) ≤ budget ∨
        (mine item.ownerId (after budget [] (before ++ [.store item]))).length = 1) ∧
      item ∈ after budget [] (before ++ [.store item]) := by
  refine ⟨fun owner => outcomes_owner hProper .nil owner, fun before item rest hCalls => ?_⟩
  subst hCalls
  obtain ⟨hRest, hHeld⟩ := Held.after budget hProper .nil
  rw [after_append]
  exact store_bounds hRest hHeld

/-- Two owners; the second stores over its budget, at the same moment. -/
def twoOwners : List Call :=
  let item (id owner : Char) (size : Nat) : StoredResponse :=
    ⟨[id], [owner], [owner], [], [], List.replicate size 'x', none, 7⟩
  [.store (item '1' 'a' 3), .store (item '2' 'b' 3), .get ['a'] ['2'] 7, .store (item '3' 'b' 3),
    .get ['b'] ['2'] 8, .get ['a'] ['1'] 8, .dropScope ['b']]

theorem owners_isolated_and_bounded_two :
    (∀ owner, (outcomes 4 [] twoOwners).filter (fun outcome => outcome.1.owner (fun scope => scope) = owner) =
      outcomes 4 [] (twoOwners.filter fun call => call.owner (fun scope => scope) = owner)) ∧
    ∀ before item rest, twoOwners = before ++ .store item :: rest →
      (total (mine item.ownerId (after 4 [] (before ++ [.store item]))) ≤ 4 ∨
        (mine item.ownerId (after 4 [] (before ++ [.store item]))).length = 1) ∧
      item ∈ after 4 [] (before ++ [.store item]) :=
  owners_isolated_and_bounded 4
    ⟨by decide, by decide, fun item hMem => by
      simp only [twoOwners, List.mem_cons, Call.store.injEq, reduceCtorEq, List.not_mem_nil,
        or_false, false_or] at hMem
      rcases hMem with rfl | rfl | rfl <;> rfl⟩

end Memory
end External
end OctoForge
