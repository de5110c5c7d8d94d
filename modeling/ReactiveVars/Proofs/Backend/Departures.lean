import ReactiveVars.Proofs.Backend.Settling
import ReactiveVars.Session.Basic

/-!
# An observer that leaves

An observer that leaves is counted out everywhere in one pass over the tally. It comes to the same
as ending its watches one by one, in whatever order, although each of these looks for itself whether
the observer was the last one to watch.

The argument does not follow the order. Ending one watch first makes no difference to the pass that
ends all of them, so any watches may be ended before it; and when none is left the pass does
nothing.

## Main statement

* `unwatchAll_eq_unwatchEach`: leaving is ending all watches, and what becomes of every variable by
  it.
-/

namespace ReactiveVars

open TurnM

/-! ## Switching variables off

A variable is switched off in the store and in the tracker. For sessions to be equal and not only
alike, the stores have to be compared list by list. -/

/-- The store in which some variables are not active. -/
def Store.switchOff (s : Store) (ids : List VarId) : Store :=
  { s with entries := s.entries.map fun v ↦ if v.id ∈ ids then { v with active := false } else v }

theorem Store.get?_switchOff (s : Store) (ids : List VarId) (id : VarId) :
    (s.switchOff ids).get? id = (s.get? id).map fun v ↦
      if id ∈ ids then { v with active := false } else v := by
  have hid (v : Variable) : (if v.id ∈ ids then { v with active := false } else v).id = v.id := by
    split <;> rfl
  rw [get?_eq_findIn, switchOff, findIn_map s.entries hid, get?_eq_findIn]
  cases hv : findIn id s.entries with
  | none => rfl
  | some v => rw [Option.map_some, Option.map_some, id_of_findIn hv]

namespace SessionState

variable {s s' : SessionState} {ids ids' : List VarId} {id : VarId} {o : Observer}

private theorem ext_parts (hstore : s.store = s'.store) (htally : s.tally = s'.tally)
    (hcache : ∀ k, s.tracker.cache.get? k = s'.tracker.cache.get? k) : s = s' := by
  obtain ⟨store, tally, ⟨cache⟩⟩ := s
  obtain ⟨store', tally', ⟨cache'⟩⟩ := s'
  obtain rfl : store = store' := hstore
  obtain rfl : tally = tally' := htally
  obtain rfl : cache = cache' := KeyMap.ext_get? hcache
  rfl

theorem store_releasedAll (s : SessionState) (ids : List VarId) :
    (s.releasedAll ids).store = s.store.switchOff ids := by
  induction ids generalizing s with
  | nil => simp [releasedAll, Store.switchOff]
  | cons id ids ih =>
    rw [releasedAll, List.foldl_cons, ← releasedAll, ih, released, Store.setActive, Store.modify,
      Store.switchOff, Store.switchOff, List.map_map]
    refine congrArg (Store.mk · _) (List.map_congr_left fun v _ ↦ ?_)
    by_cases hid : v.id = id <;> by_cases hmem : v.id ∈ ids <;> simp [hid, hmem]

theorem cache_releasedAll (s : SessionState) (ids : List VarId) (k : VarId) :
    (s.releasedAll ids).tracker.cache.get? k
      = if k ∈ ids then none else s.tracker.cache.get? k := by
  rw [tracker_releasedAll, Tracker.get?_deactivateAll]

/-- The order in which variables are released does not matter. -/
private theorem releasedAll_congr (h : ∀ k, k ∈ ids ↔ k ∈ ids') (s : SessionState) :
    s.releasedAll ids = s.releasedAll ids' := by
  refine ext_parts ?_ ?_ fun k ↦ ?_
  · rw [store_releasedAll, store_releasedAll, Store.switchOff, Store.switchOff]
    simp only [h]
  · rw [tally_releasedAll, tally_releasedAll]
  · rw [cache_releasedAll, cache_releasedAll]
    simp only [h]

/-! ## Ending watches before leaving

The tally is compared by who watches what, which determines it as long as it is tight. Store and
tracker follow from which variables are left without a watcher. -/

/-- Ending one watch first makes no difference. -/
theorem unwatchedAll_unwatched (s : SessionState) (o : Observer) (id : VarId) :
    (s.unwatched o id).unwatchedAll o = s.unwatchedAll o := by
  have htally : ((s.tally.unwatch id o).2.unwatchAll o).2 = (s.tally.unwatchAll o).2 := by
    refine (WatchTally.tight_unwatchAll _ o).ext (WatchTally.tight_unwatchAll _ o) fun k o' ↦ ?_
    rw [WatchTally.isWatching_unwatchAll, WatchTally.isWatching_unwatchAll,
      WatchTally.isWatching_unwatch]
    by_cases ho : o = o' <;> simp [ho]
  -- the pass finds everything that it would have found but for this variable
  have hleft (k : VarId) : k ∈ ((s.tally.unwatch id o).2.unwatchAll o).1
      ↔ k ≠ id ∧ k ∈ (s.tally.unwatchAll o).1 := by
    rw [WatchTally.mem_unwatchAll_iff, WatchTally.mem_unwatchAll_iff, WatchTally.IsOnlyWatcher,
      WatchTally.IsOnlyWatcher]
    simp only [WatchTally.isWatching_unwatch]
    by_cases hk : id = k
    · simp [hk]
    · simp [hk, Ne.symm hk]
  rw [unwatched, unwatchedAll, unwatchedAll]
  split
  · next hedge =>
    have hid : id ∈ (s.tally.unwatchAll o).1 :=
      WatchTally.mem_unwatchAll_iff.mpr (WatchTally.edge_unwatch_iff.mp hedge)
    simp only [tally_released, htally]
    show releasedAll { s with tally := (s.tally.unwatchAll o).2 }
      (id :: ((s.tally.unwatch id o).2.unwatchAll o).1) = _
    refine releasedAll_congr (fun k ↦ ?_) _
    rw [List.mem_cons, hleft]
    by_cases hk : k = id <;> simp [hk, hid]
  · next hedge =>
    have hid : id ∉ (s.tally.unwatchAll o).1 := fun hmem ↦
      hedge (WatchTally.edge_unwatch_iff.mpr (WatchTally.mem_unwatchAll_iff.mp hmem))
    rw [htally]
    refine releasedAll_congr (fun k ↦ ?_) _
    rw [hleft]
    by_cases hk : k = id <;> simp [hk, hid]

private theorem unwatchedAll_of_idle (h : s.tally.Tight)
    (hidle : ∀ id, s.tally.isWatching id o = false) : s.unwatchedAll o = s := by
  have htally : (s.tally.unwatchAll o).2 = s.tally := by
    refine (WatchTally.tight_unwatchAll _ o).ext h fun k o' ↦ ?_
    rw [WatchTally.isWatching_unwatchAll]
    by_cases ho : o = o'
    · simp [← ho, hidle]
    · simp [ho]
  have hnone : (s.tally.unwatchAll o).1 = [] := by
    refine List.eq_nil_iff_forall_not_mem.mpr fun id hid ↦ ?_
    have hw := (WatchTally.mem_unwatchAll_iff.mp hid).1
    rw [hidle] at hw
    exact absurd hw Bool.false_ne_true
  rw [unwatchedAll, htally, hnone]
  rfl

/-- The session after an observer has been counted out of several variables one by one. -/
def unwatchedEach (s : SessionState) (o : Observer) (ids : List VarId) : SessionState :=
  ids.foldl (fun s id ↦ s.unwatched o id) s

private theorem unwatchedAll_unwatchedEach (s : SessionState) (o : Observer) (ids : List VarId) :
    (s.unwatchedEach o ids).unwatchedAll o = s.unwatchedAll o := by
  induction ids generalizing s with
  | nil => rfl
  | cons id ids ih => exact (ih (s.unwatched o id)).trans (s.unwatchedAll_unwatched o id)

private theorem tally_unwatched (s : SessionState) (o : Observer) (id : VarId) :
    (s.unwatched o id).tally = (s.tally.unwatch id o).2 := by
  rw [unwatched]
  split <;> rfl

private theorem isWatching_unwatchedEach (s : SessionState) (o : Observer) (ids : List VarId)
    (k : VarId) : (s.unwatchedEach o ids).tally.isWatching k o
      = (!decide (k ∈ ids) && s.tally.isWatching k o) := by
  induction ids generalizing s with
  | nil => simp [unwatchedEach]
  | cons id ids ih =>
    rw [unwatchedEach, List.foldl_cons, ← unwatchedEach, ih, tally_unwatched,
      WatchTally.isWatching_unwatch]
    by_cases hk : k ∈ ids <;> simp [hk, eq_comm]

/-- **Leaving is ending all watches, in any order.** -/
theorem unwatchedEach_eq_unwatchedAll (h : s.Coherent)
    (hids : ∀ id, s.tally.isWatching id o = true → id ∈ ids) :
    s.unwatchedEach o ids = s.unwatchedAll o := by
  have htight : (s.unwatchedEach o ids).tally.Tight := by
    have hcoherent : (s.unwatchedEach o ids).Coherent := by
      clear hids
      induction ids generalizing s with
      | nil => exact h
      | cons id ids ih => exact ih (h.unwatched o id)
    exact hcoherent.tight
  rw [← s.unwatchedAll_unwatchedEach o ids, unwatchedAll_of_idle htight]
  intro id
  rw [isWatching_unwatchedEach]
  cases hw : s.tally.isWatching id o with
  | false => rw [Bool.and_false]
  | true => simp [hids id hw]

end SessionState

/-! ## What an observer watches -/

namespace WatchTally

variable {t : WatchTally} {id : VarId} {o : Observer}

/-- The variables that an observer watches. -/
def watchedBy (t : WatchTally) (o : Observer) : List VarId :=
  t.watched.keys.filter fun id ↦ t.isWatching id o

theorem mem_watchedBy_iff : id ∈ t.watchedBy o ↔ t.isWatching id o = true := by
  rw [watchedBy, List.mem_filter, KeyMap.mem_keys_iff, and_iff_right_iff_imp]
  intro hw
  rw [← Bool.not_eq_false, KeyMap.contains_eq_false_iff]
  intro hnone
  rw [isWatching, observers, hnone] at hw
  exact absurd hw Bool.false_ne_true

private theorem pairwise_unwatchAll (t : WatchTally) (o : Observer) :
    (t.unwatchAll o).1.Pairwise (· < ·) :=
  List.pairwise_map.mpr (KeyMap.ascending _)

end WatchTally

/-! ## Leaving

In a turn the watches are ended by a loop. A disconnection is the pass over the tally, run as a turn
of the session, and then the batcher of the observer is given up. -/

section Leaving

variable {σ : Type} {t : Turn σ} {ids : List VarId} {o : Observer}

/-- Counts an observer out of several variables one by one. -/
def unwatchEach (o : Observer) : List VarId → TurnM σ Unit
  | [] => return
  | id :: ids => do
    unwatch o id
    unwatchEach o ids

theorem unwatchEach_run (o : Observer) (ids : List VarId) (t : Turn σ) :
    unwatchEach o ids t = .ok () { t with session := t.session.unwatchedEach o ids } := by
  induction ids generalizing t with
  | nil => rfl
  | cons id ids ih =>
    rw [unwatchEach, bind_run, unwatch_run]
    exact ih { t with session := t.session.unwatched o id }

/-- A disconnection counts the observer out everywhere and gives up its batcher. -/
theorem Session.disconnect_run {s : Session σ} {app : σ} (alive : s.executor.owned = some app)
    (now : Nat) (o : Observer) :
    s.disconnect now o = (.ok (s.state.tally.unwatchAll o).1,
      { s with state := s.state.unwatchedAll o, connections := s.connections.erase o }) := by
  obtain ⟨label, window, wrappers, state, ⟨owned⟩, connections⟩ := s
  obtain rfl : owned = some app := alive
  have hrun : (unwatchAll o).run (⟨state, app, []⟩ : Turn σ)
      = .ok (state.tally.unwatchAll o).1 ⟨state.unwatchedAll o, app, []⟩ := unwatchAll_run o _
  simp only [disconnect, runTurn, perform, hrun]
  rfl

variable [Application σ] {w : WrapperRegistry}

/-- **Leaving is ending all watches.** Counting an observer out everywhere does to the session what
ending its watches one by one does, in any order, and so does its disconnection. Returned are, in
order and once each, the variables that it alone watched; exactly these are not active and not
tracked afterwards. All other variables, their tracking and the watches of others stay. -/
theorem unwatchAll_eq_unwatchEach (h : t.Attainable w)
    (hids : ids.Perm (t.session.tally.watchedBy o)) :
    ∃ released s', unwatchAll o t = .ok released { t with session := s' } ∧
      unwatchEach o ids t = .ok () { t with session := s' } ∧
      (∀ (s : Session σ) (now : Nat), s.state = t.session → s.executor.owned = some t.app →
        s.disconnect now o
          = (.ok released, { s with state := s', connections := s.connections.erase o })) ∧
      released.Pairwise (· < ·) ∧
      (∀ id, id ∈ released ↔ t.session.tally.watchers id = [o]) ∧
      (∀ id ∈ released, s'.tracker.isTracking id = false ∧
        ∃ v, t.session.store.get? id = some v ∧
          s'.store.get? id = some { v with active := false }) ∧
      (∀ id ∉ released, s'.tracker.cache.get? id = t.session.tracker.cache.get? id ∧
        s'.store.get? id = t.session.store.get? id) ∧
      ∀ id o', s'.tally.isWatching id o'
        = (!decide (o = o') && t.session.tally.isWatching id o') := by
  have hcoherent := h.coherent
  -- any order will do, as long as it goes through all that the observer watches
  have hcover (id : VarId) (hw : t.session.tally.isWatching id o = true) : id ∈ ids :=
    hids.mem_iff.mpr (WatchTally.mem_watchedBy_iff.mpr hw)
  refine ⟨_, t.session.unwatchedAll o, unwatchAll_run o t, ?_, ?_,
    WatchTally.pairwise_unwatchAll _ o, fun id ↦ ?_, fun id hid ↦ ⟨?_, ?_⟩,
    fun id hid ↦ ⟨?_, ?_⟩, fun id o' ↦ ?_⟩
  · rw [unwatchEach_run, SessionState.unwatchedEach_eq_unwatchedAll hcoherent hcover]
  · intro s now hstate alive
    rw [Session.disconnect_run alive, hstate]
  · rw [WatchTally.mem_unwatchAll_iff, WatchTally.watchers_eq_singleton_iff]
  · rw [Tracker.isTracking, KeyMap.contains, SessionState.unwatchedAll,
      SessionState.cache_releasedAll, if_pos hid]
    rfl
  · -- what is watched is a variable of the store
    obtain ⟨v, hv⟩ := Store.contains_iff.mp
      (hcoherent.stored (WatchTally.mem_unwatchAll_iff.mp hid).1)
    refine ⟨v, hv, ?_⟩
    rw [SessionState.unwatchedAll, SessionState.store_releasedAll, Store.get?_switchOff, hv,
      Option.map_some, if_pos hid]
  · rw [SessionState.unwatchedAll, SessionState.cache_releasedAll, if_neg hid]
  · rw [SessionState.unwatchedAll, SessionState.store_releasedAll, Store.get?_switchOff]
    simp only [if_neg hid, Option.map_id']
  · rw [SessionState.unwatchedAll, SessionState.tally_releasedAll,
      WatchTally.isWatching_unwatchAll]

end Leaving

/-- An observer that watches the root and another variable alone, and a third one together with
somebody else, who has a variable of its own. -/
def ContactBook.shared : Turn ObjectSpace :=
  turn.run .standard [.handle "a" (.watch rootId),
    .handle "a" (.create rootId none (.ofList [("path", "name")]) (some 4) false false),
    .handle "b" (.watch 4), .handle "b" (.create rootId none .empty (some 2) false false),
    .handle "a" (.create rootId none .empty (some 3) false false)]

theorem unwatchAll_shared :
    ContactBook.shared.Attainable .standard ∧
      [3, 1, 4].Perm (ContactBook.shared.session.tally.watchedBy "a") ∧
      ∃ released s',
        unwatchAll "a" ContactBook.shared = .ok released { ContactBook.shared with session := s' } ∧
        unwatchEach "a" [3, 1, 4] ContactBook.shared
          = .ok () { ContactBook.shared with session := s' } ∧
        (∀ id, id ∈ released ↔ ContactBook.shared.session.tally.watchers id = ["a"]) ∧
        1 ∈ released ∧ 4 ∉ released := by
  have hattainable : ContactBook.shared.Attainable .standard := (Turn.Attainable.fresh _ _).run _
  have hids : [3, 1, 4].Perm (ContactBook.shared.session.tally.watchedBy "a") := by
    decide +kernel
  obtain ⟨released, s', hall, heach, -, -, honly, -⟩ := unwatchAll_eq_unwatchEach hattainable hids
  refine ⟨hattainable, hids, released, s', hall, heach, honly, ?_, ?_⟩
  · rw [honly]
    decide +kernel
  · rw [honly]
    decide +kernel

end ReactiveVars
