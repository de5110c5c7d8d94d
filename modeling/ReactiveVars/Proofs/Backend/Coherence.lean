import Mathlib.Tactic.ByContra
import ReactiveVars.Proofs.Backend.Operations

/-!
# The parts of a session agree

The store says which variables there are and which are active, the tally says who watches them, and
the tracker says what their watchers were last told. `Coherent` relates the three: only variables
are watched, exactly the active ones are tracked, and what is active has a watcher.

The relation is stated by four questions about a number: is there such a variable, is it active, is
it tracked, does an observer watch it. Each move is described by what it does to the four answers.
-/

namespace ReactiveVars

open TurnM

variable {s s' : SessionState} {id : VarId} {o : Observer}

/-! ## Active variables

A variable that is not there counts as not active. -/

/-- Whether there is an active variable with a number. -/
def Store.isActive (s : Store) (id : VarId) : Bool := (s.get? id).any Variable.active

theorem Store.isActive_iff {s : Store} :
    s.isActive id = true ↔ ∃ v, s.get? id = some v ∧ v.active = true := by
  rw [isActive, Option.any_eq_true]

theorem Store.isActive_modify (s : Store) (id : VarId) {f : Variable → Variable}
    (hid : ∀ v, (f v).id = v.id) (hactive : ∀ v, (f v).active = v.active) (k : VarId) :
    (s.modify id f).isActive k = s.isActive k := by
  rw [isActive, get?_modify s id hid, isActive]
  split
  · cases s.get? k with
    | none => rfl
    | some v => rw [Option.map_some, Option.any_some, Option.any_some, hactive]
  · rfl

theorem Store.isActive_setActive (s : Store) (id : VarId) (active : Bool) (k : VarId) :
    (s.setActive id active).isActive k
      = if id = k then s.contains k && active else s.isActive k := by
  rw [isActive, get?_setActive]
  split
  · rw [contains]
    cases s.get? k <;> rfl
  · rfl

theorem Store.isActive_keep (s : Store) (id : VarId) (presented : Json) (k : VarId) :
    (s.keep id presented).isActive k = s.isActive k := by
  refine isActive_modify s id (fun v ↦ ?_) (fun v ↦ ?_) k <;> split <;> rfl

theorem Store.contains_keep (s : Store) (id : VarId) (presented : Json) (k : VarId) :
    (s.keep id presented).contains k = s.contains k := by
  refine contains_modify s id (fun v ↦ ?_) k
  split <;> rfl

/-! ## Tracked variables

What the tracker holds for a variable does not matter here, only whether it holds anything. -/

namespace Tracker

theorem isTracking_activate (t : Tracker) (id : VarId) (v : Json) (k : VarId) :
    (t.activate id v).isTracking k = (decide (id = k) || t.isTracking k) :=
  KeyMap.contains_insert t.cache id k v.text

theorem isTracking_deactivate (t : Tracker) (id k : VarId) :
    (t.deactivate id).isTracking k = (!decide (id = k) && t.isTracking k) :=
  KeyMap.contains_erase t.cache id k

theorem isTracking_remember (t : Tracker) (id : VarId) (v : Json) (k : VarId) :
    (t.remember id v).isTracking k = t.isTracking k :=
  KeyMap.contains_modify t.cache id k _

theorem get?_deactivateAll (ids : List VarId) (t : Tracker) (k : VarId) :
    (ids.foldl deactivate t).cache.get? k = if k ∈ ids then none else t.cache.get? k := by
  induction ids generalizing t with
  | nil => rfl
  | cons id ids ih =>
    rw [List.foldl_cons, ih, deactivate, KeyMap.get?_erase]
    by_cases hk : k ∈ ids
    · rw [if_pos hk, if_pos (List.mem_cons_of_mem id hk)]
    · by_cases hid : id = k
      · simp [hid]
      · simp [hk, hid, Ne.symm hid]

theorem isTracking_deactivateAll (ids : List VarId) (t : Tracker) (k : VarId) :
    (ids.foldl deactivate t).isTracking k = (!decide (k ∈ ids) && t.isTracking k) := by
  rw [isTracking, KeyMap.contains, get?_deactivateAll, isTracking, KeyMap.contains]
  by_cases hk : k ∈ ids <;> simp [hk]

end Tracker

/-! ## Coherence -/

/-- **The parts of a session agree.** -/
structure SessionState.Coherent (s : SessionState) : Prop where
  /-- The tally has no entry without a watcher. -/
  tight : s.tally.Tight
  /-- Only variables are watched. -/
  stored : ∀ {id o}, s.tally.isWatching id o = true → s.store.contains id = true
  /-- Exactly the active variables are tracked. -/
  tracked : ∀ id, s.tracker.isTracking id = s.store.isActive id
  /-- Active variables are watched. -/
  watched : ∀ {id}, s.store.isActive id = true → ∃ o, s.tally.isWatching id o = true

namespace SessionState.Coherent

theorem withRoot (root : Json) : (SessionState.withRoot root).Coherent := by
  have hidle (id : VarId) : (SessionState.withRoot root).store.isActive id = false := by
    rw [Store.isActive, Store.get?_eq_findIn, entries_withRoot, Store.findIn_cons]
    split <;> rfl
  refine ⟨WatchTally.tight_empty, ?_, fun id ↦ by rw [hidle]; rfl, fun {id} h ↦ ?_⟩
  · intro id o h
    exact absurd h (by simp [SessionState.withRoot, SessionState.empty, WatchTally.empty,
      WatchTally.isWatching, WatchTally.observers])
  · exact absurd h (by simp [hidle])

/-- A move that changes no answer keeps the relation. -/
theorem congr (h : s.Coherent) (htally : s'.tally = s.tally)
    (hcontains : ∀ k, s'.store.contains k = s.store.contains k)
    (hactive : ∀ k, s'.store.isActive k = s.store.isActive k)
    (htracking : ∀ k, s'.tracker.isTracking k = s.tracker.isTracking k) : s'.Coherent where
  tight := htally ▸ h.tight
  stored hw := by rw [hcontains]; rw [htally] at hw; exact h.stored hw
  tracked k := by rw [htracking, hactive, h.tracked]
  watched ha := by rw [hactive] at ha; rw [htally]; exact h.watched ha

/-! ### Watching -/

theorem keep (h : s.Coherent) (id : VarId) (v : Json) :
    Coherent { s with store := s.store.keep id v } :=
  h.congr rfl (s.store.contains_keep id v) (s.store.isActive_keep id v) fun _ ↦ rfl

theorem count (h : s.Coherent) (found : s.store.contains id = true) (o : Observer) :
    Coherent { s with tally := (s.tally.watch id o).2 } where
  tight := h.tight.watch id o
  stored {k o'} hw := by
    rw [WatchTally.isWatching_watch, Bool.or_eq_true, decide_eq_true_eq] at hw
    rcases hw with ⟨rfl, -⟩ | hw
    · exact found
    · exact h.stored hw
  tracked := h.tracked
  watched ha := by
    obtain ⟨o', ho'⟩ := h.watched ha
    exact ⟨o', by rw [WatchTally.isWatching_watch, ho', Bool.or_true]⟩

theorem activate (h : s.Coherent) (hw : s.tally.isWatching id o = true) (v : Json) :
    Coherent ⟨s.store.setActive id true, s.tally, s.tracker.activate id v⟩ where
  tight := h.tight
  stored hw' := by rw [Store.contains_setActive]; exact h.stored hw'
  tracked k := by
    rw [Tracker.isTracking_activate, Store.isActive_setActive]
    by_cases hk : id = k
    · subst hk
      rw [if_pos rfl, h.stored hw, decide_eq_true rfl]
      rfl
    · rw [if_neg hk, h.tracked, decide_eq_false hk, Bool.false_or]
  watched {k} ha := by
    rw [Store.isActive_setActive] at ha
    split at ha
    · next hk => exact ⟨o, hk ▸ hw⟩
    · exact h.watched ha

theorem showStep (h : s.Coherent) (found : s.store.contains id = true) (hs : ShowStep id s s') :
    s'.Coherent := by
  cases hs with
  | keep v => exact h.keep id v
  | count o => exact h.count found o
  | watch o v =>
    have hkept := (h.count found o).keep id v
    rw [SessionState.watched]
    split
    · refine hkept.activate (o := o) ?_ v
      rw [WatchTally.isWatching_watch, decide_eq_true ⟨rfl, rfl⟩, Bool.true_or]
    · exact hkept

/-! ### Ending a watch

Two things could go wrong: the last watcher leaves an active variable behind, or another one than
the last takes it off. That neither happens rests on what the tally says of the last watcher. -/

/-- Variables may be left without a watcher if they are then switched off in the store and in the
tracker. -/
theorem releasedAll {ids : List VarId} (tight : s.tally.Tight)
    (stored : ∀ {k o}, s.tally.isWatching k o = true → s.store.contains k = true)
    (tracked : ∀ k, s.tracker.isTracking k = s.store.isActive k)
    (watched : ∀ {k}, s.store.isActive k = true →
      k ∈ ids ∨ ∃ o, s.tally.isWatching k o = true) : (s.releasedAll ids).Coherent := by
  induction ids generalizing s with
  | nil => exact ⟨tight, stored, tracked, fun ha ↦ (watched ha).resolve_left (by simp)⟩
  | cons id ids ih =>
    refine ih (s := s.released id) tight (fun {k o} hw ↦ ?_) (fun k ↦ ?_) fun {k} ha ↦ ?_
    · rw [SessionState.released, Store.contains_setActive]
      exact stored hw
    · rw [SessionState.released, Tracker.isTracking_deactivate, Store.isActive_setActive, tracked]
      by_cases hk : id = k <;> simp [hk]
    · rw [SessionState.released, Store.isActive_setActive] at ha
      split at ha
      · exact absurd ha (by simp)
      · next hk =>
        rcases watched ha with hmem | hw
        · exact .inl ((List.mem_cons.mp hmem).resolve_left (Ne.symm hk))
        · exact .inr hw

private theorem exists_other {k : VarId} (h : s.Coherent) (ha : s.store.isActive k = true)
    (honly : ¬ s.tally.IsOnlyWatcher k o) : ∃ o', s.tally.isWatching k o' = true ∧ o' ≠ o := by
  by_contra hnone
  push Not at hnone
  obtain ⟨o', ho'⟩ := h.watched ha
  refine honly ⟨?_, hnone⟩
  rw [← hnone o' ho', ho']

theorem unwatched (h : s.Coherent) (o : Observer) (id : VarId) : (s.unwatched o id).Coherent := by
  have hstored {k : VarId} {o' : Observer}
      (hw : (s.tally.unwatch id o).2.isWatching k o' = true) : s.store.contains k = true := by
    rw [WatchTally.isWatching_unwatch, Bool.and_eq_true] at hw
    exact h.stored hw.2
  -- an active variable keeps a watcher unless its only one goes
  have hleft {k : VarId} (ha : s.store.isActive k = true)
      (hk : ¬ (id = k ∧ s.tally.IsOnlyWatcher id o)) :
      ∃ o', (s.tally.unwatch id o).2.isWatching k o' = true := by
    by_cases hid : id = k
    · subst hid
      obtain ⟨o', ho', hne⟩ := h.exists_other ha (not_and.mp hk rfl)
      exact ⟨o', by simp [WatchTally.isWatching_unwatch, ho', Ne.symm hne]⟩
    · obtain ⟨o', ho'⟩ := h.watched ha
      exact ⟨o', by simp [WatchTally.isWatching_unwatch, ho', hid]⟩
  rw [SessionState.unwatched]
  split
  · next hedge =>
    show (SessionState.releasedAll { s with tally := (s.tally.unwatch id o).2 } [id]).Coherent
    refine releasedAll (h.tight.unwatch id o) hstored h.tracked fun {k} ha ↦ ?_
    by_cases hid : id = k
    · exact .inl (by simp [hid])
    · exact .inr (hleft ha fun hk ↦ hid hk.1)
  · next hedge =>
    rw [WatchTally.edge_unwatch_iff] at hedge
    exact ⟨h.tight.unwatch id o, hstored, h.tracked, fun ha ↦ hleft ha fun hk ↦ hedge hk.2⟩

theorem unwatchedAll (h : s.Coherent) (o : Observer) : (s.unwatchedAll o).Coherent := by
  refine releasedAll (s.tally.tight_unwatchAll o) (fun {k o'} hw ↦ ?_) h.tracked fun {k} ha ↦ ?_
  · rw [WatchTally.isWatching_unwatchAll, Bool.and_eq_true] at hw
    exact h.stored hw.2
  · by_cases honly : s.tally.IsOnlyWatcher k o
    · exact .inl (WatchTally.mem_unwatchAll_iff.mpr honly)
    · obtain ⟨o', ho', hne⟩ := h.exists_other ha honly
      exact .inr ⟨o', by simp [WatchTally.isWatching_unwatchAll, ho', Ne.symm hne]⟩

/-! ### Destroying -/

theorem destroyed (h : s.Coherent) (id : VarId) : (s.destroyed id).Coherent := by
  have hactive (k : VarId) : (s.destroyed id).store.isActive k
      = (!decide (k ∈ (s.store.destroy id).1) && s.store.isActive k) := by
    rw [SessionState.destroyed, Store.isActive, Store.get?_destroy, Store.isActive]
    by_cases hk : k ∈ (s.store.destroy id).1 <;> simp [hk]
  -- what is left is as active and as watched as before
  refine ⟨h.tight.forgetAll _, fun {k o} hw ↦ ?_, fun k ↦ ?_, fun {k} ha ↦ ?_⟩
  · rw [SessionState.destroyed, WatchTally.isWatching_forgetAll, Bool.and_eq_true,
      Bool.not_eq_true', decide_eq_false_iff_not] at hw
    rw [SessionState.destroyed, Store.contains, Store.get?_destroy, if_neg hw.1]
    exact h.stored hw.2
  · rw [hactive, ← h.tracked, SessionState.destroyed, Tracker.isTracking_deactivateAll]
  · rw [hactive, Bool.and_eq_true] at ha
    obtain ⟨o, ho⟩ := h.watched ha.2
    exact ⟨o, by rw [SessionState.destroyed, WatchTally.isWatching_forgetAll, ha.1, ho]; rfl⟩

/-! ### Every move

A variable is registered without watchers and inactive. The other moves have been treated above. -/

theorem registered (h : s.Coherent) (request : CreateRequest) (value : Json)
    (ps : Properties)
    (check : (request.chosen s.store).2.checkNew (request.chosen s.store).1 request.parent
      = .ok ()) : (s.registered request value ps).Coherent := by
  -- the number is free and the new variable is not active, so no variable turns active
  have hactive (k : VarId) : (s.registered request value ps).store.isActive k
      = s.store.isActive k := by
    rw [Store.isActive, SessionState.get?_registered, Store.isActive]
    split
    · next hk => rw [← hk, Store.contains_eq_false_iff.mp (request.fresh check)]; rfl
    · rfl
  refine ⟨h.tight, fun {k o} hw ↦ ?_, fun k ↦ ?_, fun {k} ha ↦ ?_⟩
  · rw [SessionState.contains_registered, h.stored hw, Bool.or_true]
  · rw [hactive, ← h.tracked]
    rfl
  · rw [hactive] at ha
    exact h.watched ha

/-- **Every move keeps the parts of a session in agreement.** -/
theorem move (hm : Move s s') (h : s.Coherent) : s'.Coherent := by
  cases hm with
  | spend ids => exact h.congr rfl (fun _ ↦ rfl) (fun _ ↦ rfl) fun _ ↦ rfl
  | register request value ps check params => exact h.registered request value ps check
  | «show» id found step => exact h.showStep found step
  | assign parent value found literal =>
    refine h.congr rfl (fun k ↦ ?_) (fun k ↦ ?_) fun _ ↦ rfl
    · refine Store.contains_modify _ _ ?_ k
      exact fun _ ↦ rfl
    · refine Store.isActive_modify _ _ ?_ ?_ k <;> exact fun _ ↦ rfl
  | update id value ps found =>
    refine h.congr rfl (fun k ↦ ?_) (fun k ↦ ?_) fun k ↦ ?_
    · refine Store.contains_modify _ _ ?_ k
      exact fun _ ↦ rfl
    · refine Store.isActive_modify _ _ ?_ ?_ k <;> exact fun _ ↦ rfl
    · cases value with
      | none => rfl
      | some v => exact Tracker.isTracking_remember s.tracker id v k
  | unwatch o id => exact h.unwatched o id
  | unwatchAll o => exact h.unwatchedAll o
  | destroy id => exact h.destroyed id
  | note step =>
    have htracking := step.isTracking
    obtain ⟨id, v, -⟩ := step
    exact h.congr rfl (s.store.contains_keep id v) (s.store.isActive_keep id v) htracking

end SessionState.Coherent

section Runs

variable {σ : Type} [Application σ] {w : WrapperRegistry} {t : Turn σ}

/-- Every reachable session is coherent. -/
theorem Turn.Reachable.coherent (h : t.Reachable w) : t.session.Coherent := h.induct .withRoot .move

/-- **Store, tally and tracker agree after every run of operations.** Every number in the tally is
that of a variable and has watchers, the tracker holds exactly the active variables, and every
active variable has a watcher. -/
theorem Turn.run_parts_agree (w : WrapperRegistry) (root : Json) (app : σ)
    (ops : List (Operation σ)) :
    (∀ id ∈ ((fresh root app).run w ops).session.tally.watched.keys,
      ((fresh root app).run w ops).session.store.contains id = true ∧
        ((fresh root app).run w ops).session.tally.watchers id ≠ []) ∧
    (∀ id, id ∈ ((fresh root app).run w ops).session.tracker.cache.keys ↔
      ∃ v, ((fresh root app).run w ops).session.store.get? id = some v ∧ v.active = true) ∧
    ∀ id v, ((fresh root app).run w ops).session.store.get? id = some v → v.active = true →
      ((fresh root app).run w ops).session.tally.watchers id ≠ [] := by
  have h := ((Reachable.fresh root app).run (w := w) ops).coherent
  refine ⟨fun id hid ↦ ?_, fun id ↦ ?_, fun id v hv hactive ↦ ?_⟩
  · have hne := h.tight id (KeyMap.mem_keys_iff.mp hid)
    obtain ⟨o, ho⟩ := List.exists_mem_of_ne_nil _ hne
    exact ⟨h.stored (WatchTally.mem_watchers_iff.mp ho), hne⟩
  · rw [KeyMap.mem_keys_iff, ← Store.isActive_iff, ← h.tracked]
    rfl
  · obtain ⟨o, ho⟩ := h.watched (Store.isActive_iff.mpr ⟨v, hv, hactive⟩)
    exact WatchTally.watchers_ne_nil_of_isWatching ho

end Runs

end ReactiveVars
