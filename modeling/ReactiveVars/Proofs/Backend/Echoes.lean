import ReactiveVars.Proofs.Backend.Addressees
import ReactiveVars.Proofs.Backend.Walks

/-!
# Updates are told once

An observer that sets the value of a variable without path and wrapper has set what the variable
presents. The other watchers are relayed the update, and the value is put on record for all of them,
so the detection that follows has no news about the variable, neither for them nor for the sender.

The invariant of the detection is `SessionState.Literal`: what the variable presents is what is
stored for it, and nothing else is on record.

## Main statement

* `update_told_once`: what the observers are sent about a variable by an update and a detection.
-/

namespace ReactiveVars

open TurnM Relation

/-- Whether a variable presents just a value, and has no other on record. -/
structure SessionState.Literal (s : SessionState) (id : VarId) (value : Json) : Prop where
  stored : ∃ u, s.store.get? id = some u ∧ u.path? = none ∧ u.wrapper? = none ∧ u.value = value
  recorded : ∀ r, s.record id = some r → r = value.text

section Detecting

variable {σ : Type} [Application σ] {w : WrapperRegistry} {o : Observer} {id k : VarId}
  {t t' : Turn σ} {value : Json}

private theorem SessionState.Literal.presented (h : t.session.Literal id value) :
    t.presented w id = (.ok value, t.app) := by
  obtain ⟨u, hu, hpath, hwrapper, rfl⟩ := h.stored
  rw [Turn.presented_of_no_path hu hpath, hwrapper]
  rfl

omit [Application σ] in
private theorem SessionState.Literal.noted {s : SessionState} (h : s.Literal id value) {v : Json}
    (hv : k = id → v = value) : (s.noted k v).Literal id value where
  stored := by
    obtain ⟨u, hu, hpath, hrest⟩ := h.stored
    refine ⟨u, ?_, hpath, hrest⟩
    rw [SessionState.noted, Store.get?_keep, hu, Option.map_some, hpath]
    simp
  recorded r hr := by
    rw [SessionState.record, SessionState.noted, Tracker.get?_activate] at hr
    split at hr
    · next hk => rw [← Option.some_inj.mp hr, hv hk]
    · exact h.recorded r hr

theorem examine_literal {change : Option Change} (h : t.session.Literal id value)
    (htracked : t.session.tracker.isTracking k = true) (hrun : examine w k t = .ok change t') :
    t'.session.Literal id value ∧ ∀ c ∈ change, c.id ≠ id := by
  rcases hp : t.presented w k with ⟨(e | _) | v, app⟩
  · rw [examine_of_refused hp] at hrun
    obtain ⟨rfl, rfl⟩ := EStateM.Result.ok.inj hrun
    exact ⟨h, by simp⟩
  · rw [examine_of_crashed hp] at hrun
    exact absurd hrun (by simp)
  · rw [examine_of_ok hp] at hrun
    obtain ⟨rfl, rfl⟩ := EStateM.Result.ok.inj hrun
    have hvalue (hk : k = id) : v = value := by
      rw [hk, h.presented] at hp
      exact (Except.ok.inj (Prod.mk.inj hp).1).symm
    refine ⟨h.noted hvalue, fun c hc hid ↦ ?_⟩
    obtain ⟨hnews, rfl⟩ := Tracker.change?_eq_some_iff.mp hc
    obtain ⟨r, hr⟩ := KeyMap.contains_iff.mp htracked
    refine hnews ?_
    subst hid
    rw [hr, h.recorded r hr, hvalue rfl]

theorem examineAll_literal {ids : List VarId} {changes : List Change}
    (h : t.session.Literal id value)
    (htracked : ∀ k ∈ ids, t.session.tracker.isTracking k = true)
    (hrun : examineAll w ids t = .ok changes t') : ∀ c ∈ changes, c.id ≠ id := by
  induction ids generalizing t changes with
  | nil =>
    obtain ⟨rfl, -⟩ := EStateM.Result.ok.inj hrun
    simp
  | cons k ids ih =>
    rw [List.forall_mem_cons] at htracked
    rw [examineAll] at hrun
    obtain ⟨change, t₁, hfirst, hrun⟩ := bind_eq_ok_iff.mp hrun
    obtain ⟨more, t₂, hrest, hrun⟩ := bind_eq_ok_iff.mp hrun
    obtain ⟨rfl, rfl⟩ := EStateM.Result.ok.inj hrun
    have hsteps := examine_steps w htracked.1
    rw [after_of_ok hfirst] at hsteps
    obtain ⟨hliteral, hchange⟩ := examine_literal h htracked.1 hfirst
    have hmore := ih hliteral (fun k' hk' ↦ by
      rw [isTracking_of_noteSteps hsteps, htracked.2 k' hk']) hrest
    intro c hc
    rcases List.mem_append.mp hc with hc | hc
    · exact hchange c (Option.mem_toList.mp hc)
    · exact hmore c hc

/-- **A detection tells nothing about a literal variable.** -/
theorem detectChanges_literal (h : t.session.Literal id value) :
    Sends (detectChanges w) t fun _ _ m ↦ m.id? ≠ some id := by
  refine sends_detectChanges fun found t' hexamined c hc _ _ _ heq ↦ ?_
  have hid := examineAll_literal h (fun k hk ↦ (mem_examined_iff.mp hk).1) hexamined c hc
  exact hid (Option.some_inj.mp heq)

omit [Application σ] in
/-- An update that stores a value leaves a variable without path and wrapper literal. -/
theorem literal_updated {s : SessionState} {ps : Properties} {v : Variable}
    (hv : (s.updated id (some value) ps).store.get? id = some v) (hpath : v.path? = none)
    (hwrapper : v.wrapper? = none) : (s.updated id (some value) ps).Literal id value where
  stored := by
    refine ⟨v, hv, hpath, hwrapper, ?_⟩
    have hget := s.store.get?_modify id (f := fun v ↦ v.update (some value) ps) (fun _ ↦ rfl) id
    rw [if_pos rfl] at hget
    obtain ⟨u, -, rfl⟩ := Option.map_eq_some_iff.mp (hget.symm.trans hv)
    rfl
  recorded r hr := by
    have hget : (s.updated id (some value) ps).record id
        = (s.tracker.cache.get? id).map fun _ ↦ value.text := by
      rw [SessionState.record, SessionState.updated, Option.map_some, Option.getD_some,
        Tracker.remember, KeyMap.get?_modify, if_pos rfl]
    obtain ⟨-, -, rfl⟩ := Option.map_eq_some_iff.mp (hget.symm.trans hr)
    rfl

theorem update_literal {ps : Properties} {v : Variable}
    (h : update w o id (some value) ps t = .ok () t')
    (hactive : t.session.store.isSuspended id = false)
    (hv : t'.session.store.get? id = some v) (hpath : v.path? = none)
    (hwrapper : v.wrapper? = none) : t'.session.Literal id value := by
  have heffective : effectiveValue t.session.store id (some value) = some value :=
    effectiveValue_eq_some_iff.mpr ⟨hactive, rfl⟩
  obtain ⟨u, t₁, -, -, hrun⟩ | ⟨halt, app, hrun⟩ := update_cases w o id (some value) ps t
  · obtain rfl := (EStateM.Result.ok.inj (hrun.symm.trans h)).2
    rw [heffective] at hv ⊢
    exact literal_updated hv hpath hwrapper
  · rw [hrun] at h
    exact absurd h (by simp)

end Detecting

/-! ## Who is told

The detection sends nothing about the variable, so all that the observers are sent is what the
update relays, and the watchers are listed once. -/

theorem Dispatch.forObserver_map_of_nodup {os : List Observer} (h : os.Nodup) (m : Message)
    (o : Observer) :
    Dispatch.forObserver (os.map fun o' ↦ (o', m)) o = if o ∈ os then [m] else [] := by
  have hfilter : Dispatch.forObserver (os.map fun o' ↦ (o', m)) o
      = List.replicate (os.count o) m := by
    rw [forObserver, List.filter_map, List.map_map]
    have hown : os.filter ((fun e : Observer × Message ↦ decide (e.1 = o)) ∘ fun o' ↦ (o', m))
        = List.replicate (os.count o) o := List.filter_eq o
    rw [hown, List.map_replicate]
    rfl
  rw [hfilter, h.count]
  split <;> rfl

private theorem Dispatch.filter_forObserver_eq_nil {d : Dispatch} {p : Message → Bool}
    (h : ∀ e ∈ d, p e.2 = false) (o : Observer) : (d.forObserver o).filter p = [] := by
  rw [List.filter_eq_nil_iff, forObserver, List.forall_mem_map]
  intro e he
  rw [h e (List.mem_of_mem_filter he)]
  exact Bool.false_ne_true

section Updating

variable {σ : Type} [Application σ] {w : WrapperRegistry} {o : Observer} {id : VarId}
  {t t' : Turn σ} {value : Json}

/-- **Updates are told once.** -/
theorem update_told_once {ps : Properties} {v : Variable}
    (h : obey w o (.update id (some value) ps) t = .ok () t')
    (hactive : t.session.store.isSuspended id = false)
    (hv : t'.session.store.get? id = some v) (hpath : v.path? = none)
    (hwrapper : v.wrapper? = none) :
    ∃ d, (t.run w [.handle o (.update id (some value) ps), .detectChanges]).dispatch
        = t.dispatch ++ d ∧
      ∀ o', (d.forObserver o').filter (fun m ↦ m.id? = some id)
        = if t.session.tally.isWatching id o' = true ∧ o' ≠ o then [.update id (some value) ps]
          else [] := by
  have heffective : effectiveValue t.session.store id (some value) = some value :=
    effectiveValue_eq_some_iff.mpr ⟨hactive, rfl⟩
  have hsent := sent_update h (.inl (by rw [heffective]; rfl))
  rw [heffective] at hsent
  have hhandle : (handle w o (.update id (some value) ps)).after t = t' := by
    rw [after, handle_run, h]
  have hdispatch := ((Operation.handle o (.update id (some value) ps)).wellAddressed w t).appended
  rw [Operation.part, hhandle, hsent] at hdispatch
  -- the update has left the variable literal, so the detection is silent on it
  obtain ⟨more, hmore, hsilent⟩ := detectChanges_literal (w := w)
    (update_literal h hactive hv hpath hwrapper)
  refine ⟨((t.session.tally.watchers id).filter (· ≠ o)).map
    (fun o' ↦ (o', .update id (some value) ps)) ++ more, ?_, fun o' ↦ ?_⟩
  · rw [Turn.run, List.foldl_cons, List.foldl_cons, List.foldl_nil, Operation.part, Operation.part,
      hhandle, after_discard, hmore, hdispatch, List.append_assoc]
  · have hnothing : (more.forObserver o').filter (fun m ↦ m.id? = some id) = [] :=
      Dispatch.filter_forObserver_eq_nil (fun e he ↦ decide_eq_false (hsilent e he)) o'
    have hnodup : (t.session.tally.watchers id).Nodup := KeyMap.nodup_keys _
    rw [Dispatch.forObserver_append, List.filter_append, hnothing, List.append_nil,
      Dispatch.forObserver_map_of_nodup (hnodup.filter _)]
    simp only [List.mem_filter, WatchTally.mem_watchers_iff, decide_eq_true_eq]
    split
    · simp [Message.id?]
    · rfl

end Updating

theorem watchedChild_told_once :
    ∃ t' v, obey .standard "a" (.update 3 (some (.int 7)) .empty) ContactBook.watchedChild
        = .ok () t' ∧
      ContactBook.watchedChild.session.store.isSuspended 3 = false ∧
      t'.session.store.get? 3 = some v ∧ v.path? = none ∧ v.wrapper? = none ∧
      ∃ d, (ContactBook.watchedChild.run .standard
          [.handle "a" (.update 3 (some (.int 7)) .empty), .detectChanges]).dispatch
          = ContactBook.watchedChild.dispatch ++ d ∧
        ∀ o', (d.forObserver o').filter (fun m ↦ m.id? = some 3)
          = if ContactBook.watchedChild.session.tally.isWatching 3 o' = true ∧ o' ≠ "a" then
              [.update 3 (some (.int 7)) .empty] else [] := by
  have hactive : ContactBook.watchedChild.session.store.isSuspended 3 = false := by decide +kernel
  have hpasses : (obey .standard "a" (.update 3 (some (.int 7)) .empty)).passes
      (fun _ t' ↦ (t'.session.store.get? 3).any fun v ↦ v.path?.isNone && v.wrapper?.isNone)
      ContactBook.watchedChild = true := by decide +kernel
  obtain ⟨⟨⟩, t', h, hliteral⟩ := passes_iff.mp hpasses
  obtain ⟨v, hv, hliteral⟩ := (Option.any_eq_true _ _).mp hliteral
  rw [Bool.and_eq_true, Option.isNone_iff_eq_none, Option.isNone_iff_eq_none] at hliteral
  exact ⟨t', v, h, hactive, hv, hliteral.1, hliteral.2,
    update_told_once h hactive hv hliteral.1 hliteral.2⟩

end ReactiveVars
