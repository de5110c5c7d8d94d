import Mathlib.Data.List.Basic
import ReactiveVars.Proofs.Backend.Detections
import ReactiveVars.Proofs.Backend.Presentation

/-!
# What a detection reports

Over an object space, where no path calls a method, a detection comes to an end. It presents each
variable in the state in which the detection began, for noting a presented value changes neither the
bare store nor the objects; so what it reports and what is noted can be read off that state.
-/

namespace ReactiveVars

open TurnM

variable {w : WrapperRegistry} {t t' : Turn ObjectSpace} {id k : VarId}

/-- The presented value of a variable, if it can be presented. -/
def Turn.shown? (w : WrapperRegistry) (t : Turn ObjectSpace) (id : VarId) : Option Json :=
  (t.presented w id).1.toOption

theorem Turn.shown?_eq_some_iff {v : Json} :
    t.shown? w id = some v ↔ (t.presented w id).1 = .ok v := by
  rw [shown?]
  rcases (t.presented w id).1 with e | u <;> simp [Except.toOption]

/-- The change that is reported for a variable, if there is one. -/
def Turn.news? (w : WrapperRegistry) (t : Turn ObjectSpace) (id : VarId) : Option Change :=
  (t.shown? w id).bind (t.session.tracker.change? id)

theorem Tracker.change?_eq_some_iff {tr : Tracker} {v : Json} {c : Change} :
    tr.change? id v = some c ↔ tr.cache.get? id ≠ some v.text ∧ c = ⟨id, v⟩ := by
  rw [change?, isNews]
  by_cases h : tr.cache.get? id = some v.text
  · simp [h]
  · simp [h, eq_comm]

theorem Tracker.get?_activate (tr : Tracker) (id : VarId) (v : Json) (k : VarId) :
    (tr.activate id v).cache.get? k = if id = k then some v.text else tr.cache.get? k := by
  rw [activate, KeyMap.get?_insert]

/-- Two turns in which a detection finds the same presented values. -/
structure Turn.Still (t t' : Turn ObjectSpace) : Prop where
  bare : t'.session.store.bare = t.session.store.bare
  tally : t'.session.tally = t.session.tally
  app : t'.app = t.app
  dispatch : t'.dispatch = t.dispatch

theorem Turn.Still.shown? (h : t.Still t') (id : VarId) : t'.shown? w id = t.shown? w id := by
  rw [Turn.shown?, presented_congr h.bare h.app, Turn.shown?]

theorem Turn.Still.trans {t'' : Turn ObjectSpace} (h : t.Still t') (h' : t'.Still t'') :
    t.Still t'' :=
  ⟨h'.bare.trans h.bare, h'.tally.trans h.tally, h'.app.trans h.app,
    h'.dispatch.trans h.dispatch⟩

theorem Store.isMethodFree_eq_bare (s : Store) :
    s.isMethodFree = s.bare.all Variable.isMethodFree := by
  rw [isMethodFree, bare, List.all_map]
  congr 1
  funext v
  rw [Function.comp_apply, Variable.isMethodFree, Variable.isMethodFree, Variable.path?_bare]

theorem Turn.Still.isMethodFree (h : t.Still t') (hfree : t.session.store.isMethodFree = true) :
    t'.session.store.isMethodFree = true := by
  rwa [Store.isMethodFree_eq_bare, h.bare, ← Store.isMethodFree_eq_bare]

theorem examine_run (hfree : t.session.store.isMethodFree = true) (id : VarId) :
    ∃ t', examine w id t = .ok (t.news? w id) t' ∧ t.Still t' ∧
      ∀ k, t'.session.tracker.cache.get? k
        = if id = k then ((t.shown? w k).map Json.text).or (t.session.tracker.cache.get? k)
          else t.session.tracker.cache.get? k := by
  rw [Turn.news?]
  rcases presentedIn_of_methodFree w id hfree t.app with ⟨v, hv⟩ | ⟨e, he⟩
  · have hshown : t.shown? w id = some v := by rw [Turn.shown?_eq_some_iff, Turn.presented, hv]
    rw [hshown, Option.bind_some]
    refine ⟨_, examine_of_ok hv, ⟨Store.bare_keep _ id v, rfl, rfl, rfl⟩, fun k ↦ ?_⟩
    rw [SessionState.noted, Tracker.get?_activate]
    split
    · next hk => rw [← hk, hshown, Option.map_some, Option.some_or]
    · rfl
  · have hshown : t.shown? w id = none := by rw [Turn.shown?, Turn.presented, he]; rfl
    rw [hshown, Option.bind_none]
    refine ⟨_, examine_of_refused he, ⟨rfl, rfl, rfl, rfl⟩, fun k ↦ ?_⟩
    split
    · next hk => rw [← hk, hshown, Option.map_none, Option.none_or]
    · rfl

/-- Examining variables reports the news of each in order, and notes the values they present. -/
theorem examineAll_run {ids : List VarId} (hfree : t.session.store.isMethodFree = true)
    (hnodup : ids.Nodup) :
    ∃ t', examineAll w ids t = .ok (ids.filterMap (t.news? w)) t' ∧ t.Still t' ∧
      ∀ k, t'.session.tracker.cache.get? k
        = if k ∈ ids then ((t.shown? w k).map Json.text).or (t.session.tracker.cache.get? k)
          else t.session.tracker.cache.get? k := by
  induction ids generalizing t with
  | nil => exact ⟨t, rfl, ⟨rfl, rfl, rfl, rfl⟩, fun k ↦ by simp⟩
  | cons id ids ih =>
    obtain ⟨hid, hnodup⟩ := List.nodup_cons.mp hnodup
    obtain ⟨t₁, hrun, hstill, hcache⟩ := examine_run (w := w) hfree id
    obtain ⟨t₂, hrun', hstill', hcache'⟩ := ih (hstill.isMethodFree hfree) hnodup
    -- examining the first variable makes no difference to what is news about the others
    have hnews : ids.filterMap (t₁.news? w) = ids.filterMap (t.news? w) := by
      refine List.filterMap_congr fun k hk ↦ ?_
      have hne : ¬ id = k := by
        rintro rfl
        exact hid hk
      have hsame := hcache k
      rw [if_neg hne] at hsame
      rw [Turn.news?, hstill.shown?, Turn.news?]
      refine Option.bind_congr fun v _ ↦ ?_
      rw [Tracker.change?, Tracker.isNews, hsame, Tracker.change?, Tracker.isNews]
    refine ⟨t₂, ?_, hstill.trans hstill', fun k ↦ ?_⟩
    · rw [examineAll_cons_run, hrun]
      simp only [hrun', hnews, List.filterMap_cons]
      cases t.news? w id <;> rfl
    · rw [hcache', hcache, hstill.shown?]
      by_cases hk : id = k
      · subst hk
        simp [hid]
      · simp [hk, Ne.symm hk]

/-- **A detection reports the news about the tracked variables, tells them, and notes what these
variables present.** -/
theorem detectChanges_run_of_methodFree (hfree : t.session.store.isMethodFree = true) :
    ∃ t', detectChanges w t = .ok (t.session.examined.filterMap (t.news? w)).length t' ∧
      t'.session.store.bare = t.session.store.bare ∧ t'.session.tally = t.session.tally ∧
      t'.app = t.app ∧ t'.dispatch = t.dispatch ++
        tidings t.session.tally (t.session.examined.filterMap (t.news? w)) ∧
      ∀ k, t'.session.tracker.cache.get? k = if k ∈ t.session.examined then
        ((t.shown? w k).map Json.text).or (t.session.tracker.cache.get? k)
          else t.session.tracker.cache.get? k := by
  obtain ⟨t', hrun, hstill, hcache⟩ := examineAll_run (w := w) hfree (nodup_examined t.session)
  have hdetect := detectChanges_run w t
  simp only [hrun] at hdetect
  refine ⟨_, hdetect, hstill.bare, hstill.tally, hstill.app, ?_, hcache⟩
  rw [hstill.dispatch, hstill.tally]

end ReactiveVars
