import Mathlib.Logic.Relation
import ReactiveVars.Backend.Handler
import ReactiveVars.Proofs.Variable.Stores
import ReactiveVars.Proofs.Variable.Tallies

/-!
# What the parts of a turn do

Each part of a turn is described once, by the turn it leaves behind: what becomes of the session, of
the application and of the dispatch, and whether the turn goes on. Later files argue from these
descriptions and do not open a part again.

A part that does not depend on the application is described by an equation. One that presents a
value is described once for the case that there is one and once for the case that there is none.
-/

namespace ReactiveVars

open TurnM Relation

variable {σ : Type} {α β : Type}

/-! ## Running a part

A part that is cut short leaves a turn too, so what is said of it is said of `after`, which does not
ask how the part has ended. -/

namespace TurnM

theorem bind_run (x : TurnM σ α) (f : α → TurnM σ β) (t : Turn σ) :
    (x >>= f) t = match x t with
      | .ok a t' => f a t'
      | .error halt t' => .error halt t' := by
  show EStateM.bind x f t = _
  rw [EStateM.bind]
  cases x t <;> rfl

theorem bind_eq_ok_iff {x : TurnM σ α} {f : α → TurnM σ β} {b : β} {t t' : Turn σ} :
    (x >>= f) t = .ok b t' ↔ ∃ a t'', x t = .ok a t'' ∧ f a t'' = .ok b t' := by
  rw [bind_run]
  cases x t <;> simp [and_assoc]

@[simp] theorem pure_run (a : α) (t : Turn σ) : (pure a : TurnM σ α) t = .ok a t := rfl

@[simp] theorem store_run (t : Turn σ) : store t = .ok t.session.store t := rfl

@[simp] theorem tally_run (t : Turn σ) : tally t = .ok t.session.tally t := rfl

@[simp] theorem tracker_run (t : Turn σ) : tracker t = .ok t.session.tracker t := rfl

@[simp] theorem get_run (t : Turn σ) : (get : TurnM σ (Turn σ)) t = .ok t t := rfl

@[simp] theorem modifyStore_run (f : Store → Store) (t : Turn σ) :
    modifyStore f t
      = .ok () { t with session := { t.session with store := f t.session.store } } := rfl

@[simp] theorem modifyTally_run (f : WatchTally → WatchTally) (t : Turn σ) :
    modifyTally f t
      = .ok () { t with session := { t.session with tally := f t.session.tally } } := rfl

@[simp] theorem modifyTracker_run (f : Tracker → Tracker) (t : Turn σ) :
    modifyTracker f t
      = .ok () { t with session := { t.session with tracker := f t.session.tracker } } := rfl

@[simp] theorem refuse_run (e : SyncError) (t : Turn σ) :
    (refuse e : TurnM σ α) t = .error (.refused e) t := rfl

@[simp] theorem orRefuse_ok_run (a : α) (t : Turn σ) :
    (orRefuse (.ok a) : TurnM σ α) t = .ok a t := rfl

theorem orRefuse_eq_ok_iff {r : Except SyncError α} {a : α} {t t' : Turn σ} :
    orRefuse r t = .ok a t' ↔ r = .ok a ∧ t = t' := by
  cases r with
  | ok b => rw [orRefuse_ok_run, EStateM.Result.ok.injEq, Except.ok.injEq]
  | error e => simp [orRefuse]

@[simp] theorem send_run (o : Observer) (m : Message) (t : Turn σ) :
    send o m t = .ok () { t with dispatch := t.dispatch ++ [(o, m)] } := rfl

@[simp] theorem sendAll_run (os : List Observer) (m : Message) (t : Turn σ) :
    sendAll os m t = .ok () { t with dispatch := t.dispatch ++ os.map fun o ↦ (o, m) } := rfl

/-- The turn that a part leaves behind, whether it goes on or not. -/
def after (x : TurnM σ α) (t : Turn σ) : Turn σ :=
  match x t with
  | .ok _ t' => t'
  | .error _ t' => t'

theorem after_of_ok {x : TurnM σ α} {t t' : Turn σ} {a : α} (h : x t = .ok a t') :
    x.after t = t' := by
  rw [after, h]

theorem after_of_error {x : TurnM σ α} {t t' : Turn σ} {halt : Halt} (h : x t = .error halt t') :
    x.after t = t' := by
  rw [after, h]

/-- Whether a part goes on with a result and a turn that pass a test. -/
def passes (x : TurnM σ α) (test : α → Turn σ → Bool) (t : Turn σ) : Bool :=
  match x t with
  | .ok a t' => test a t'
  | .error .. => false

theorem passes_iff {x : TurnM σ α} {test : α → Turn σ → Bool} {t : Turn σ} :
    x.passes test t = true ↔ ∃ a t', x t = .ok a t' ∧ test a t' = true := by
  rw [passes]
  cases x t <;> simp [and_assoc]

theorem after_bind (x : TurnM σ α) (f : α → TurnM σ β) (t : Turn σ) :
    (x >>= f).after t = match x t with
      | .ok a t' => (f a).after t'
      | .error _ t' => t' := by
  rw [after, bind_run]
  cases x t <;> rfl

theorem after_discard (x : TurnM σ α) (b : β) (t : Turn σ) :
    (x >>= fun _ ↦ (pure b : TurnM σ β)).after t = x.after t := by
  rw [after_bind, after]
  cases x t <;> rfl

/-- The session goes by steps through a part and then through what follows it. -/
theorem after_bind_steps {r : SessionState → SessionState → Prop} {x : TurnM σ α}
    {f : α → TurnM σ β} {t : Turn σ} (hx : ReflTransGen r t.session (x.after t).session)
    (hf : ∀ a t', x t = .ok a t' → ReflTransGen r t'.session ((f a).after t').session) :
    ReflTransGen r t.session ((x >>= f).after t).session := by
  rw [after_bind]
  cases h : x t with
  | ok a t' =>
    rw [after_of_ok h] at hx
    exact hx.trans (hf a t' h)
  | error halt t' =>
    rw [after_of_error h] at hx
    exact hx

end TurnM

/-! ## Presenting -/

/-- The store in which a variable with a path keeps the value it presents. -/
def Store.keep (s : Store) (id : VarId) (presented : Json) : Store :=
  s.modify id fun v ↦ if v.path?.isSome then { v with value := presented } else v

theorem Store.get?_keep (s : Store) (id : VarId) (presented : Json) (k : VarId) :
    (s.keep id presented).get? k = if id = k then (s.get? k).map (fun v ↦
      if v.path?.isSome then { v with value := presented } else v) else s.get? k := by
  refine get?_modify s id ?_ k
  intro v
  split <;> rfl

section Application

variable [Application σ] {w : WrapperRegistry} {o : Observer} {id : VarId} {t : Turn σ}

/-- What the presented value of a variable is, and what becomes of the application. -/
def Turn.presented (w : WrapperRegistry) (t : Turn σ) (id : VarId) : Except Halt Json × σ :=
  presentedIn w id t.session.store.entries t.app

theorem presentedValue_of_ok {v : Json} {app : σ} (h : t.presented w id = (.ok v, app)) :
    presentedValue w id t = .ok v { t with app := app } := by
  rw [Turn.presented] at h
  rw [presentedValue, h]

theorem presentedValue_of_error {halt : Halt} {app : σ}
    (h : t.presented w id = (.error halt, app)) :
    presentedValue w id t = .error halt { t with app := app } := by
  rw [Turn.presented] at h
  rw [presentedValue, h]

theorem present_of_ok {v : Json} {app : σ} (h : t.presented w id = (.ok v, app)) :
    present w id t = .ok v { t with
      session := { t.session with store := t.session.store.keep id v }, app := app } := by
  rw [present, bind_run, presentedValue_of_ok h]
  rfl

theorem present_of_error {halt : Halt} {app : σ} (h : t.presented w id = (.error halt, app)) :
    present w id t = .error halt { t with app := app } := by
  rw [present, bind_run, presentedValue_of_error h]

theorem presentedIn_of_findIn_eq_none (w : WrapperRegistry) {vs : List Variable}
    (h : Store.findIn id vs = none) (app : σ) :
    presentedIn w id vs app = (.error (.refused (.unknownVariable id)), app) := by
  induction vs with
  | nil => rfl
  | cons v vs ih =>
    rw [Store.findIn_cons] at h
    split at h
    · exact absurd h (by simp)
    · next hv => rw [presentedIn, if_neg hv, ih h]

/-- Only a variable of the store has a presented value. -/
theorem contains_of_presented {v : Json} {app : σ} (h : t.presented w id = (.ok v, app)) :
    t.session.store.contains id = true := by
  rw [← Bool.not_eq_false, Store.contains_eq_false_iff]
  intro hnone
  rw [Turn.presented, presentedIn_of_findIn_eq_none w hnone] at h
  exact absurd h (by simp)

/-! ## Watching

The observer is counted in first, and only then it is found out whether the variable can be
presented. So a watch that fails leaves its observer behind. -/

/-- The properties that an observer is told with a value. -/
def Store.propertiesOf (s : Store) (id : VarId) : Properties :=
  ((s.get? id).map Variable.properties).getD .empty

/-- The session after an observer has been counted in and the presented value is known: the first
watcher has the variable tracked. -/
def SessionState.watched (s : SessionState) (o : Observer) (id : VarId) (v : Json) : SessionState :=
  if (s.tally.watch id o).1.edge then
    ⟨(s.store.keep id v).setActive id true, (s.tally.watch id o).2, s.tracker.activate id v⟩
  else ⟨s.store.keep id v, (s.tally.watch id o).2, s.tracker⟩

theorem SessionState.propertiesOf_watched (s : SessionState) (o : Observer) (id : VarId)
    (v : Json) (k : VarId) : (s.watched o id v).store.propertiesOf k = s.store.propertiesOf k := by
  have hkeep : (s.store.keep id v).propertiesOf k = s.store.propertiesOf k := by
    rw [Store.propertiesOf, Store.get?_keep, Store.propertiesOf]
    cases hk : s.store.get? k with
    | none => simp
    | some u => by_cases h : id = k <;> by_cases hp : u.path?.isSome = true <;> simp [h, hp]
  rw [watched]
  split
  · rw [← hkeep, Store.propertiesOf, Store.get?_setActive, Store.propertiesOf]
    cases hk : (s.store.keep id v).get? k with
    | none => simp
    | some u => by_cases h : id = k <;> simp [h]
  · exact hkeep

/-- What an observer is sent when it is counted in. -/
def snapshotTo (s : Store) (o : Observer) (id : VarId) (v : Json) (snapshot : Bool) : Dispatch :=
  if snapshot then [(o, .update id (some v) (s.propertiesOf id))] else []

theorem watch_of_ok {v : Json} {app : σ} (h : t.presented w id = (.ok v, app)) (snapshot : Bool) :
    watch w o id snapshot t = .ok () ⟨t.session.watched o id v, app,
      t.dispatch ++ snapshotTo t.session.store o id v snapshot⟩ := by
  have hprops := t.session.propertiesOf_watched o id v id
  have hpresent := present_of_ok (t := { t with
    session := { t.session with tally := (t.session.tally.watch id o).2 } }) h
  rw [Store.propertiesOf, SessionState.watched] at hprops
  simp only [watch, bind_run, tally_run, modifyTally_run, hpresent]
  rw [SessionState.watched, snapshotTo]
  by_cases he : (t.session.tally.watch id o).1.edge = true
  · rw [if_pos he] at hprops ⊢
    cases snapshot <;> simp [bind_run, he, hprops]
  · rw [if_neg he] at hprops ⊢
    cases snapshot <;> simp [bind_run, he, hprops]

theorem watch_of_error {halt : Halt} {app : σ} (h : t.presented w id = (.error halt, app))
    (snapshot : Bool) :
    watch w o id snapshot t = .error halt ⟨{ t.session with
      tally := (t.session.tally.watch id o).2 }, app, t.dispatch⟩ := by
  have hpresent := present_of_error (t := { t with
    session := { t.session with tally := (t.session.tally.watch id o).2 } }) h
  simp only [watch, bind_run, tally_run, modifyTally_run, hpresent]

end Application

/-! ## Ending a watch

Only the last watcher switches the variable off. There is one function for a single watch and one
for all of an observer, and `released` is what they share. -/

section Watching

variable {o : Observer} {id : VarId}

/-- The session after the tracking of a variable has ended. -/
def SessionState.released (s : SessionState) (id : VarId) : SessionState :=
  { s with store := s.store.setActive id false, tracker := s.tracker.deactivate id }

@[simp] theorem SessionState.tally_released (s : SessionState) (id : VarId) :
    (s.released id).tally = s.tally := rfl

theorem release_run (id : VarId) (t : Turn σ) :
    release id t = .ok () { t with session := t.session.released id } := rfl

/-- The session after an observer has been counted out. -/
def SessionState.unwatched (s : SessionState) (o : Observer) (id : VarId) : SessionState :=
  let s' : SessionState := { s with tally := (s.tally.unwatch id o).2 }
  if (s.tally.unwatch id o).1.edge then s'.released id else s'

theorem unwatch_run (o : Observer) (id : VarId) (t : Turn σ) :
    unwatch o id t = .ok () { t with session := t.session.unwatched o id } := by
  simp only [unwatch, bind_run, tally_run, modifyTally_run, SessionState.unwatched]
  by_cases h : (t.session.tally.unwatch id o).1.edge = true
  · rw [if_pos h, if_pos h, release_run]
  · rw [if_neg h, if_neg h, pure_run]

/-- The session after the tracking of several variables has ended. -/
def SessionState.releasedAll (s : SessionState) (ids : List VarId) : SessionState :=
  ids.foldl SessionState.released s

@[simp] theorem SessionState.tally_releasedAll (s : SessionState) (ids : List VarId) :
    (s.releasedAll ids).tally = s.tally := by
  induction ids generalizing s with
  | nil => rfl
  | cons id ids ih => exact ih (s.released id)

theorem releaseAll_run (ids : List VarId) (t : Turn σ) :
    releaseAll ids t = .ok () { t with session := t.session.releasedAll ids } := by
  induction ids generalizing t with
  | nil => rfl
  | cons id ids ih =>
    rw [releaseAll, bind_run, release_run]
    exact ih { t with session := t.session.released id }

/-- The session after an observer has been counted out everywhere. -/
def SessionState.unwatchedAll (s : SessionState) (o : Observer) : SessionState :=
  { s with tally := (s.tally.unwatchAll o).2 }.releasedAll (s.tally.unwatchAll o).1

theorem unwatchAll_run (o : Observer) (t : Turn σ) :
    unwatchAll o t = .ok (t.session.tally.unwatchAll o).1
      { t with session := t.session.unwatchedAll o } := by
  simp only [unwatchAll, bind_run, tally_run, modifyTally_run, releaseAll_run, pure_run]
  rfl

end Watching

/-! ## Destroying

The watchers are read off the tally before they are dropped, since nobody watches the variable
afterwards. -/

/-- The session after a variable and its descendants have been destroyed. -/
def SessionState.destroyed (s : SessionState) (id : VarId) : SessionState :=
  ⟨(s.store.destroy id).2, s.tally.forgetAll (s.store.destroy id).1,
    (s.store.destroy id).1.foldl Tracker.deactivate s.tracker⟩

/-- Who is told of the end of a variable. -/
def farewells (s : SessionState) (requester : Option Observer) (id : VarId) : Dispatch :=
  if s.store.contains id then
    ((s.tally.watchers id).filter fun o ↦ some o ≠ requester).map fun o ↦ (o, .destroy id)
  else []

theorem destroy_run (requester : Option Observer) (id : VarId) (t : Turn σ) :
    destroy requester id t = .ok () { t with
      session := t.session.destroyed id
      dispatch := t.dispatch ++ farewells t.session requester id } := by
  simp only [destroy, bind_run, tally_run, store_run, farewells, SessionState.destroyed]
  cases h : t.session.store.contains id with
  | false =>
    rw [Store.destroy_of_not_contains h]
    simp [WatchTally.forgetAll]
  | true =>
    have hne : (t.session.store.destroy id).1.isEmpty = false := by
      rw [List.isEmpty_eq_false_iff, ne_eq, Store.destroy_fst_eq_nil_iff, h]
      simp
    simp only [hne, Bool.not_false, if_true, bind_run, modifyStore_run, modifyTally_run,
      modifyTracker_run, sendAll_run]
    rfl

end ReactiveVars
