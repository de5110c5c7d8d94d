import ReactiveVars.Proofs.Backend.Settling
import ReactiveVars.Proofs.Variable.Numbers

/-!
# Operations are edits of the store

What an operation does to the variables of a session is a sequence of edits: numbers are given out,
variables are inserted, updated, destroyed and switched, and nothing else happens, except that a
variable with a path keeps the value it presents. This tells more about the numbers than the moves
of a session do, for a move may go on to any number.

## Main statement

* `Turn.Attainable.ahead`: the numbers of an attainable session are ahead of all it has used.
-/

namespace ReactiveVars

open TurnM Relation

/-! ## Steps of a store

Touching a variable uses no number. To switch it is an edit; to keep the value that it presents is
none, and so it is a step of its own. -/

/-- A step by which a variable is switched on or off, or keeps the value it presents. -/
inductive Store.Touch (s : Store) : Store → Prop
  | setActive (id : VarId) (active : Bool) : Touch s (s.setActive id active)
  | keep (id : VarId) (v : Json) : Touch s (s.keep id v)

/-- A step of a store in a turn. -/
inductive Store.Step (s : Store) : Store → Prop
  | edit (e : Store.Edit) : Step s (e.after s)
  | keep (id : VarId) (v : Json) : Step s (s.keep id v)

private theorem Store.Touch.step {s s' : Store} (h : s.Touch s') : s.Step s' := by
  rcases h with ⟨id, active⟩ | ⟨id, v⟩
  · exact .edit (.setActive id active)
  · exact .keep id v

namespace SessionState

variable {s s' s'' : SessionState} {id : VarId}

/-! ### Watching and detecting -/

/-- Whether the variables of a session are only touched on the way to another. -/
def Touches (s s' : SessionState) : Prop := ReflTransGen Store.Touch s.store s'.store

theorem Touches.trans (h : s.Touches s') (h' : s'.Touches s'') : s.Touches s'' :=
  ReflTransGen.trans h h'

/-- Steps of a session that only touch its variables. -/
theorem touches_of_steps {r : SessionState → SessionState → Prop}
    (hr : ∀ {s s'}, r s s' → s.Touches s') (h : ReflTransGen r s s') : s.Touches s' := by
  induction h with
  | refl => exact .refl
  | tail _ hstep ih => exact ih.trans (hr hstep)

theorem watched_touches (s : SessionState) (o : Observer) (id : VarId) (v : Json) :
    s.Touches (s.watched o id v) := by
  rw [watched]
  split
  · exact .head (.keep id v) (.single (.setActive id true))
  · exact .single (.keep id v)

theorem show_touches (h : ShowStep id s s') : s.Touches s' := by
  rcases h with v | o | ⟨o, v⟩
  · exact .single (.keep id v)
  · exact .refl
  · exact s.watched_touches o id v

theorem note_touches (h : NoteStep s s') : s.Touches s' := by
  obtain ⟨id, v, -⟩ := h
  exact .single (.keep id v)

theorem released_touches (s : SessionState) (id : VarId) : s.Touches (s.released id) :=
  .single (.setActive id false)

theorem releasedAll_touches (s : SessionState) (ids : List VarId) :
    s.Touches (s.releasedAll ids) := by
  induction ids generalizing s with
  | nil => exact .refl
  | cons id ids ih => exact (s.released_touches id).trans (ih (s.released id))

theorem unwatched_touches (s : SessionState) (o : Observer) (id : VarId) :
    s.Touches (s.unwatched o id) := by
  rw [unwatched]
  split
  · exact released_touches { s with tally := (s.tally.unwatch id o).2 } id
  · exact .refl

theorem unwatchedAll_touches (s : SessionState) (o : Observer) : s.Touches (s.unwatchedAll o) :=
  releasedAll_touches { s with tally := (s.tally.unwatchAll o).2 } _

/-! ### Edits

An insertion of a session is made in two steps, since the number is given out before the checks. -/

/-- Whether the store of a session becomes that of another by steps. -/
def StoreSteps (s s' : SessionState) : Prop := ReflTransGen Store.Step s.store s'.store

theorem StoreSteps.trans (h : s.StoreSteps s') (h' : s'.StoreSteps s'') :
    s.StoreSteps s'' :=
  ReflTransGen.trans h h'

theorem Touches.storeSteps (h : s.Touches s') : s.StoreSteps s' :=
  ReflTransGen.mono (fun _ _ ↦ Store.Touch.step) _ _ h

private theorem modify_step {s : Store} (h : s.contains id = true) (value : Option Json)
    (ps : Properties) : s.Step (s.modify id fun v ↦ v.update value ps) := by
  have hstep := Store.Step.edit (s := s) (.update id value ps)
  rwa [Store.Edit.after, Store.update_eq_ok_iff.mpr ⟨h, rfl⟩] at hstep

theorem spent_storeSteps (s : SessionState) (request : CreateRequest) :
    s.StoreSteps (s.spent request) := by
  rw [StoreSteps, spent, CreateRequest.chosen]
  rcases request.id with _ | id
  · exact .single (.edit .vend)
  · exact .refl

/-- A variable is registered under a number that is given out first if none is asked for. -/
theorem registered_storeSteps {request : CreateRequest} {value : Json} {ps : Properties}
    (check : (request.chosen s.store).2.checkNew (request.chosen s.store).1 request.parent
      = .ok ()) : s.StoreSteps (s.registered request value ps) := by
  have hinsert := Store.Step.edit (s := (s.spent request).store) (.insert
    ⟨some (request.chosen s.store).1, request.parent, value, ps, request.unbound⟩)
  have hok : (s.spent request).store.insertAs (request.chosen s.store).1
      ⟨some (request.chosen s.store).1, request.parent, value, ps, request.unbound⟩ = .ok _ :=
    Store.insertAs_eq_ok_iff.mpr ⟨check, rfl⟩
  rw [Store.Edit.after, Store.insert] at hinsert
  simp only [hok] at hinsert
  rw [spent, request.entries_chosen] at hinsert
  exact (s.spent_storeSteps request).tail hinsert

end SessionState

/-! ## Steps of an operation

The steps of the parts are put together as the parts are. -/

section Operations

variable {σ : Type} [Application σ] {w : WrapperRegistry}

theorem create_storeSteps (w : WrapperRegistry) (creator : Option Observer)
    (request : CreateRequest) (t : Turn σ) :
    t.session.StoreSteps ((create w creator request).after t).session := by
  by_cases hpass : request.Passes t
  · obtain ⟨value, ps, -, hshow⟩ := create_shows w creator hpass
    exact (SessionState.registered_storeSteps hpass.1).trans
      (SessionState.touches_of_steps SessionState.show_touches hshow).storeSteps
  · obtain ⟨halt, app, hrun⟩ := create_of_not_passes w creator hpass
    rw [after_of_error hrun]
    exact t.session.spent_storeSteps request

theorem update_storeSteps (w : WrapperRegistry) (o : Observer) (id : VarId)
    (value : Option Json) (ps : Properties) (t : Turn σ) :
    t.session.StoreSteps ((update w o id value ps).after t).session := by
  obtain ⟨v, t', hv, hwritten, hrun⟩ | ⟨halt, app, hrun⟩ := update_cases w o id value ps t
  · rw [after_of_ok hrun]
    have hc : t.session.store.contains id = true := Store.contains_iff.mpr ⟨v, hv⟩
    rcases hwritten with app | ⟨app, u, value', found, -⟩
    · exact .single (SessionState.modify_step hc _ ps)
    · -- the value of the parent is set as if by an update of it
      have hparent := SessionState.modify_step (Store.contains_iff.mpr ⟨u, found⟩) (some value')
        .empty
      have hc' : (t.session.store.modify v.parent fun u ↦
          u.update (some value') .empty).contains id = true := by
        rw [Store.contains_modify _ _ fun _ ↦ by rfl]
        exact hc
      exact .head hparent (.single (SessionState.modify_step hc' _ ps))
  · rw [after_of_error hrun]
    exact .refl

theorem obey_storeSteps (w : WrapperRegistry) (o : Observer) (m : Message) (t : Turn σ) :
    t.session.StoreSteps ((obey w o m).after t).session := by
  rcases m with ⟨parent, value, ps, id, noWatch, unbound⟩ | ⟨id, value, ps⟩ | id | id | id | _
  · rw [obey, after_discard]
    exact create_storeSteps w (some o) _ t
  · exact update_storeSteps w o id value ps t
  · by_cases hc : t.session.store.contains id = true
    · rw [after, obey_watch, if_pos hc, ← after]
      exact (SessionState.show_touches (watch_shows w o id true t)).storeSteps
    · rw [after, obey_watch, if_neg hc]
      exact .refl
  · rw [obey, after_of_ok (unwatch_run o id t)]
    exact (t.session.unwatched_touches o id).storeSteps
  · rw [obey, after_of_ok (destroy_run (some o) id t)]
    exact .single (.edit (.destroy id))
  · exact .refl

/-- **What an operation does to the store is a sequence of edits**, also if it is cut short. -/
theorem Operation.storeSteps (w : WrapperRegistry) (op : Operation σ) (t : Turn σ) :
    t.session.StoreSteps ((op.part w).after t).session := by
  rcases op with ⟨o, m⟩ | ⟨creator, request⟩ | ⟨requester, id⟩ | o | _ | f
  · rw [part, session_handle]
    exact obey_storeSteps w o m t
  · rw [part, after_discard]
    exact create_storeSteps w creator request t
  · rw [part, after_of_ok (destroy_run requester id t)]
    exact .single (.edit (.destroy id))
  · rw [part, after_discard, after_of_ok (unwatchAll_run o t)]
    exact (t.session.unwatchedAll_touches o).storeSteps
  · rw [part, after_discard]
    exact (SessionState.touches_of_steps SessionState.note_touches
      (detectChanges_steps w t)).storeSteps
  · exact .refl

/-! ## Numbers stay ahead -/

theorem Store.Ahead.step {s s' : Store} {start : IdSource} {used : List NumberUse}
    (h : s.Ahead start used) (hstep : s.Step s') : ∃ used', s'.Ahead start used' := by
  rcases hstep with e | ⟨id, v⟩
  · exact ⟨_, h.after e⟩
  · refine ⟨used, h.still rfl fun k hk ↦ ?_⟩
    rwa [Store.keep, Store.contains_modify] at hk
    intro u
    split <;> rfl

theorem Store.Ahead.steps {s s' : Store} {start : IdSource} {used : List NumberUse}
    (h : s.Ahead start used) (hsteps : ReflTransGen Store.Step s s') :
    ∃ used', s'.Ahead start used' := by
  induction hsteps with
  | refl => exact ⟨used, h⟩
  | tail _ hstep ih =>
    obtain ⟨used', hused'⟩ := ih
    exact hused'.step hstep

/-- **The numbers of an attainable session are ahead of all it has used.** -/
theorem Turn.Attainable.ahead {t : Turn σ} (h : t.Attainable w) :
    ∃ used, t.session.store.Ahead .backend used := by
  induction h with
  | fresh root app =>
    exact ⟨_, (Store.ahead_withIds IdSource.inRange_backend).after
      (.insert ⟨some rootId, noParent, root, .empty, false⟩)⟩
  | @step t _ op ih =>
    obtain ⟨used, hused⟩ := ih
    exact hused.steps (op.storeSteps w t)
  | @setValue t _ id value store hstore ih =>
    obtain ⟨used, hused⟩ := ih
    obtain ⟨hc, rfl⟩ := Store.update_eq_ok_iff.mp hstore
    exact hused.step (SessionState.modify_step hc (some value) .empty)
  | deliver _ ih => exact ih

end Operations

end ReactiveVars
