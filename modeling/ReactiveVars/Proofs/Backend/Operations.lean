import ReactiveVars.Application.ContactBook
import ReactiveVars.Proofs.Backend.Creations
import ReactiveVars.Proofs.Backend.Detections
import ReactiveVars.Proofs.Backend.Updates
import ReactiveVars.Session.Basic

/-!
# Operations and the moves they are made of

A backend is run by operations in any order: messages of observers, creates and destroys on
anybody's account, disconnections, detections, and changes that the application undergoes by itself.
An operation that is cut short leaves what it has done so far.

Whatever an operation does to the session is a sequence of *moves*, each of which changes all parts
of the session that belong together. What every move keeps is kept by every run, however its
operations end; this is how invariants are proved.
-/

namespace ReactiveVars

open TurnM Relation

variable {σ : Type}

/-! ## Operations

A session runs by operations alone, and each starts with nothing to send. So what an operation has
sent can be read off the turn that it leaves. -/

/-- Something that is done with a backend. -/
inductive Operation (σ : Type) where
  | handle (o : Observer) (m : Message)
  | create (creator : Option Observer) (request : CreateRequest)
  | destroy (requester : Option Observer) (id : VarId)
  | unwatchAll (o : Observer)
  | detectChanges
  /-- The application changes by itself. -/
  | outside (f : σ → σ)

/-- The root variable of a new session. -/
def Variable.root (value : Json) : Variable :=
  ⟨rootId, noParent, value, Properties.apply .empty .empty, false, false⟩

theorem SessionState.entries_withRoot (root : Json) :
    (SessionState.withRoot root).store.entries = [.root root] := rfl

/-- The turn that a session starts with. -/
def Turn.fresh (root : Json) (app : σ) : Turn σ := ⟨.withRoot root, app, []⟩

/-- A new session over the contact book. -/
def ContactBook.turn : Turn ObjectSpace := .fresh (Application.rootValue space) space

section Running

variable [Application σ] {w : WrapperRegistry} {t : Turn σ}

/-- The part of a turn that an operation is. -/
def Operation.part (w : WrapperRegistry) : Operation σ → TurnM σ Unit
  | .handle o m => ReactiveVars.handle w o m
  | .create creator request => do let _ ← ReactiveVars.create w creator request
  | .destroy requester id => ReactiveVars.destroy requester id
  | .unwatchAll o => do let _ ← ReactiveVars.unwatchAll o
  | .detectChanges => do let _ ← ReactiveVars.detectChanges w
  | .outside f => modify fun t ↦ { t with app := f t.app }

/-- What operations in order leave behind. -/
def Turn.run (w : WrapperRegistry) (t : Turn σ) (ops : List (Operation σ)) : Turn σ :=
  ops.foldl (fun t op ↦ (op.part w).after t) t

/-- The turns that some operations lead to from the root variable alone. -/
inductive Turn.Reachable (w : WrapperRegistry) : Turn σ → Prop
  | fresh (root : Json) (app : σ) : Reachable w (Turn.fresh root app)
  | step {t : Turn σ} (h : Reachable w t) (op : Operation σ) : Reachable w ((op.part w).after t)

theorem Turn.Reachable.run (h : t.Reachable w) (ops : List (Operation σ)) :
    (t.run w ops).Reachable w := by
  induction ops generalizing t with
  | nil => exact h
  | cons op ops ih => exact ih (h.step op)

end Running

/-! ## Moves

The moves are fewer than the parts of the operations: what shows a variable is one move, whether it
is a watch, an answer or an announcement. An invariant is proved once for each move. -/

/-- A move changes all parts of a session that belong together. -/
inductive Move (s : SessionState) : SessionState → Prop
  /-- A number is given out. -/
  | spend (ids : IdSource) : Move s { s with store := { s.store with ids := ids } }
  | register (request : CreateRequest) (value : Json) (ps : Properties)
    (check : (request.chosen s.store).2.checkNew (request.chosen s.store).1 request.parent = .ok ())
    (params : withPathParams (request.chosen s.store).1 request.properties = .ok ps) :
    Move s (s.registered request value ps)
  | show (id : VarId) (found : s.store.contains id = true) {s' : SessionState}
    (step : ShowStep id s s') : Move s s'
  | assign (parent : Variable) (value : Json) (found : s.store.get? parent.id = some parent)
    (literal : parent.path? = none) : Move s (s.assigned parent.id value)
  | update (id : VarId) (value : Option Json) (ps : Properties)
    (found : s.store.contains id = true) : Move s (s.updated id value ps)
  | unwatch (o : Observer) (id : VarId) : Move s (s.unwatched o id)
  | unwatchAll (o : Observer) : Move s (s.unwatchedAll o)
  | destroy (id : VarId) : Move s (s.destroyed id)
  | note {s' : SessionState} (step : NoteStep s s') : Move s s'

theorem ShowStep.contains {id : VarId} {s s' : SessionState} (h : ShowStep id s s') (k : VarId) :
    s'.store.contains k = s.store.contains k := by
  have hkeep (v : Json) : (s.store.keep id v).contains k = s.store.contains k := by
    refine Store.contains_modify _ _ (fun u ↦ ?_) k
    split <;> rfl
  cases h with
  | keep v => exact hkeep v
  | count o => rfl
  | watch o v =>
    rw [SessionState.watched]
    split
    · exact (Store.contains_setActive _ id true k).trans (hkeep v)
    · exact hkeep v

theorem contains_of_showSteps {id : VarId} {s s' : SessionState}
    (h : ReflTransGen (ShowStep id) s s') (k : VarId) :
    s'.store.contains k = s.store.contains k := by
  induction h with
  | refl => rfl
  | tail _ hstep ih => rw [hstep.contains, ih]

theorem moves_of_showSteps {id : VarId} {s s' : SessionState}
    (h : ReflTransGen (ShowStep id) s s') (found : s.store.contains id = true) :
    ReflTransGen Move s s' := by
  induction h with
  | refl => exact .refl
  | tail hsteps hstep ih =>
    refine ih.tail (.show id ?_ hstep)
    rw [contains_of_showSteps hsteps, found]

/-! ## Operations are made of moves -/

section Moves

variable [Application σ] {w : WrapperRegistry} {o : Observer} {id : VarId} {t : Turn σ}

omit [Application σ] in
theorem spend_moves (request : CreateRequest) (t : Turn σ) :
    Move t.session (t.session.spent request) := by
  have h : t.session.spent request = { t.session with
      store := { t.session.store with ids := (request.chosen t.session.store).2.ids } } := by
    rw [SessionState.spent, CreateRequest.chosen]
    cases request.id <;> rfl
  rw [h]
  exact .spend _

theorem create_moves (w : WrapperRegistry) (creator : Option Observer) (request : CreateRequest)
    (t : Turn σ) : ReflTransGen Move t.session ((create w creator request).after t).session := by
  by_cases hpass : request.Passes t
  · obtain ⟨value, ps, hps, hshow⟩ := create_shows w creator hpass
    refine .head (.register request value ps hpass.1 hps) (moves_of_showSteps hshow ?_)
    rw [SessionState.contains_registered, decide_eq_true rfl, Bool.true_or]
  · obtain ⟨halt, app, hrun⟩ := create_of_not_passes w creator hpass
    rw [after_of_error hrun]
    exact .single (spend_moves request t)

theorem update_moves (w : WrapperRegistry) (o : Observer) (id : VarId) (value : Option Json)
    (ps : Properties) (t : Turn σ) :
    ReflTransGen Move t.session ((update w o id value ps).after t).session := by
  cases hv : t.session.store.get? id with
  | none => rw [after_of_error (update_of_unknown hv value ps)]
  | some v =>
    have hc : t.session.store.contains id = true := Store.contains_iff.mpr ⟨v, hv⟩
    cases he : effectiveValue t.session.store id value with
    | none =>
      rw [after_of_ok (update_of_none hv he ps)]
      exact .single (.update id none ps hc)
    | some new =>
      obtain ⟨t', hw, hrun⟩ | ⟨halt, app, hrun⟩ := update_of_some (w := w) (o := o) hv he ps
      · rw [after_of_ok hrun]
        cases hw with
        | application app => exact .single (.update id (some new) ps hc)
        | parent app u value' found literal =>
          have hu := Store.id_of_get? found
          have hassign : Move t.session (t.session.assigned v.parent value') := by
            rw [← hu]
            exact .assign u value' (by rw [hu, found]) literal
          -- the parent has changed its value, and the variable is still there
          refine .head hassign (.single (.update id (some new) ps ?_))
          rw [SessionState.assigned, Store.contains_modify _ _ (fun _ ↦ by rfl), hc]
      · rw [after_of_error hrun]

theorem obey_update (w : WrapperRegistry) (o : Observer) (id : VarId) (value : Option Json)
    (ps : Properties) : (obey w o (.update id value ps) : TurnM σ Unit) = update w o id value ps :=
  rfl

theorem obey_watch (w : WrapperRegistry) (o : Observer) (id : VarId) (t : Turn σ) :
    obey w o (.watch id) t = if t.session.store.contains id = true then watch w o id true t
      else .error (.refused (.unknownVariable id)) t := by
  rw [obey, bind_run, store_run]
  by_cases hc : t.session.store.contains id = true
  · simp only [hc, if_true]
  · simp only [hc, Bool.false_eq_true, if_false, refuse_run]

theorem obey_moves (w : WrapperRegistry) (o : Observer) (m : Message) (t : Turn σ) :
    ReflTransGen Move t.session ((obey w o m).after t).session := by
  cases m with
  | create parent value ps id noWatch unbound =>
    rw [obey, after_discard]
    exact create_moves w (some o) _ t
  | update id value ps => exact update_moves w o id value ps t
  | watch id =>
    by_cases hc : t.session.store.contains id = true
    · rw [after, obey_watch, if_pos hc, ← after]
      exact .single (.show id hc (watch_shows w o id true t))
    · rw [after, obey_watch, if_neg hc]
  | unwatch id =>
    rw [obey, after_of_ok (unwatch_run o id t)]
    exact .single (.unwatch o id)
  | destroy id =>
    rw [obey, after_of_ok (destroy_run (some o) id t)]
    exact .single (.destroy id)
  | error => exact .refl

/-- A message is answered with its error if it is refused. -/
theorem handle_run (w : WrapperRegistry) (o : Observer) (m : Message) (t : Turn σ) :
    handle w o m t = match obey w o m t with
      | .ok () t' => .ok () t'
      | .error (.refused e) t' => .ok () { t' with dispatch := t'.dispatch ++ [(o, e.message)] }
      | .error .crashed t' => .error .crashed t' := by
  simp only [handle, bind_run, attempt]
  rcases obey w o m t with ⟨⟨⟩, t'⟩ | ⟨_ | _, t'⟩ <;> rfl

theorem session_handle (w : WrapperRegistry) (o : Observer) (m : Message) (t : Turn σ) :
    ((handle w o m).after t).session = ((obey w o m).after t).session := by
  rw [after, handle_run, after]
  rcases obey w o m t with ⟨⟨⟩, t'⟩ | ⟨_ | _, t'⟩ <;> rfl

/-- Handling a message sends what obeying it sends, and its error if it is refused. -/
theorem dispatch_handle_cases (w : WrapperRegistry) (o : Observer) (m : Message) (t : Turn σ) :
    ((handle w o m).after t).dispatch = ((obey w o m).after t).dispatch ∨
    ∃ e t', obey w o m t = .error (.refused e) t' ∧
      ((handle w o m).after t).dispatch = ((obey w o m).after t).dispatch ++ [(o, e.message)] := by
  rw [after, handle_run, after]
  rcases obey w o m t with ⟨⟨⟩, t'⟩ | ⟨e | _, t'⟩
  · exact .inl rfl
  · exact .inr ⟨e, t', rfl, rfl⟩
  · exact .inl rfl

/-- **What an operation does to the session is a sequence of moves**, also if it is cut short. -/
theorem Operation.moves (w : WrapperRegistry) (op : Operation σ) (t : Turn σ) :
    ReflTransGen Move t.session ((op.part w).after t).session := by
  cases op with
  | handle o m =>
    rw [part, session_handle]
    exact obey_moves w o m t
  | create creator request =>
    rw [part, after_discard]
    exact create_moves w creator request t
  | destroy requester id =>
    rw [part, after_of_ok (destroy_run requester id t)]
    exact .single (.destroy id)
  | unwatchAll o =>
    rw [part, after_discard, after_of_ok (unwatchAll_run o t)]
    exact .single (.unwatchAll o)
  | detectChanges =>
    rw [part, after_discard]
    exact (detectChanges_steps w t).lift id fun _ _ h ↦ .note h
  | outside f => exact .refl

theorem run_of_handleAll {ms : List Message} {t' : Turn σ} (h : handleAll w o ms t = .ok () t') :
    t.run w (ms.map (.handle o)) = t' := by
  induction ms generalizing t with
  | nil => exact (EStateM.Result.ok.inj h).2
  | cons m ms ih =>
    rw [handleAll, bind_run] at h
    rcases hm : handle w o m t with ⟨⟨⟩, t''⟩ | ⟨halt, t''⟩
    · rw [hm] at h
      rw [List.map_cons, Turn.run, List.foldl_cons, Operation.part, after_of_ok hm]
      exact ih h
    · rw [hm] at h
      exact absurd h (by simp)

theorem Turn.run_append (t : Turn σ) (ops ops' : List (Operation σ)) :
    t.run w (ops ++ ops') = (t.run w ops).run w ops' := List.foldl_append ..

/-- **A batch is a run that ends with a detection.** -/
theorem run_of_receiveBatch {b : Batch} {n : Nat} {t' : Turn σ}
    (h : receiveBatch w o b t = .ok n t') :
    t.run w (b.ordered.map (.handle o) ++ [.detectChanges]) = t' := by
  rw [receiveBatch, bind_run] at h
  rcases hms : handleAll w o b.ordered t with ⟨⟨⟩, t''⟩ | ⟨halt, t''⟩
  · rw [hms] at h
    rw [Turn.run_append, run_of_handleAll hms, Turn.run, List.foldl_cons, List.foldl_nil,
      Operation.part, after_discard, after_of_ok h]
  · rw [hms] at h
    exact absurd h (by simp)

/-- What holds at the start and is kept by every move holds of every reachable session. -/
theorem Turn.Reachable.induct {P : SessionState → Prop} (hstart : ∀ root, P (.withRoot root))
    (hmove : ∀ {s s'}, Move s s' → P s → P s') (h : t.Reachable w) : P t.session := by
  induction h with
  | fresh root app => exact hstart root
  | step _ op ih =>
    have hmoves := op.moves w (σ := σ)
    exact ReflTransGen.head_induction_on (hmoves _) id (fun hm _ f hp ↦ f (hmove hm hp)) ih

end Moves

end ReactiveVars
