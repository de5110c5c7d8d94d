import ReactiveVars.Proofs.Backend.Parts

/-!
# What an update does

An update passes its value on to where a path leads, stores it, takes note of it and relays it. The
write is the only part that can be cut short, and it comes first, so an update that is refused
leaves the session as it was.
-/

namespace ReactiveVars

open TurnM

variable {σ : Type} [Application σ] {w : WrapperRegistry} {o : Observer} {id : VarId} {t : Turn σ}

/-! ## Writing through a path

A value is written into an object of the application, or into the value that the parent holds.
`WrittenTo` is what either leaves of a session. -/

theorem parentValue_run (w : WrapperRegistry) (parent : VarId) (t : Turn σ) :
    ∃ app, (∃ v, parentValue w parent t = .ok v { t with app := app }) ∨
      ∃ halt, parentValue w parent t = .error halt { t with app := app } := by
  rw [parentValue, bind_run, store_run]
  by_cases hc : t.session.store.contains parent = true
  · simp only [hc, if_true]
    rcases h : t.presented w parent with ⟨halt | v, app⟩
    · exact ⟨app, .inr ⟨halt, presentedValue_of_error h⟩⟩
    · exact ⟨app, .inl ⟨v, presentedValue_of_ok h⟩⟩
  · simp only [hc, Bool.false_eq_true, if_false]
    exact ⟨t.app, .inl ⟨Application.rootValue t.app, rfl⟩⟩

omit [Application σ] in
/-- Asking the application changes nothing but the application. -/
theorem ask_run (request : σ → Reply α × σ) (t : Turn σ) :
    ∃ app, (∃ r, ask request t = .ok r { t with app := app }) ∨
      ask request t = .error .crashed { t with app := app } := by
  rw [ask]
  rcases request t.app with ⟨a | reason | _, app⟩
  · exact ⟨app, .inl ⟨.ok a, rfl⟩⟩
  · exact ⟨app, .inl ⟨.error reason, rfl⟩⟩
  · exact ⟨app, .inr rfl⟩

/-- The session after a value has been written into the value of a parent. -/
def SessionState.assigned (s : SessionState) (parent : VarId) (value : Json) : SessionState :=
  { s with store := s.store.modify parent fun u ↦ { u with value := value } }

/-- What a write leaves behind: it happens in the application, or in the value of a parent that has
no path. -/
inductive WrittenTo (v : Variable) (t : Turn σ) : Turn σ → Prop
  | application (app : σ) : WrittenTo v t { t with app := app }
  | parent (app : σ) (parent : Variable) (value : Json)
    (found : t.session.store.get? v.parent = some parent) (literal : parent.path? = none) :
    WrittenTo v t { t with session := t.session.assigned v.parent value, app := app }

omit [Application σ] in
private theorem contains_of_writtenTo {v : Variable} {t' : Turn σ} (h : WrittenTo v t t')
    (k : VarId) : t'.session.store.contains k = t.session.store.contains k := by
  rcases h with app | ⟨app, u, value, found, literal⟩
  · rfl
  · exact Store.contains_modify _ _ (fun _ ↦ by rfl) k

/-- Whether a part writes the value of a variable to where it belongs, or is cut short and has
changed nothing but the application. -/
def WritesTo (v : Variable) (x : TurnM σ Unit) (t : Turn σ) : Prop :=
  (∃ t', x t = .ok () t' ∧ WrittenTo v t t') ∨ ∃ halt app, x t = .error halt { t with app := app }

theorem writeThrough_writes {v : Variable} (hv : t.session.store.get? id = some v) (value : Json) :
    WritesTo v (writeThrough w id value) t := by
  rw [WritesTo, writeThrough, bind_run, store_run]
  simp only [hv]
  cases v.path? with
  | none => exact .inl ⟨t, rfl, .application t.app⟩
  | some raw =>
    simp only
    cases Path.parse raw with
    | error e => exact .inr ⟨_, t.app, rfl⟩
    | ok path =>
      simp only [bind_run]
      obtain ⟨app, ⟨base, hbase⟩ | ⟨halt, hhalt⟩⟩ := parentValue_run w v.parent t
      · simp only [hbase]
        cases ObjectRef.ofJson? base with
        | some r =>
          -- the path starts at an object of the application
          simp only [bind_run]
          obtain ⟨app', ⟨reply, hreply⟩ | hcrash⟩ := ask_run
            (fun app ↦ Application.write app r path.segments value) { t with app := app }
          · simp only [hreply]
            cases reply with
            | ok _ => exact .inl ⟨_, rfl, .application app'⟩
            | error reason => exact .inr ⟨_, app', rfl⟩
          · exact .inr ⟨_, app', by rw [hcrash]⟩
        | none =>
          -- the path starts in the value of the parent, which must be its own then
          simp only [bind_run, store_run]
          cases hp : t.session.store.get? v.parent with
          | none => exact .inr ⟨_, app, rfl⟩
          | some parent =>
            simp only
            cases hpath : parent.path? with
            | some _ => exact .inr ⟨_, app, rfl⟩
            | none =>
              simp only [Option.isSome_none, Bool.false_eq_true, if_false]
              cases Document.assign parent.value path.segments value with
              | ok value' => exact .inl ⟨_, rfl, .parent app parent value' hp hpath⟩
              | error e => exact .inr ⟨_, app, rfl⟩
      · exact .inr ⟨halt, app, by rw [hhalt]⟩

/-! ## Storing and relaying

There are four equations for an update, by what becomes of it: there is no such variable, there is
no value that counts, the write is cut short, or it passes. -/

/-- A value counts unless the variable is suspended. -/
theorem effectiveValue_eq_some_iff {s : Store} {value : Option Json} {new : Json} :
    effectiveValue s id value = some new ↔ s.isSuspended id = false ∧ value = some new := by
  rw [effectiveValue, Option.ite_none_left_eq_some, Bool.not_eq_true]

/-- What the other watchers of a variable are sent when it is updated. -/
def relays (s : SessionState) (o : Observer) (id : VarId) (value : Option Json) (ps : Properties) :
    Dispatch :=
  if value.isSome || !ps.isEmpty then
    ((s.tally.watchers id).filter (· ≠ o)).map fun other ↦ (other, .update id value ps)
  else []

/-- The session after an update has been stored. -/
def SessionState.updated (s : SessionState) (id : VarId) (value : Option Json) (ps : Properties) :
    SessionState :=
  { s with
    store := s.store.modify id fun v ↦ v.update value ps
    tracker := (value.map (s.tracker.remember id)).getD s.tracker }

theorem update_of_unknown (h : t.session.store.get? id = none) (value : Option Json)
    (ps : Properties) :
    update w o id value ps t = .error (.refused (.unknownVariable id)) t := by
  simp only [update, bind_run, store_run, h, refuse_run]

omit [Application σ] in
theorem storeUpdate_run (h : t.session.store.contains id = true) (value : Option Json)
    (ps : Properties) :
    storeUpdate id value ps t = .ok () { t with session := { t.session with
      store := t.session.store.modify id fun v ↦ v.update value ps } } := by
  simp only [storeUpdate, bind_run, store_run,
    Store.update_eq_ok_iff.mpr ⟨h, rfl⟩, orRefuse_ok_run, modifyStore_run]

/-- An update without a value that counts. -/
theorem update_of_none {v : Variable} {value : Option Json}
    (hv : t.session.store.get? id = some v)
    (he : effectiveValue t.session.store id value = none) (ps : Properties) :
    update w o id value ps t = .ok () { t with
      session := t.session.updated id none ps
      dispatch := t.dispatch ++ relays t.session o id none ps } := by
  have hc : t.session.store.contains id = true := Store.contains_iff.mpr ⟨v, hv⟩
  simp only [update, bind_run, store_run, hv, he, storeUpdate_run hc, relays]
  cases hps : ps.isEmpty with
  | true => simp [SessionState.updated]
  | false => simp [bind_run, SessionState.updated]

theorem writeThrough_of_no_path {v : Variable} (hv : t.session.store.get? id = some v)
    (hpath : v.path?.isSome = false) (value : Json) : writeThrough w id value t = .ok () t := by
  rw [Option.isSome_eq_false_iff, Option.isNone_iff_eq_none] at hpath
  simp only [writeThrough, bind_run, store_run, hv, hpath, pure_run]

/-- An update with a value that counts writes it first. -/
private theorem update_eq_of_some {v : Variable} {value : Option Json} {new : Json}
    (hv : t.session.store.get? id = some v)
    (he : effectiveValue t.session.store id value = some new) (ps : Properties) :
    update w o id value ps t = (do
      writeThrough w id new
      storeUpdate id (some new) ps
      modifyTracker fun t ↦ t.remember id new
      let others := ((← tally).watchers id).filter (· ≠ o)
      sendAll others (.update id (some new) ps) : TurnM σ Unit) t := by
  simp only [update, bind_run, store_run, hv, he, Option.isSome_some, Bool.true_or, if_true]
  rcases hpath : v.path?.isSome with _ | _
  · simp only [Bool.false_eq_true, if_false, writeThrough_of_no_path hv hpath, bind_run]
  · simp only [if_true, bind_run]

theorem update_of_writeThrough_error {v : Variable} {value : Option Json} {new : Json}
    (hv : t.session.store.get? id = some v)
    (he : effectiveValue t.session.store id value = some new) {halt : Halt} {t' : Turn σ}
    (hwrite : writeThrough w id new t = .error halt t') (ps : Properties) :
    update w o id value ps t = .error halt t' := by
  rw [update_eq_of_some hv he, bind_run, hwrite]

theorem update_of_writeThrough {v : Variable} {value : Option Json} {new : Json}
    (hv : t.session.store.get? id = some v)
    (he : effectiveValue t.session.store id value = some new) {t' : Turn σ}
    (hwrite : writeThrough w id new t = .ok () t') (ps : Properties) :
    WrittenTo v t t' ∧ update w o id value ps t = .ok () { t' with
        session := t'.session.updated id (some new) ps
        dispatch := t.dispatch ++ relays t.session o id (some new) ps } := by
  obtain ⟨t'', hok, hw⟩ | ⟨halt, app, herror⟩ := writeThrough_writes (w := w) hv new
  · obtain rfl : t'' = t' := (EStateM.Result.ok.inj (hok.symm.trans hwrite)).2
    refine ⟨hw, ?_⟩
    have hc : t''.session.store.contains id = true := by
      rw [contains_of_writtenTo hw]
      exact Store.contains_iff.mpr ⟨v, hv⟩
    rw [update_eq_of_some hv he]
    simp only [bind_run, hwrite, storeUpdate_run hc, modifyTracker_run, tally_run, sendAll_run]
    cases hw <;> simp [relays, SessionState.updated, SessionState.assigned]
  · rw [herror] at hwrite
    exact absurd hwrite (by simp)

/-- An update with a value that counts. -/
theorem update_of_some {v : Variable} {value : Option Json} {new : Json}
    (hv : t.session.store.get? id = some v)
    (he : effectiveValue t.session.store id value = some new) (ps : Properties) :
    (∃ t', WrittenTo v t t' ∧ update w o id value ps t = .ok () { t' with
        session := t'.session.updated id (some new) ps
        dispatch := t.dispatch ++ relays t.session o id (some new) ps }) ∨
      ∃ halt app, update w o id value ps t = .error halt { t with app := app } := by
  obtain ⟨t', hok, -⟩ | ⟨halt, app, herror⟩ := writeThrough_writes (w := w) hv new
  · exact .inl ⟨t', update_of_writeThrough hv he hok ps⟩
  · exact .inr ⟨halt, app, update_of_writeThrough_error hv he herror ps⟩

/-- **An update writes its value on and stores it, or it is cut short and has changed nothing but
the application.** -/
theorem update_cases (w : WrapperRegistry) (o : Observer) (id : VarId) (value : Option Json)
    (ps : Properties) (t : Turn σ) :
    (∃ v t', t.session.store.get? id = some v ∧ WrittenTo v t t' ∧
      update w o id value ps t = .ok () { t' with
        session := t'.session.updated id (effectiveValue t.session.store id value) ps
        dispatch := t.dispatch ++
          relays t.session o id (effectiveValue t.session.store id value) ps }) ∨
      ∃ halt app, update w o id value ps t = .error halt { t with app := app } := by
  rcases hv : t.session.store.get? id with _ | v
  · exact .inr ⟨_, t.app, update_of_unknown hv value ps⟩
  rcases he : effectiveValue t.session.store id value with _ | new
  · exact .inl ⟨v, t, rfl, .application t.app, update_of_none hv he ps⟩
  rcases update_of_some (w := w) (o := o) hv he ps with ⟨t', hw, hrun⟩ | hrun
  · exact .inl ⟨v, t', rfl, hw, hrun⟩
  · exact .inr hrun

end ReactiveVars
