import ReactiveVars.Proofs.Backend.Parts

/-!
# What a create does

A create has two parts. Everything up to the insertion of the variable is a check, and a request
that does not pass leaves no trace but a number given out. Behind the insertion the creator is
answered, or the watchers of the parent are told; what is refused there comes too late for the
variable, which stays.
-/

namespace ReactiveVars

open TurnM Relation

variable {σ : Type} [Application σ] {w : WrapperRegistry} {o : Observer} {id : VarId} {t : Turn σ}

/-! ## Registering a variable

The checks and the insertion are one part of a create, for up to there a refusal leaves no variable
behind. `CreateRequest.Passes` collects the checks. -/

/-- The number that a request gets, and the store once it is given out. -/
def CreateRequest.chosen (request : CreateRequest) (s : Store) : VarId × Store :=
  match request.id with
  | some id => (id, s)
  | none => s.vend

theorem CreateRequest.entries_chosen (request : CreateRequest) (s : Store) :
    (request.chosen s).2.entries = s.entries := by
  rw [chosen]
  cases request.id <;> rfl

theorem CreateRequest.fresh {request : CreateRequest} {s : Store}
    (check : (request.chosen s).2.checkNew (request.chosen s).1 request.parent = .ok ()) :
    s.contains (request.chosen s).1 = false := by
  have hfree := (Store.checkNew_eq_ok_iff.mp check).2.1
  rwa [Store.contains, Store.get?_eq_findIn, request.entries_chosen] at hfree

/-- The part of a create up to the insertion of the variable: every check that is made before the
variable exists. -/
def register (request : CreateRequest) : TurnM σ (VarId × Properties) := do
  let id ← chooseId request.id
  orRefuse ((← store).checkNew id request.parent)
  let properties ← orRefuse (withPathParams id request.properties)
  let value ← initialValue id properties request.value
  insertVariable id ⟨some id, request.parent, value, properties, request.unbound⟩
  return (id, properties)

/-- The part of a create behind the insertion of the variable. -/
def introduce (w : WrapperRegistry) (creator : Option Observer) (request : CreateRequest)
    (id : VarId) (ps : Properties) : TurnM σ Unit :=
  match creator with
  | some observer => answerCreator w observer request id ps.areDerived
  | none => announce w request.parent id

theorem create_eq (w : WrapperRegistry) (creator : Option Observer) (request : CreateRequest) :
    (create w creator request : TurnM σ VarId) = do
      let (id, ps) ← register request
      introduce w creator request id ps
      return id := by
  funext t
  simp only [create, register, bind_run]
  cases chooseId request.id t with
  | error halt t' => rfl
  | ok id t' =>
    simp only [store_run]
    cases orRefuse (t'.session.store.checkNew id request.parent) t' with
    | error halt t' => rfl
    | ok _ t' =>
      simp only
      cases orRefuse (withPathParams id request.properties) t' with
      | error halt t' => rfl
      | ok ps t' =>
        simp only
        cases initialValue id ps request.value t' with
        | error halt t' => rfl
        | ok value t' =>
          simp only
          cases insertVariable id ⟨some id, request.parent, value, ps, request.unbound⟩ t' with
          | error halt t' => rfl
          | ok _ t' => cases creator <;> simp only [introduce, pure_run, bind_run]

theorem create_of_register_error {creator : Option Observer} {request : CreateRequest} {halt : Halt}
    {t' : Turn σ} (h : register request t = .error halt t') :
    create w creator request t = .error halt t' := by
  rw [create_eq, bind_run, h]

/-- Whether a request passes every check that is made before the variable exists: the number is
free, the parent is there, the path can be read and an object of the type can be made. -/
def CreateRequest.Passes (request : CreateRequest) (t : Turn σ) : Prop :=
  (request.chosen t.session.store).2.checkNew (request.chosen t.session.store).1 request.parent
      = .ok () ∧
    ∃ ps, withPathParams (request.chosen t.session.store).1 request.properties = .ok ps ∧
      ∀ typeName, ps.createType? = some typeName →
        ∃ r, (Application.instantiate t.app typeName ps).1 = .ok r

/-- The session after a variable has been registered. -/
def SessionState.registered (s : SessionState) (request : CreateRequest) (value : Json)
    (ps : Properties) : SessionState :=
  { s with
    store := ⟨Store.newVariable (request.chosen s.store).1
        ⟨some (request.chosen s.store).1, request.parent, value, ps, request.unbound⟩
          :: s.store.entries,
      (request.chosen s.store).2.ids.observe (request.chosen s.store).1⟩ }

/-- The variable that a request adds. -/
def CreateRequest.variable (request : CreateRequest) (s : Store) (value : Json) (ps : Properties) :
    Variable :=
  Store.newVariable (request.chosen s).1
    ⟨some (request.chosen s).1, request.parent, value, ps, request.unbound⟩

theorem SessionState.get?_registered (s : SessionState) (request : CreateRequest) (value : Json)
    (ps : Properties) (k : VarId) :
    (s.registered request value ps).store.get? k
      = if (request.chosen s.store).1 = k then some (request.variable s.store value ps)
        else s.store.get? k := by
  rw [registered, Store.get?_eq_findIn, Store.findIn_cons]
  rfl

/-- The session after a number has been given out in vain. -/
def SessionState.spent (s : SessionState) (request : CreateRequest) : SessionState :=
  { s with store := (request.chosen s.store).2 }

omit [Application σ] in
theorem chooseId_run (request : CreateRequest) (t : Turn σ) :
    chooseId request.id t = .ok (request.chosen t.session.store).1
      { t with session := t.session.spent request } := by
  rw [SessionState.spent, CreateRequest.chosen]
  cases request.id <;> rfl

/-- The value a variable starts with is found unless an object of the type cannot be made. -/
theorem initialValue_run (id : VarId) (ps : Properties) (value : Option Json) (t : Turn σ) :
    (∃ v app, initialValue id ps value t = .ok v { t with app := app } ∧
        ∀ typeName, ps.createType? = some typeName →
          ∃ r, (Application.instantiate t.app typeName ps).1 = .ok r) ∨
      ∃ halt app, initialValue id ps value t = .error halt { t with app := app } ∧
        ¬ ∀ typeName, ps.createType? = some typeName →
          ∃ r, (Application.instantiate t.app typeName ps).1 = .ok r := by
  rw [initialValue]
  cases htype : ps.createType? with
  | none => exact .inl ⟨value.getD .null, t.app, rfl, by simp⟩
  | some typeName =>
    simp only [bind_run, ask, Option.some_inj, forall_eq']
    rcases hr : Application.instantiate t.app typeName ps with ⟨r | reason | _, app⟩
    · exact .inl ⟨r.json, app, rfl, r, rfl⟩
    · exact .inr ⟨_, app, rfl, by simp⟩
    · exact .inr ⟨_, app, rfl, by simp⟩

/-- A request that does not pass leaves no trace but a number given out; one that passes has its
variable inserted. -/
theorem register_run (request : CreateRequest) (t : Turn σ) :
    (request.Passes t ∧ ∃ ps value app,
        withPathParams (request.chosen t.session.store).1 request.properties = .ok ps ∧
        register request t = .ok ((request.chosen t.session.store).1, ps)
          { t with session := t.session.registered request value ps, app := app }) ∨
      (¬ request.Passes t ∧ ∃ halt app, register request t
        = .error halt { t with session := t.session.spent request, app := app }) := by
  have hspent : (t.session.spent request).store = (request.chosen t.session.store).2 := rfl
  -- the checks in their order; each ends the part before anything but the number has changed
  rw [CreateRequest.Passes]
  simp only [register, bind_run, chooseId_run, store_run, hspent]
  cases hcheck : (request.chosen t.session.store).2.checkNew (request.chosen t.session.store).1
    request.parent with
  | error e => exact .inr ⟨by simp, _, t.app, rfl⟩
  | ok _ =>
    simp only [orRefuse_ok_run, true_and]
    cases hps : withPathParams (request.chosen t.session.store).1 request.properties with
    | error e => exact .inr ⟨by simp, _, t.app, rfl⟩
    | ok ps =>
      simp only [orRefuse_ok_run, Except.ok.injEq, exists_eq_left']
      obtain ⟨value, app, hvalue, htype⟩ | ⟨halt, app, herror, htype⟩ :=
        initialValue_run (request.chosen t.session.store).1 ps request.value
          { t with session := t.session.spent request }
      · refine .inl ⟨htype, ps, value, app, rfl, ?_⟩
        have hinsert : (request.chosen t.session.store).2.insertAs
            (request.chosen t.session.store).1 ⟨some (request.chosen t.session.store).1,
              request.parent, value, ps, request.unbound⟩ = .ok _ :=
          Store.insertAs_eq_ok_iff.mpr ⟨hcheck, rfl⟩
        simp only [hvalue, insertVariable, bind_run, store_run, hspent, hinsert, orRefuse_ok_run,
          modifyStore_run, pure_run]
        rw [SessionState.spent, SessionState.registered, request.entries_chosen]
      · exact .inr ⟨htype, halt, app, by rw [herror]⟩

/-! ## Introducing a variable

The creator may be sent an echo and may watch from now on, the watchers of the parent are sent the
variable as a whole. All that these have in common is that they show this one variable, which is
what `ShowStep` is for. -/

/-- The message that tells all of a variable. -/
def Variable.announcement (u : Variable) (v : Json) (noWatch : Bool) : Message :=
  .create u.parent (some v) u.properties (some u.id) noWatch u.unbound

theorem createMessage_of_ok {u : Variable} {v : Json} {app : σ}
    (h : t.presented w id = (.ok v, app)) (hu : t.session.store.get? id = some u)
    (noWatch : Bool) :
    createMessage w id noWatch t = .ok (u.announcement v noWatch) { t with
      session := { t.session with store := t.session.store.keep id v }, app := app } := by
  have hget := t.session.store.get?_keep id v id
  rw [if_pos rfl, hu, Option.map_some] at hget
  have hid : u.id = id := Store.id_of_get? hu
  simp only [createMessage, bind_run, present_of_ok h, store_run, hget, pure_run,
    Variable.announcement, hid]
  split <;> rfl

theorem createMessage_of_error {halt : Halt} {app : σ} (h : t.presented w id = (.error halt, app))
    (noWatch : Bool) : createMessage w id noWatch t = .error halt { t with app := app } := by
  rw [createMessage, bind_run, present_of_error h]

/-- A step of showing a variable to observers: its presented value is kept, or an observer is
counted in, with or without a value to track. -/
inductive ShowStep (id : VarId) (s : SessionState) : SessionState → Prop
  | keep (v : Json) : ShowStep id s { s with store := s.store.keep id v }
  | count (o : Observer) : ShowStep id s { s with tally := (s.tally.watch id o).2 }
  | watch (o : Observer) (v : Json) : ShowStep id s (s.watched o id v)

theorem watch_shows (w : WrapperRegistry) (o : Observer) (id : VarId) (snapshot : Bool)
    (t : Turn σ) : ShowStep id t.session ((watch w o id snapshot).after t).session := by
  rcases h : t.presented w id with ⟨halt | v, app⟩
  · rw [after_of_error (watch_of_error h snapshot)]
    exact .count o
  · rw [after_of_ok (watch_of_ok h snapshot)]
    exact .watch o v

theorem createMessage_shows (w : WrapperRegistry) (id : VarId) (noWatch : Bool)
    (t : Turn σ) :
    ReflTransGen (ShowStep id) t.session ((createMessage w id noWatch).after t).session := by
  rcases h : t.presented w id with ⟨halt | v, app⟩
  · rw [after_of_error (createMessage_of_error h noWatch)]
  · obtain ⟨u, hu⟩ := Store.contains_iff.mp (contains_of_presented h)
    rw [after_of_ok (createMessage_of_ok h hu noWatch)]
    exact .single (.keep v)

/-- Answering the creator, or announcing the variable, shows this one variable and touches no
other. -/
theorem introduce_shows (w : WrapperRegistry) (creator : Option Observer) (request : CreateRequest)
    (id : VarId) (ps : Properties) (t : Turn σ) :
    ReflTransGen (ShowStep id) t.session ((introduce w creator request id ps).after t).session := by
  cases creator with
  | none =>
    rw [introduce, announce]
    exact after_bind_steps (createMessage_shows w id false t) fun m t' _ ↦ .refl
  | some o =>
    have hwatch (t : Turn σ) : ReflTransGen (ShowStep id) t.session
        ((if (!request.noWatch) = true then watch w o id ps.areDerived else pure ()).after
          t).session := by
      split
      · exact .single (watch_shows w o id ps.areDerived t)
      · exact .refl
    rw [introduce, answerCreator]
    by_cases hid : request.id.isNone = true
    · rw [if_pos hid]
      exact after_bind_steps (createMessage_shows w id request.noWatch t) fun m t' _ ↦
        hwatch { t' with dispatch := t'.dispatch ++ [(o, m)] }
    · rw [if_neg hid]
      exact hwatch t

/-- A create that passes all checks registers the variable and then shows it. -/
theorem create_shows (w : WrapperRegistry) (creator : Option Observer) {request : CreateRequest}
    (hpass : request.Passes t) :
    ∃ value ps, withPathParams (request.chosen t.session.store).1 request.properties = .ok ps ∧
      ReflTransGen (ShowStep (request.chosen t.session.store).1)
        (t.session.registered request value ps) ((create w creator request).after t).session := by
  obtain ⟨-, ps, value, app, hps, hreg⟩ | ⟨hnot, -⟩ := register_run request t
  · refine ⟨value, ps, hps, ?_⟩
    rw [create_eq, after_bind, hreg]
    exact after_bind_steps (introduce_shows w creator request (request.chosen t.session.store).1 ps
      { t with session := t.session.registered request value ps, app := app }) fun _ t' _ ↦ .refl
  · exact absurd hpass hnot

theorem create_of_not_passes (w : WrapperRegistry) (creator : Option Observer)
    {request : CreateRequest} (hnot : ¬ request.Passes t) :
    ∃ halt app, create w creator request t
      = .error halt { t with session := t.session.spent request, app := app } := by
  obtain ⟨hpass, -⟩ | ⟨-, halt, app, hreg⟩ := register_run request t
  · exact absurd hpass hnot
  · exact ⟨halt, app, create_of_register_error hreg⟩

theorem SessionState.contains_registered (s : SessionState) (request : CreateRequest) (value : Json)
    (ps : Properties) (k : VarId) : (s.registered request value ps).store.contains k
      = (decide ((request.chosen s.store).1 = k) || s.store.contains k) := by
  rw [Store.contains, get?_registered, Store.contains]
  by_cases hk : (request.chosen s.store).1 = k <;> simp [hk]

/-! ## Accepted creates -/

section Accepted

variable {creator : Option Observer} {request : CreateRequest} {t' : Turn σ}

/-- A variable that is registered has passed the checks and starts with a value. -/
theorem register_eq_ok {ps : Properties} (h : register request t = .ok (id, ps) t') :
    id = (request.chosen t.session.store).1 ∧ withPathParams id request.properties = .ok ps ∧
    ∃ value app, initialValue id ps request.value { t with session := t.session.spent request }
        = .ok value { t with session := t.session.spent request, app := app } ∧
      t' = { t with session := t.session.registered request value ps, app := app } := by
  have hspent : (t.session.spent request).store = (request.chosen t.session.store).2 := rfl
  simp only [register, bind_eq_ok_iff, chooseId_run, store_run, orRefuse_eq_ok_iff, pure_run,
    EStateM.Result.ok.injEq, Prod.mk.injEq] at h
  obtain ⟨_, _, ⟨rfl, rfl⟩, _, _, ⟨rfl, rfl⟩, ⟨⟩, _, ⟨hcheck, rfl⟩, ps', _, ⟨hps, rfl⟩, value, _,
    hvalue, ⟨⟩, _, hinsert, ⟨rfl, rfl⟩, rfl⟩ := h
  obtain ⟨value', app, hvalue', -⟩ | ⟨halt, app, herror, -⟩ := initialValue_run
    (request.chosen t.session.store).1 ps' request.value
    { t with session := t.session.spent request }
  · obtain ⟨rfl, rfl⟩ := EStateM.Result.ok.inj (hvalue'.symm.trans hvalue)
    refine ⟨rfl, hps, value', app, hvalue', ?_⟩
    have hinsertAs : (request.chosen t.session.store).2.insertAs
        (request.chosen t.session.store).1 ⟨some (request.chosen t.session.store).1,
          request.parent, value', ps', request.unbound⟩ = .ok _ :=
      Store.insertAs_eq_ok_iff.mpr ⟨hcheck, rfl⟩
    simp only [insertVariable, bind_run, store_run, hspent, hinsertAs, orRefuse_ok_run,
      modifyStore_run, EStateM.Result.ok.injEq, true_and] at hinsert
    rw [← hinsert, SessionState.spent, SessionState.registered, request.entries_chosen]
  · rw [herror] at hvalue
    exact absurd hvalue (by simp)

/-- A create that is accepted registers the variable and introduces it. -/
theorem create_eq_ok (h : create w creator request t = .ok id t') : ∃ ps t'',
    register request t = .ok (id, ps) t'' ∧ introduce w creator request id ps t'' = .ok () t' := by
  rw [create_eq, bind_eq_ok_iff] at h
  obtain ⟨⟨id', ps⟩, t'', hregister, h⟩ := h
  obtain ⟨⟨⟩, t₁, hintroduce, h⟩ := bind_eq_ok_iff.mp h
  obtain ⟨rfl, rfl⟩ := EStateM.Result.ok.inj h
  exact ⟨ps, t'', hregister, hintroduce⟩

end Accepted

end ReactiveVars
