import ReactiveVars.Proofs.Backend.Parameters
import ReactiveVars.Proofs.Backend.Walks

/-!
# What the creator of a variable learns

The creator of a variable gets an echo if it has left the number open, and the presented value if
the properties ask for another value than the requested one. Whether they do is decided from the
path and the type alone. A wrapper gives the value another form as well, so a creator that has
chosen the number and asks for a wrapper alone is not told the presented value.

## Main statement

* `create_tells_iff`: when the creator of a variable knows the value that the variable presents.
-/

namespace ReactiveVars

open TurnM

/-! ## Properties that ask for another value

What is asked is whether the properties of the request name a path or a type, so it can be decided
before the variable exists, and parameters of a path do not matter to it. -/

namespace Properties

variable {ps ps' : Properties} {name : String} {id : VarId}

private theorem areDerived_eq_false_iff :
    ps.areDerived = false ↔ ps.createType? = none ∧ ¬ ps.Names pathProperty := by
  rw [areDerived, Bool.or_eq_false_iff, Option.isSome_eq_false_iff, Option.isNone_iff_eq_none,
    Option.isSome_eq_false_iff, isNone_base?]

private theorem Names.fillIn {more : List (String × String)} (h : ps.Names name)
    (hmore : Entries.Ascending more) : (ps.fillIn more).Names name := by
  obtain ⟨key, hkey, hsome⟩ := names_iff.mp h
  refine names_iff.mpr ⟨key, hkey, ?_⟩
  rw [get?_fillIn hmore, Option.isSome_or, hsome, Bool.or_true]

private theorem areDerived_of_names (h : ps.Names pathProperty) : ps.areDerived = true := by
  rw [← Bool.not_eq_false, areDerived_eq_false_iff]
  exact fun hnot ↦ hnot.2 h

/-- Parameters come only with a path, so they do not change whether another value is asked for. -/
theorem areDerived_withPathParams (h : withPathParams id ps = .ok ps') :
    ps'.areDerived = ps.areDerived ∧ (ps.areDerived = false → ps' = ps) := by
  by_cases hnames : ps.Names pathProperty
  · have hnames' : ps'.Names pathProperty := by
      rw [CreateRequest.eq_fillIn_params ⟨noParent, none, ps, none, false, false⟩ h]
      exact hnames.fillIn (KeyMap.ascending _)
    rw [areDerived_of_names hnames, areDerived_of_names hnames']
    exact ⟨rfl, fun hfalse ↦ absurd hfalse (by simp)⟩
  · have hbase : ps.base? pathProperty = none :=
      Option.isNone_iff_eq_none.mp (isNone_base?.mpr hnames)
    rw [withPathParams, hbase] at h
    obtain rfl := Except.ok.inj h
    exact ⟨rfl, fun _ ↦ rfl⟩

private theorem get?_apply_empty_of_not_names (h : ¬ ps.Names name) :
    (ps.apply .empty).get? name = none := by
  rw [get?_apply, textFor?_eq_none_iff.mpr h, Option.elim_none, KeyMap.get?_empty]

end Properties

/-! ## The value last presented

A variable with a path has kept the value that it was presented with. One without is presented by
its wrapper alone, from the value that is stored. -/

/-- The value that a variable was last presented with, which one with a path has kept. -/
def Variable.shown (w : WrapperRegistry) (v : Variable) : Json :=
  if v.path?.isSome then v.value else w.present v.wrapper? v.value v.properties

theorem Variable.shown_of_no_path {w : WrapperRegistry} {v : Variable} (h : v.path? = none) :
    v.shown w = w.present v.wrapper? v.value v.properties := by
  rw [shown, h, Option.isSome_none, if_neg Bool.false_ne_true]

theorem Variable.shown_of_path {w : WrapperRegistry} {v : Variable} {raw : String}
    (h : v.path? = some raw) : v.shown w = v.value := by
  rw [shown, h, Option.isSome_some, if_pos rfl]

section Application

variable {σ : Type} [Application σ] {w : WrapperRegistry} {o : Observer} {id : VarId}
  {t t' : Turn σ}

private theorem presentedIn_map_active (w : WrapperRegistry) (id : VarId) (vs : List Variable)
    (f : Variable → Bool) (app : σ) :
    presentedIn w id (vs.map fun v ↦ { v with active := f v }) app = presentedIn w id vs app := by
  induction vs generalizing id app with
  | nil => rfl
  | cons v older ih =>
    have hany (k : VarId) : (older.map fun v ↦ { v with active := f v }).any
        (fun u ↦ decide (u.id = k)) = older.any fun u ↦ decide (u.id = k) := by
      rw [List.any_map]
      rfl
    rw [List.map_cons, presentedIn, presentedIn, hany, ih, ih]
    rfl

private theorem presentedIn_watched (w : WrapperRegistry) (s : SessionState) (o : Observer)
    (id : VarId) (v : Json) (k : VarId) (app : σ) :
    presentedIn w k (s.watched o id v).store.entries app = presentedIn w k s.store.entries app := by
  have hkeep : presentedIn w k (s.store.keep id v).entries app
      = presentedIn w k s.store.entries app := by
    rw [← presentedIn_map_bare, ← Store.bare, Store.bare_keep, Store.bare, presentedIn_map_bare]
  rw [SessionState.watched]
  split
  · have hactive : ((s.store.keep id v).setActive id true).entries
        = (s.store.keep id v).entries.map fun u ↦
          { u with active := if u.id = id then true else u.active } := by
      refine List.map_congr_left fun u _ ↦ ?_
      split <;> rfl
    rw [hactive, presentedIn_map_active, hkeep]
  · exact hkeep

/-- A watched variable has been presented with a value, and is otherwise what it was. -/
theorem watched_shown {v : Json} {app : σ} (h : t.presented w id = (.ok v, app)) (o : Observer) :
    ∃ u u', t.session.store.get? id = some u ∧
      (t.session.watched o id v).store.get? id = some u' ∧ u'.shown w = v ∧
      u'.properties = u.properties ∧ (u.path? = none → u'.value = u.value) := by
  obtain ⟨u, hu⟩ := Store.contains_iff.mp (contains_of_presented h)
  have hkept := t.session.store.get?_keep id v id
  rw [if_pos rfl, hu, Option.map_some] at hkept
  have hwatched : ∃ active, (t.session.watched o id v).store.get? id
      = some { (if u.path?.isSome then { u with value := v } else u) with active := active } := by
    rw [SessionState.watched]
    split
    · exact ⟨true, by rw [Store.get?_setActive, if_pos rfl, hkept]; rfl⟩
    · exact ⟨_, hkept⟩
  obtain ⟨active, hwatched⟩ := hwatched
  refine ⟨u, _, hu, hwatched, ?_⟩
  -- with a path the variable keeps the value, and without it the wrapper gives it again
  cases hpath : u.path? with
  | none =>
    rw [Turn.presented_of_no_path hu hpath, Prod.mk.injEq, Except.ok.injEq] at h
    rw [Option.isSome_none, if_neg Bool.false_ne_true]
    exact ⟨(Variable.shown_of_no_path (v := { u with active := active }) hpath).trans h.1, rfl,
      fun _ ↦ rfl⟩
  | some raw =>
    rw [Option.isSome_some, if_pos rfl]
    exact ⟨Variable.shown_of_path (v := { u with value := v, active := active }) hpath, rfl,
      fun hnone ↦ absurd hnone (by simp)⟩

private theorem watch_eq_ok {snapshot : Bool} (h : watch w o id snapshot t = .ok () t') :
    ∃ v app, t.presented w id = (.ok v, app) ∧ t' = ⟨t.session.watched o id v, app,
      t.dispatch ++ snapshotTo t.session.store o id v snapshot⟩ := by
  rcases hp : t.presented w id with ⟨halt | v, app⟩
  · rw [watch_of_error hp] at h
    exact absurd h (by simp)
  · rw [watch_of_ok hp] at h
    exact ⟨v, app, rfl, (EStateM.Result.ok.inj h).2.symm⟩

/-- An echo is sent to a creator that has left the number open. -/
inductive Echoed (w : WrapperRegistry) (o : Observer) (request : CreateRequest) (id : VarId)
    (t : Turn σ) : Turn σ → Prop
  | chosen (given : request.id.isNone = false) : Echoed w o request id t t
  | echo (left : request.id.isNone = true) {u : Variable} {v : Json} {app : σ}
      (presented : t.presented w id = (.ok v, app)) (found : t.session.store.get? id = some u) :
      Echoed w o request id t { t with
        session := { t.session with store := t.session.store.keep id v }
        app := app
        dispatch := t.dispatch ++ [(o, u.announcement v false)] }

/-- The creator of a variable is sent the echo first and then watches. -/
theorem answerCreator_eq_ok {request : CreateRequest} {derived : Bool}
    (hwatch : request.noWatch = false) (h : answerCreator w o request id derived t = .ok () t') :
    ∃ t'', Echoed w o request id t t'' ∧ watch w o id derived t'' = .ok () t' := by
  simp only [answerCreator, hwatch, Bool.not_false, if_true] at h
  cases hid : request.id.isNone with
  | false =>
    rw [hid, if_neg (by simp)] at h
    exact ⟨t, .chosen hid, h⟩
  | true =>
    rw [hid, if_pos rfl] at h
    rcases hp : t.presented w id with ⟨halt | v, app⟩
    · simp only [bind_run, createMessage_of_error hp] at h
      exact absurd h (by simp)
    · obtain ⟨u, hu⟩ := Store.contains_iff.mp (contains_of_presented hp)
      simp only [bind_run, createMessage_of_ok hp hu, send_run] at h
      exact ⟨_, .echo hid hp hu, h⟩

/-- Whether a message tells the value of a variable: an echo of its create, or an update. -/
def Message.Tells (id : VarId) (v : Json) : Message → Prop
  | .create _ value _ (some k) _ _ | .update k value _ => k = id ∧ value = some v
  | _ => False

private theorem Dispatch.forObserver_singleton (o : Observer) (m : Message) :
    Dispatch.forObserver [(o, m)] o = [m] := by
  simp [Dispatch.forObserver]

private theorem exists_tells_snapshotTo_iff {s : Store} {v : Json} {snapshot : Bool} :
    (∃ m ∈ (snapshotTo s o id v snapshot).forObserver o, m.Tells id v) ↔ snapshot = true := by
  cases snapshot <;> simp [snapshotTo, Dispatch.forObserver, Message.Tells]

private theorem answerCreator_shown {request : CreateRequest} {derived : Bool} {u₁ : Variable}
    (hwatch : request.noWatch = false) (hu₁ : t.session.store.get? id = some u₁)
    (hliteral : derived = false → u₁.path? = none)
    (h : answerCreator w o request id derived t = .ok () t') :
    ∃ u d, t'.session.store.get? id = some u ∧
      (∃ app, presentedIn w id t'.session.store.entries app = (.ok (u.shown w), t'.app)) ∧
      u.properties = u₁.properties ∧ (u₁.path? = none → u.value = u₁.value) ∧
      t'.dispatch = t.dispatch ++ d ∧
      ((∃ m ∈ d.forObserver o, m.Tells id (u.shown w)) ↔
        request.id = none ∨ derived = true) := by
  obtain ⟨t'', hecho, hrun⟩ := answerCreator_eq_ok hwatch h
  obtain ⟨v, app, hp, rfl⟩ := watch_eq_ok hrun
  obtain ⟨u₂, u, hu₂, hu, hshown, hprops, hvalue⟩ := watched_shown hp o
  have hpresented : presentedIn w id (t''.session.watched o id v).store.entries t''.app
      = (.ok (u.shown w), app) := by
    rw [presentedIn_watched, hshown]
    exact hp
  rcases hecho with given | ⟨left, hp₁, hu₁'⟩
  · rw [hu₁, Option.some_inj] at hu₂
    subst hu₂
    refine ⟨u, _, hu, ⟨_, hpresented⟩, hprops, hvalue, rfl, ?_⟩
    rw [hshown, exists_tells_snapshotTo_iff, or_iff_right]
    intro hnone
    rw [hnone] at given
    exact absurd given (by simp)
  · rename_i u₁' v₁ app₁
    rw [hu₁, Option.some_inj] at hu₁'
    subst hu₁'
    rw [Store.get?_keep, if_pos rfl, hu₁, Option.map_some, Option.some_inj] at hu₂
    have hkept : u₂.properties = u₁.properties ∧ (u₁.path? = none → u₂ = u₁) := by
      rw [← hu₂]
      cases hpath : u₁.path? <;> simp
    refine ⟨u, _, hu, ⟨_, hpresented⟩, hprops.trans hkept.1, ?_, List.append_assoc .., ?_⟩
    · intro hnone
      rw [hvalue (hkept.2 hnone ▸ hnone), hkept.2 hnone]
    · refine iff_of_true ?_ (.inl (Option.isNone_iff_eq_none.mp left))
      rw [Dispatch.forObserver_append, Dispatch.forObserver_singleton, hshown]
      cases derived with
      | true =>
        obtain ⟨m, hm, htells⟩ := exists_tells_snapshotTo_iff.mpr rfl
        exact ⟨m, List.mem_append_right _ hm, htells⟩
      | false =>
        -- nothing but the wrapper forms the value, so the echo tells what the watch presents
        have hnone := hliteral rfl
        have hsame : v₁ = v := by
          have hfound : (t.session.store.keep id v₁).get? id = some u₁ := by
            rw [Store.get?_keep, if_pos rfl, hu₁, Option.map_some, hnone]
            rfl
          rw [Turn.presented_of_no_path hu₁ hnone] at hp₁
          rw [Turn.presented_of_no_path hfound hnone] at hp
          exact (Except.ok.inj (Prod.mk.inj hp₁).1).symm.trans (Except.ok.inj (Prod.mk.inj hp).1)
        exact ⟨_, List.mem_append_left _ List.mem_cons_self, Store.id_of_get? hu₁,
          congrArg some hsame⟩

private theorem obey_create_eq_ok {parent : VarId} {value : Option Json} {ps : Properties}
    {chosen : Option VarId} {noWatch unbound : Bool}
    (h : obey w o (.create parent value ps chosen noWatch unbound) t = .ok () t') :
    ∃ k, create w (some o) ⟨parent, value, ps, chosen, noWatch, unbound⟩ t = .ok k t' := by
  obtain ⟨k, _, hcreate, hdone⟩ := bind_eq_ok_iff.mp h
  obtain ⟨-, rfl⟩ := EStateM.Result.ok.inj hdone
  exact ⟨k, hcreate⟩

/-- Without a path and a type a variable starts with the requested value and has no path. -/
private theorem initialValue_eq_ok {ps ps' : Properties} {value : Option Json} {value' : Json}
    (hderived : ps.areDerived = false) (hps : withPathParams id ps = .ok ps')
    (h : initialValue id ps' value t = .ok value' t') :
    value' = value.getD .null ∧ (ps'.apply .empty).get? pathProperty = none := by
  obtain rfl := (Properties.areDerived_withPathParams hps).2 hderived
  obtain ⟨htype, hpath⟩ := Properties.areDerived_eq_false_iff.mp hderived
  rw [initialValue, htype] at h
  exact ⟨(EStateM.Result.ok.inj h).1.symm, Properties.get?_apply_empty_of_not_names hpath⟩

/-- **When the creator of a variable knows the presented value.** Once a create with a watch has
been accepted, the creator has been told the value that the variable presents, or has asked for just
that value, exactly if it has left the number open, or the properties ask for another value by a
path or a type, or no wrapper gives the requested value another form. -/
theorem create_tells_iff {parent : VarId} {value : Option Json} {ps : Properties}
    {chosen : Option VarId} {unbound : Bool}
    (h : obey w o (.create parent value ps chosen false unbound) t = .ok () t') :
    ∃ u, t'.session.store.get? (CreateRequest.chosen ⟨parent, value, ps, chosen, false, unbound⟩
        t.session.store).1 = some u ∧
      (∃ app, presentedIn w u.id t'.session.store.entries app = (.ok (u.shown w), t'.app)) ∧
      ((∃ m ∈ ((Operation.handle o (.create parent value ps chosen false unbound)).sent w
          t).forObserver o, m.Tells u.id (u.shown w)) ∨ u.shown w = value.getD .null ↔
        chosen = none ∨ ps.areDerived = true ∨
          w.present u.wrapper? (value.getD .null) u.properties = value.getD .null) := by
  obtain ⟨k, hcreate⟩ := obey_create_eq_ok h
  obtain ⟨ps', t₁, hregister, hintroduce⟩ := create_eq_ok hcreate
  obtain ⟨rfl, hps', value', app, hinitial, rfl⟩ := register_eq_ok hregister
  have hderived := (Properties.areDerived_withPathParams hps').1
  have hfound := t.session.get?_registered ⟨parent, value, ps, chosen, false, unbound⟩ value' ps'
    (CreateRequest.chosen ⟨parent, value, ps, chosen, false, unbound⟩ t.session.store).1
  rw [if_pos rfl] at hfound
  have hliteral (hnot : ps.areDerived = false) := initialValue_eq_ok hnot hps' hinitial
  obtain ⟨u, d, hu, hpresented, hprops, hvalue, hdispatch, htells⟩ :=
    answerCreator_shown rfl hfound (by exact fun hnot ↦ (hliteral (hderived ▸ hnot)).2) hintroduce
  have hid := Store.id_of_get? hu
  have hsent :
      (Operation.handle o (.create parent value ps chosen false unbound)).sent w t = d := by
    refine sent_eq ?_
    rw [Operation.part, after, handle_run, h]
    exact hdispatch
  refine ⟨u, hu, hid ▸ hpresented, ?_⟩
  rw [hsent, hid, htells, hderived, or_assoc]
  -- a creator that gets no echo has to know the value by itself
  refine or_congr_right ?_
  cases hnot : ps.areDerived with
  | true => simp
  | false =>
    obtain ⟨hvalue', hnone⟩ := hliteral hnot
    have hpath : u.path? = none := by
      rw [Variable.path?, hprops]
      exact hnone
    have hshown : u.shown w = w.present u.wrapper? (value.getD .null) u.properties := by
      rw [Variable.shown_of_no_path hpath, hvalue hnone, ← hvalue']
      rfl
    rw [hshown, or_iff_right (b := w.present _ _ _ = _) Bool.false_ne_true]

end Application

/-- A request for a list under a number of the creator's own choice, to be presented as rows. -/
def ContactBook.listed : Message :=
  .create rootId (some (.array [.string "x"])) (.ofList [("wrapper", "ViewList")]) (some 2) false
    false

theorem obey_listed :
    ∃ t', obey .standard "a" ContactBook.listed ContactBook.turn = .ok () t' := by
  have hpasses : (obey .standard "a" ContactBook.listed).passes (fun _ _ ↦ true)
      ContactBook.turn = true := by decide +kernel
  obtain ⟨⟨⟩, t', ht', -⟩ := passes_iff.mp hpasses
  exact ⟨t', ht'⟩

theorem create_tells_listed_iff :
    ∃ t' u, obey .standard "a" ContactBook.listed ContactBook.turn = .ok () t' ∧
      t'.session.store.get? 2 = some u ∧
      ((∃ m ∈ ((Operation.handle "a" ContactBook.listed).sent .standard
          ContactBook.turn).forObserver "a", m.Tells u.id (u.shown .standard)) ∨
          u.shown .standard = .array [.string "x"] ↔
        (some 2 : Option VarId) = none ∨
          Properties.areDerived (.ofList [("wrapper", "ViewList")]) = true ∨
          WrapperRegistry.standard.present u.wrapper? (.array [.string "x"]) u.properties
            = .array [.string "x"]) := by
  obtain ⟨t', ht'⟩ := obey_listed
  obtain ⟨u, hu, -, hiff⟩ := create_tells_iff ht'
  exact ⟨t', u, ht', hu, hiff⟩

/-- The creator is sent nothing, and the variable presents rows in place of the list. -/
theorem listed_not_told :
    ∃ t' v, obey .standard "a" ContactBook.listed ContactBook.turn = .ok () t' ∧
      ((Operation.handle "a" ContactBook.listed).sent .standard
        ContactBook.turn).forObserver "a" = [] ∧
      (t'.presented .standard 2).1 = .ok v ∧ v ≠ .array [.string "x"] := by
  obtain ⟨t', ht'⟩ := obey_listed
  have hsent : (((Operation.handle "a" ContactBook.listed).sent .standard
      ContactBook.turn).forObserver "a").isEmpty = true := by decide +kernel
  have hrows : (((obey .standard "a" ContactBook.listed).after ContactBook.turn).presented
      .standard 2).1.toOption.any (fun v ↦ v.text != (Json.array [.string "x"]).text) = true := by
    decide +kernel
  rw [after_of_ok ht'] at hrows
  rcases hv : (t'.presented .standard 2).1 with halt | v
  · rw [hv] at hrows
    exact absurd hrows (by simp [Except.toOption])
  · rw [hv] at hrows
    refine ⟨t', v, ht', List.isEmpty_iff.mp hsent, hv, ?_⟩
    rintro rfl
    exact absurd hrows (by simp [Except.toOption])

end ReactiveVars
