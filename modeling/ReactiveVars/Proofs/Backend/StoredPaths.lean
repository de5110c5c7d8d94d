import ReactiveVars.Proofs.Backend.PathTexts
import ReactiveVars.Proofs.Backend.StoreSteps
import ReactiveVars.Proofs.Backend.Walks
import ReactiveVars.Proofs.Order.Runs

/-!
# Stored paths and what can be presented

A variable with a path presents what the path finds from its parent. A path that finds nothing gives
null, so the one thing that can make presenting fail is a text that is not a path: the variable's
own, or that of an ancestor whose value is needed on the way.

Such a text can get into the store in two ways. An update stores its properties unread. A create
reads a path before it stores it, but where a path is given for several tiers it reads the first of
them, and the last one counts in the end. All other operations leave the properties of the variables
as they are.

## Main statements

* `Presents.refused_iff`: which variables cannot be presented.
* `Operation.all_iff`: what an operation changes in the properties of the variables.
* `presentable_iff`: every variable can be presented at any time exactly if no text that is not a
  path is ever stored as one.
-/

namespace ReactiveVars

open TurnM Relation Store

variable {σ : Type} [Application σ] {w : WrapperRegistry} {t : Turn σ} {id : VarId}

/-! ## Reading paths

Presenting goes up from a variable through parents that have paths, and stops at the first without,
whose value is stored. So these are the paths that can make it fail. -/

/-- The variables whose paths are read when a variable is presented: itself and its ancestors, as
far as they have paths. -/
def Store.readFor (s : Store) (id : VarId) : List Variable :=
  (s.lineage id).takeWhile fun v ↦ v.path?.isSome

theorem Store.Grown.readFor_of_path {s : Store} {v : Variable} {raw : String}
    (h : Grown s.entries) (hv : s.get? id = some v) (hraw : v.path? = some raw) :
    s.readFor id = v :: s.readFor v.parent := by
  rw [readFor, lineage, h.lineageIn_eq hv, List.takeWhile_cons_of_pos (by rw [hraw]; rfl)]
  rfl

private theorem Store.Grown.readFor_of_no_path {s : Store} {v : Variable} (h : Grown s.entries)
    (hv : s.get? id = some v) (hnone : v.path? = none) : s.readFor id = [] := by
  rw [readFor, lineage, h.lineageIn_eq hv, List.takeWhile_cons_of_neg (by simp [hnone])]

private theorem Variable.readable_of_parse {v : Variable} {raw : String} {path : Path}
    (hraw : v.path? = some raw) (hpath : Path.parse raw = .ok path) : v.properties.Readable := by
  intro raw' hraw'
  have heq : raw = raw' := Option.some_inj.mp (hraw.symm.trans hraw')
  exact ⟨path, heq ▸ hpath⟩

private theorem Variable.presentFrom_refused_iff {v : Variable} {path : Path}
    {base : Except Halt Json × σ} {e : SyncError} :
    (v.presentFrom w path base).1 = .error (.refused e) ↔ base.1 = .error (.refused e) := by
  constructor
  · exact fun h ↦ (presentFrom_error h).resolve_right (by simp)
  · rcases base with ⟨halt | b, app⟩
    · exact fun h ↦ h
    · exact fun h ↦ absurd h (by simp)

/-- **A variable is refused exactly if one of the paths that are read for it cannot be read.** -/
theorem Presents.refused_iff {s : Store} {app : σ} {r : Except Halt Json × σ}
    (hgrown : Grown s.entries) (h : Presents w s app id r) (hc : s.contains id = true) :
    (∃ e, r.1 = .error (.refused e)) ↔ ∃ v ∈ s.readFor id, ¬ v.properties.Readable := by
  -- along the walk: each rule reads one more path, or none
  induction h with
  | unknown hnone =>
    rw [contains_eq_false_iff.mpr hnone] at hc
    exact absurd hc (by simp)
  | own hv hnone =>
    rw [hgrown.readFor_of_no_path hv hnone]
    simp
  | unreadable hv hraw hparse =>
    rw [hgrown.readFor_of_path hv hraw]
    refine iff_of_true ⟨_, rfl⟩ ⟨_, List.mem_cons_self, fun hread ↦ ?_⟩
    obtain ⟨path, hpath⟩ := hread _ hraw
    rw [hparse] at hpath
    exact absurd hpath (by simp)
  | @from_root id v raw path hv hraw hpath hnone =>
    have hend : s.readFor v.parent = [] := by
      rw [readFor, lineage, lineageIn_of_findIn_none hnone, List.takeWhile_nil]
    rw [hgrown.readFor_of_path hv hraw, hend]
    simp [Variable.presentFrom_refused_iff, Variable.readable_of_parse hraw hpath]
  | from_parent hv hraw hpath hparent _ ih =>
    rw [hgrown.readFor_of_path hv hraw, List.exists_mem_cons_iff,
      or_iff_right (not_not_intro (Variable.readable_of_parse hraw hpath)), ← ih hparent]
    simp only [Variable.presentFrom_refused_iff]

/-- Whether presenting a variable gives a value, unless the application crashes. -/
def Turn.Shows (w : WrapperRegistry) (t : Turn σ) (id : VarId) : Prop :=
  (∃ v t', present w id t = .ok v t') ∨ ∃ t', present w id t = .error .crashed t'

private theorem Turn.shows_iff_presented :
    t.Shows w id ↔ ¬ ∃ e, (t.presented w id).1 = .error (.refused e) := by
  rw [Shows]
  rcases h : t.presented w id with ⟨(e | _) | v, app⟩
  · rw [present_of_error h]
    simp
  · rw [present_of_error h]
    simp
  · rw [present_of_ok h]
    simp

theorem Turn.shows_iff (hgrown : Grown t.session.store.entries)
    (hc : t.session.store.contains id = true) :
    t.Shows w id ↔ ∀ v ∈ t.session.store.readFor id, v.properties.Readable := by
  rw [shows_iff_presented, Turn.presented, (hgrown.presents w t.app id).refused_iff hgrown hc]
  push Not
  rfl

/-! ## Properties of all variables

A property of all variables that looks at their properties alone is not seen by detections and
watches. It can change only where properties are set. -/

section All

variable {P : Properties → Prop} {s s' : Store}

/-- Whether all variables have properties of a kind. -/
def Store.All (P : Properties → Prop) (s : Store) : Prop := ∀ v ∈ s.entries, P v.properties

/-- All variables can be presented exactly if all paths can be read. -/
theorem Turn.shows_all_iff (hgrown : Grown t.session.store.entries) :
    (∀ id, t.session.store.contains id = true → t.Shows w id) ↔
      t.session.store.All Properties.Readable := by
  constructor
  · intro h v hv raw hraw
    have hfound := hgrown.findIn_of_mem hv
    have hc : t.session.store.contains v.id = true := contains_iff.mpr ⟨v, hfound⟩
    have hshown := h v.id hc
    rw [shows_iff hgrown hc, hgrown.readFor_of_path hfound hraw] at hshown
    exact hshown v List.mem_cons_self raw hraw
  · intro h id hc
    rw [shows_iff hgrown hc]
    intro v hv
    exact h v ((lineageIn_sublist id _).subset ((List.takeWhile_prefix _).subset hv))

theorem Store.all_modify_iff (s : Store) (id : VarId) {f : Variable → Variable}
    (hf : ∀ v, (f v).properties = v.properties) : (s.modify id f).All P ↔ s.All P := by
  simp only [All, modify, List.forall_mem_map]
  refine forall₂_congr fun v _ ↦ ?_
  split
  · rw [hf]
  · rfl

theorem Store.Touch.all_iff (h : s.Touch s') : s'.All P ↔ s.All P := by
  rcases h with ⟨id, active⟩ | ⟨id, value⟩
  · exact s.all_modify_iff id fun _ ↦ by rfl
  · refine s.all_modify_iff id fun v ↦ ?_
    split <;> rfl

theorem SessionState.Touches.all_iff {s s' : SessionState} (h : s.Touches s') :
    s'.store.All P ↔ s.store.All P := by
  have hsteps {a b : Store} (h : ReflTransGen Store.Touch a b) : b.All P ↔ a.All P := by
    induction h with
    | refl => rfl
    | tail _ hstep ih => rw [hstep.all_iff, ih]
  exact hsteps h

theorem Store.All.destroy (h : s.All P) (id : VarId) : (s.destroy id).2.All P := by
  rw [Store.destroy]
  split
  · exact fun v hv ↦ h v (List.mem_filter.mp hv).1
  · exact h

private theorem SessionState.all_registered_iff (s : SessionState) (request : CreateRequest)
    (value : Json) (ps : Properties) : (s.registered request value ps).store.All P ↔
      P (ps.apply .empty) ∧ s.store.All P := List.forall_mem_cons

theorem Store.All.update_iff {v : Variable} (h : s.All P) (hgrown : Grown s.entries)
    (hv : s.get? id = some v) (value : Option Json) (ps : Properties) :
    (s.modify id fun u ↦ u.update value ps).All P ↔ P (ps.apply v.properties) := by
  simp only [All, modify, List.forall_mem_map]
  constructor
  · intro hall
    have hself := hall v (mem_of_get? hv)
    rwa [if_pos (id_of_get? hv)] at hself
  · intro hnew u hu
    by_cases hid : u.id = id
    · have heq : u = v := by
        have hfound := hgrown.findIn_of_mem hu
        rw [hid, ← get?_eq_findIn, hv, Option.some_inj] at hfound
        exact hfound.symm
      rw [if_pos hid, heq]
      exact hnew
    · rw [if_neg hid]
      exact h u hu

theorem Store.All.set_value {v : Variable} (h : s.All P) (hgrown : Grown s.entries)
    (hv : s.get? id = some v) (k : VarId) (value : Json) :
    Grown (s.modify k fun u ↦ { u with value := value }).entries ∧
      (s.modify k fun u ↦ { u with value := value }).All P ∧
      ∃ v', (s.modify k fun u ↦ { u with value := value }).get? id = some v' ∧
        v'.properties = v.properties := by
  refine ⟨hgrown.modify k (fun _ ↦ rfl) fun _ ↦ rfl, ?_, ?_⟩
  · rwa [s.all_modify_iff k fun _ ↦ by rfl]
  · rw [s.get?_modify k (fun _ ↦ by rfl), hv]
    split
    · exact ⟨_, rfl, rfl⟩
    · exact ⟨v, rfl, rfl⟩

end All

/-! ## What operations give to variables

`Operation.Gives` names the properties that a variable has after an operation that sets some. The
exact condition of a run is put together from it, operation by operation. -/

/-- The properties that an operation gives to a variable: a create those it asks for together with
the parameters of its path, an update those of the variable with its own set. -/
inductive Operation.Gives (w : WrapperRegistry) (t : Turn σ) : Operation σ → Properties → Prop
  | create {creator : Option Observer} {request : CreateRequest} {ps : Properties}
    (passes : request.Passes t)
    (params : withPathParams (request.chosen t.session.store).1 request.properties = .ok ps) :
    Gives w t (.create creator request) (ps.apply .empty)
  | handle_create {o : Observer} {parent : VarId} {value : Option Json} {asked ps : Properties}
    {id : Option VarId} {noWatch unbound : Bool}
    (gives : Gives w t (.create (some o) ⟨parent, value, asked, id, noWatch, unbound⟩) ps) :
    Gives w t (.handle o (.create parent value asked id noWatch unbound)) ps
  | handle_update {o : Observer} {id : VarId} {value : Option Json} {ps : Properties}
    {v : Variable} {t' : Turn σ} (found : t.session.store.get? id = some v)
    (accepted : update w o id value ps t = .ok () t') :
    Gives w t (.handle o (.update id value ps)) (ps.apply v.properties)

section Operations

variable {P : Properties → Prop} {o : Observer}

theorem create_all_iff (w : WrapperRegistry) (creator : Option Observer) (request : CreateRequest)
    (h : t.session.store.All P) : ((create w creator request).after t).session.store.All P ↔
      ∀ ps, (Operation.create creator request).Gives w t ps → P ps := by
  by_cases hpass : request.Passes t
  · obtain ⟨value, ps, hps, hshow⟩ := create_shows w creator hpass
    rw [(SessionState.touches_of_steps SessionState.show_touches hshow).all_iff,
      SessionState.all_registered_iff, and_iff_left h]
    constructor
    · rintro hnew _ ⟨-, hps'⟩
      rw [hps, Except.ok.injEq] at hps'
      exact hps' ▸ hnew
    · exact fun hgiven ↦ hgiven _ (.create hpass hps)
  · obtain ⟨halt, app, hrun⟩ := create_of_not_passes w creator hpass
    rw [after_of_error hrun]
    refine iff_of_true ?_ fun ps hgives ↦ ?_
    · intro v hv
      rw [SessionState.spent, request.entries_chosen] at hv
      exact h v hv
    · rcases hgives with ⟨hpass', -⟩
      exact absurd hpass' hpass

theorem update_all_iff (w : WrapperRegistry) (o : Observer) (value : Option Json)
    (ps : Properties) (hgrown : Grown t.session.store.entries) (h : t.session.store.All P) :
    ((update w o id value ps).after t).session.store.All P ↔
      ∀ ps', (Operation.handle o (.update id value ps)).Gives w t ps' → P ps' := by
  obtain ⟨v, t', hv, hwritten, hrun⟩ | ⟨halt, app, hrun⟩ := update_cases w o id value ps t
  · have hstored : ((update w o id value ps).after t).session.store.All P ↔
        P (ps.apply v.properties) := by
      rw [after_of_ok hrun]
      rcases hwritten with app | ⟨app, u, value', -, -⟩
      · exact h.update_iff hgrown hv _ ps
      · -- the value of the parent has been set, which is no property
        obtain ⟨hgrown', hall', v', hv', hprops⟩ := h.set_value hgrown hv v.parent value'
        rw [← hprops]
        exact hall'.update_iff hgrown' hv' _ ps
    rw [hstored]
    constructor
    · rintro hnew _ ⟨⟩
      next v' _ hv' _ =>
      rw [hv, Option.some_inj] at hv'
      exact hv' ▸ hnew
    · exact fun hgiven ↦ hgiven _ (.handle_update hv hrun)
  · rw [after_of_error hrun]
    refine iff_of_true h ?_
    rintro _ ⟨⟩
    next haccepted =>
    rw [hrun] at haccepted
    exact absurd haccepted (by simp)

theorem obey_all_iff (w : WrapperRegistry) (o : Observer) (m : Message)
    (hgrown : Grown t.session.store.entries) (h : t.session.store.All P) :
    ((obey w o m).after t).session.store.All P ↔
      ∀ ps, (Operation.handle o m).Gives w t ps → P ps := by
  rcases m with ⟨parent, value, asked, id, noWatch, unbound⟩ | ⟨id, value, ps⟩ | id | id | id | _
  · rw [obey, after_discard, create_all_iff w (some o) _ h]
    refine forall_congr' fun ps ↦ imp_congr_left ⟨.handle_create, ?_⟩
    rintro ⟨⟩
    assumption
  · exact update_all_iff w o value ps hgrown h
  · refine iff_of_true ?_ (by rintro ps ⟨⟩)
    by_cases hc : t.session.store.contains id = true
    · rw [after, obey_watch, if_pos hc, ← after]
      exact (SessionState.show_touches (watch_shows w o id true t)).all_iff.mpr h
    · rw [after, obey_watch, if_neg hc]
      exact h
  · refine iff_of_true ?_ (by rintro ps ⟨⟩)
    rw [obey, after_of_ok (unwatch_run o id t)]
    exact (t.session.unwatched_touches o id).all_iff.mpr h
  · refine iff_of_true ?_ (by rintro ps ⟨⟩)
    rw [obey, after_of_ok (destroy_run (some o) id t)]
    exact h.destroy id
  · exact iff_of_true h (by rintro ps ⟨⟩)

/-- **The properties of all variables stay of a kind exactly if an operation gives none of another
kind.** -/
theorem Operation.all_iff (op : Operation σ) (hgrown : Grown t.session.store.entries)
    (h : t.session.store.All P) :
    ((op.part w).after t).session.store.All P ↔ ∀ ps, op.Gives w t ps → P ps := by
  rcases op with ⟨o, m⟩ | ⟨creator, request⟩ | ⟨requester, id⟩ | o | _ | f
  · rw [part, session_handle]
    exact obey_all_iff w o m hgrown h
  · rw [part, after_discard]
    exact create_all_iff w creator request h
  · refine iff_of_true ?_ (by rintro ps ⟨⟩)
    rw [part, after_of_ok (destroy_run requester id t)]
    exact h.destroy id
  · refine iff_of_true ?_ (by rintro ps ⟨⟩)
    rw [part, after_discard, after_of_ok (unwatchAll_run o t)]
    exact (t.session.unwatchedAll_touches o).all_iff.mpr h
  · refine iff_of_true ?_ (by rintro ps ⟨⟩)
    rw [part, after_discard]
    exact (SessionState.touches_of_steps SessionState.note_touches
      (detectChanges_steps w t)).all_iff.mpr h
  · exact iff_of_true h (by rintro ps ⟨⟩)

end Operations

/-! ## Reads that fail -/

/-- What a variable with a readable path presents comes from what its parent presents. -/
theorem Turn.presented_of_path {v : Variable} {raw : String} {path : Path}
    (hgrown : Grown t.session.store.entries) (hv : t.session.store.get? id = some v)
    (hraw : v.path? = some raw) (hpath : Path.parse raw = .ok path) {base : Json} {t' : Turn σ}
    (hbase : parentValue w v.parent t = .ok base t') :
    t.presented w id = v.presentFrom w path (.ok base, t'.app) := by
  rw [Turn.presented, hgrown.presentedIn_of_parse hv hraw hpath, ← get?_eq_findIn, ← contains]
  rw [parentValue, bind_run, store_run] at hbase
  simp only at hbase
  split at hbase
  · next hc =>
    rw [if_pos hc]
    rcases hp : t.presented w v.parent with ⟨halt | b, app⟩
    · rw [presentedValue_of_error hp] at hbase
      exact absurd hbase (by simp)
    · rw [presentedValue_of_ok hp, EStateM.Result.ok.injEq] at hbase
      obtain ⟨rfl, rfl⟩ := hbase
      rw [Turn.presented] at hp
      rw [hp]
  · next hc =>
    rw [if_neg hc]
    obtain ⟨rfl, rfl⟩ := EStateM.Result.ok.inj hbase
    rfl

/-- A variable whose path cannot be followed from an object presents null. -/
theorem Turn.present_of_failed {v : Variable} {raw : String} {path : Path}
    (hgrown : Grown t.session.store.entries) (hv : t.session.store.get? id = some v)
    (hraw : v.path? = some raw) (hpath : Path.parse raw = .ok path) {base : Json} {t' : Turn σ}
    (hbase : parentValue w v.parent t = .ok base t') {r : ObjectRef}
    (hobject : ObjectRef.ofJson? base = some r) {reason : String}
    (hfailed : (Application.resolve t'.app r path.segments).1 = .failed reason) :
    ∃ t'', present w id t = .ok (w.present v.wrapper? .null v.properties) t'' := by
  have hpresented := presented_of_path hgrown hv hraw hpath hbase
  rcases hresolve : Application.resolve t'.app r path.segments with ⟨reply, app⟩
  rw [hresolve] at hfailed
  obtain rfl : reply = .failed reason := hfailed
  simp only [Variable.presentFrom, readPath, hobject, hresolve] at hpresented
  exact ⟨_, present_of_ok hpresented⟩

/-! ## Runs

For a run it is enough to know the texts that it carries, whatever is made of them: paths that can
be read stay readable. -/

/-- Whether all texts that an operation carries for the path of a variable are paths. -/
def Operation.CarriesPaths : Operation σ → Prop
  | .handle _ (.create _ _ ps _ _ _) | .handle _ (.update _ _ ps) => ps.ArePaths
  | .create _ request => request.properties.ArePaths
  | _ => True

private theorem Operation.Gives.readable {op : Operation σ} {ps : Properties} (h : op.Gives w t ps)
    (hop : op.CarriesPaths) (hall : t.session.store.All Properties.Readable) : ps.Readable := by
  induction h with
  | create passes params => exact readable_withPathParams hop params
  | handle_create _ ih => exact ih hop
  | handle_update found _ => exact Properties.readable_apply hop (hall _ (mem_of_get? found))

theorem Turn.Reachable.readable_run (h : t.Reachable w)
    (hall : t.session.store.All Properties.Readable) {ops : List (Operation σ)}
    (hops : ∀ op ∈ ops, op.CarriesPaths) :
    (t.run w ops).session.store.All Properties.Readable := by
  induction ops generalizing t with
  | nil => exact hall
  | cons op ops ih =>
    rw [List.forall_mem_cons] at hops
    have hstep : ((op.part w).after t).session.store.All Properties.Readable :=
      (op.all_iff h.grown hall).mpr fun _ hgives ↦ hgives.readable hops.1 hall
    exact ih (h.step op) hstep hops.2

omit [Application σ] in
theorem Turn.readable_fresh (root : Json) (app : σ) :
    (Turn.fresh root app).session.store.All Properties.Readable := by
  rw [Turn.fresh, Store.All, SessionState.entries_withRoot, List.forall_mem_singleton]
  intro raw hraw
  have hroot : (Variable.root root).properties = .empty := rfl
  rw [hroot, KeyMap.get?_empty] at hraw
  exact absurd hraw (by simp)

/-- **What can be presented.** A variable can be presented exactly if the texts of all paths that
are read for it are paths; a path that cannot be followed from an object gives null. Every variable
can be presented at any time, exactly if no operation ever gives a variable a path text that is not
a path; and none does if all texts carried for the path, in whatever tier, are paths. -/
theorem presentable_iff (w : WrapperRegistry) (root : Json) (app : σ) (ops : List (Operation σ)) :
    (∀ id, ((Turn.fresh root app).run w ops).session.store.contains id = true →
      (((Turn.fresh root app).run w ops).Shows w id ↔
        ∀ v ∈ ((Turn.fresh root app).run w ops).session.store.readFor id,
          v.properties.Readable)) ∧
    (∀ id v raw path base t' r reason,
      ((Turn.fresh root app).run w ops).session.store.get? id = some v → v.path? = some raw →
      Path.parse raw = .ok path →
      parentValue w v.parent ((Turn.fresh root app).run w ops) = .ok base t' →
      ObjectRef.ofJson? base = some r →
      (Application.resolve t'.app r path.segments).1 = .failed reason →
      ∃ t'', present w id ((Turn.fresh root app).run w ops)
        = .ok (w.present v.wrapper? .null v.properties) t'') ∧
    ((∀ before, before <+: ops → ∀ id,
        ((Turn.fresh root app).run w before).session.store.contains id = true →
        ((Turn.fresh root app).run w before).Shows w id) ↔
      ∀ before op, before ++ [op] <+: ops → ∀ ps,
        op.Gives w ((Turn.fresh root app).run w before) ps → ps.Readable) ∧
    ((∀ op ∈ ops, op.CarriesPaths) → ∀ id,
      ((Turn.fresh root app).run w ops).session.store.contains id = true →
      ((Turn.fresh root app).run w ops).Shows w id) := by
  have hgrown (ops : List (Operation σ)) :
      Grown ((Turn.fresh root app).run w ops).session.store.entries :=
    ((Turn.Reachable.fresh root app).run ops).grown
  refine ⟨fun id hc ↦ Turn.shows_iff (hgrown ops) hc, ?_, ?_, fun hops ↦ ?_⟩
  · intro id v raw path base t' r reason hv hraw hpath hbase hobject hfailed
    exact Turn.present_of_failed (hgrown ops) hv hraw hpath hbase hobject hfailed
  · simp only [Turn.shows_all_iff (hgrown _)]
    -- every operation keeps all paths readable exactly if it gives none that is not
    exact forall_prefix_foldl_iff (P := fun t ↦ t.session.store.All Properties.Readable)
      (C := fun t (op : Operation σ) ↦ ∀ ps, op.Gives w t ps → ps.Readable)
      (Turn.readable_fresh root app) fun before op hbefore ↦ op.all_iff (hgrown before) hbefore
  · rw [Turn.shows_all_iff (hgrown ops)]
    exact (Turn.Reachable.fresh root app).readable_run (Turn.readable_fresh root app) hops

/-- An update that stores a text that is not a path. -/
def ContactBook.unread : List (Operation ObjectSpace) := [
  .handle "a" (.create rootId none (.ofList [("path", "name")]) (some 2) true false),
  .handle "a" (.update 2 none (.ofList [("path", "a.@b")]))]

/-- The update is not refused, and then the variable cannot be presented. -/
theorem unread_not_presented :
    (ContactBook.turn.run .standard ContactBook.unread).session.store.contains 2 = true ∧
    (ContactBook.turn.run .standard ContactBook.unread).dispatch = [] ∧
    ∃ e t', present .standard 2 (ContactBook.turn.run .standard ContactBook.unread)
      = .error (.refused e) t' :=
  ⟨by decide +kernel, by decide +kernel, _, _, rfl⟩

end ReactiveVars
