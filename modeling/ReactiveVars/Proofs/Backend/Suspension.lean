import ReactiveVars.Proofs.Backend.Settling
import ReactiveVars.Proofs.Variable.ChildLists
import ReactiveVars.Proofs.Variable.Lineages

/-!
# Suspended variables are frozen

A variable is suspended when it or one of its ancestors has the property that suspends. A value can
reach a variable in four ways: by an update of it, by an update of a child whose path is written
into the value of its parent, by being presented, and by a detection. Suspension closes all of them,
for whatever is above a variable is above its children too.

`Turn.Leaves` says what a step does to a suspended variable, namely nothing that anyone could tell
from its value. Steps neither add variables nor move them, so the variable stays below the one that
suspends it, and what holds of a step holds of a run.

## Main statement

* `suspended_frozen`: what updates and detections do as long as a variable is suspended.
-/

namespace ReactiveVars

open TurnM Relation

/-! ## Stores that retain values

All variables keep their number and their parent, and those that are asked for keep their value.
Their properties may change, so that a variable stays suspended has to be said apart. -/

namespace Store

variable {s s' s'' : Store} {which : VarId → Prop} {id k : VarId}

/-- The value that is stored for a variable. -/
def value? (s : Store) (id : VarId) : Option Json := (s.get? id).map Variable.value

/-- Whether a store is the result of changes that keep the number and the parent of every variable,
and the value of those with some numbers. -/
def Retains (which : VarId → Prop) (s s' : Store) : Prop :=
  ∃ f : Variable → Variable, s'.entries = s.entries.map f ∧
    ∀ v, (f v).id = v.id ∧ (f v).parent = v.parent ∧ (which v.id → (f v).value = v.value)

theorem Retains.refl (which : VarId → Prop) (s : Store) : s.Retains which s := by
  refine ⟨fun v ↦ v, ?_, fun v ↦ ⟨rfl, rfl, fun _ ↦ rfl⟩⟩
  rw [List.map_id']

theorem Retains.trans (h : s.Retains which s') (h' : s'.Retains which s'') :
    s.Retains which s'' := by
  obtain ⟨f, hf, hkeep⟩ := h
  obtain ⟨g, hg, hkeep'⟩ := h'
  refine ⟨fun v ↦ g (f v), ?_, fun v ↦ ?_⟩
  · rw [hg, hf, List.map_map]
    rfl
  · obtain ⟨hid, hparent, hvalue⟩ := hkeep v
    obtain ⟨hid', hparent', hvalue'⟩ := hkeep' (f v)
    refine ⟨hid'.trans hid, hparent'.trans hparent, fun hv ↦ ?_⟩
    rw [hvalue' (hid ▸ hv), hvalue hv]

theorem retains_modify (s : Store) (id : VarId) {f : Variable → Variable}
    (hid : ∀ v, (f v).id = v.id) (hparent : ∀ v, (f v).parent = v.parent)
    (hvalue : which id → ∀ v, (f v).value = v.value) : s.Retains which (s.modify id f) := by
  refine ⟨fun v ↦ if v.id = id then f v else v, rfl, fun v ↦ ?_⟩
  by_cases hv : v.id = id
  · simp only [if_pos hv]
    exact ⟨hid v, hparent v, fun hw ↦ hvalue (hv ▸ hw) v⟩
  · simp only [if_neg hv, implies_true, and_self]

theorem Retains.value? (h : s.Retains which s') (hid : which id) : s'.value? id = s.value? id := by
  obtain ⟨f, hf, hkeep⟩ := h
  rw [Store.value?, get?_eq_findIn, hf, findIn_map _ fun v ↦ (hkeep v).1, Store.value?,
    get?_eq_findIn]
  rcases hv : findIn id s.entries with _ | v
  · rfl
  · rw [Option.map_some, Option.map_some, Option.map_some]
    exact congrArg some ((hkeep v).2.2 (id_of_findIn hv ▸ hid))

/-- The numbers of the lineage stay the same. -/
theorem Retains.lineage (h : s.Retains which s') (id : VarId) :
    (s'.lineage id).map Variable.id = (s.lineage id).map Variable.id := by
  obtain ⟨f, hf, hkeep⟩ := h
  rw [Store.lineage, hf, lineageIn_map _ (fun v ↦ (hkeep v).1) (fun v ↦ (hkeep v).2.1),
    List.map_map, Store.lineage]
  exact List.map_congr_left fun v _ ↦ (hkeep v).1

/-- Whether the variable with a number suspends itself and what is below it. -/
def suspends (s : Store) (a : VarId) : Bool := (s.get? a).any Variable.isSuspended

/-- A variable is suspended if one of its lineage suspends. -/
theorem Grown.isSuspended (h : Grown s.entries) {a x : VarId} (ha : s.suspends a = true)
    (hx : a ∈ (s.lineage x).map Variable.id) : s.isSuspended x = true := by
  obtain ⟨v, hv, hsuspended⟩ := (Option.any_eq_true _ _).mp ha
  obtain ⟨u, hu, rfl⟩ := List.mem_map.mp hx
  have hfound := h.findIn_of_mem ((lineageIn_sublist x s.entries).subset hu)
  rw [← get?_eq_findIn, hv, Option.some_inj] at hfound
  rw [Store.isSuspended, List.any_eq_true]
  exact ⟨u, hu, hfound ▸ hsuspended⟩

/-- What is suspended is not tracked. -/
theorem isTracked_of_isSuspended (h : s.isSuspended id = true) : s.isTracked id = false := by
  rw [Store.isSuspended, List.any_eq_true] at h
  obtain ⟨u, hu, hsuspended⟩ := h
  rw [isTracked, Bool.and_eq_false_iff, List.all_eq_false]
  exact .inr ⟨u, hu, by simp [hsuspended]⟩

/-- The children of a suspended variable are suspended. -/
theorem Grown.isSuspended_of_parent (h : Grown s.entries) {v : Variable}
    (hv : s.get? id = some v) (hparent : s.isSuspended v.parent = true) :
    s.isSuspended id = true := by
  rw [Store.isSuspended, Store.lineage, List.any_eq_true] at hparent ⊢
  obtain ⟨u, hu, hsuspended⟩ := hparent
  refine ⟨u, ?_, hsuspended⟩
  rw [h.lineageIn_eq hv]
  exact List.mem_cons_of_mem v hu

end Store

/-! ## Messages that carry values -/

/-- Whether a message carries a value of a variable. -/
def Message.carriesValueOf (id : VarId) : Message → Bool
  | .create _ value _ (some k) _ _ | .update k value _ => decide (k = id) && value.isSome
  | _ => false

/-- Whether no message carries a value of a variable. -/
def Dispatch.IsSilentOn (d : Dispatch) (id : VarId) : Prop :=
  ∀ e ∈ d, e.2.carriesValueOf id = false

private theorem Dispatch.isSilentOn_map {os : List Observer} {m : Message} {id : VarId}
    (h : m.carriesValueOf id = false) : Dispatch.IsSilentOn (os.map fun o ↦ (o, m)) id := by
  intro e he
  obtain ⟨o, -, rfl⟩ := List.mem_map.mp he
  exact h

/-! ## Steps that leave a variable alone

An operation goes through many steps, and what is sent on the way adds up. So `Turn.Leaves` compares
two turns; it is proved of each part by itself and composes. -/

section Steps

variable {σ : Type} {t t' t'' : Turn σ} {x : VarId}

/-- What a step from one turn to another leaves of a variable: where it hangs, its value and what is
on record for it, and nobody is sent a value of it. -/
structure Turn.Leaves (x : VarId) (t t' : Turn σ) : Prop where
  store : t.session.store.Retains (· = x) t'.session.store
  record : t'.session.record x = t.session.record x
  silent : ∃ sent : Dispatch, t'.dispatch = t.dispatch ++ sent ∧ sent.IsSilentOn x

theorem Turn.Leaves.refl (x : VarId) (t : Turn σ) : t.Leaves x t where
  store := .refl _ _
  record := rfl
  silent := ⟨[], (List.append_nil _).symm, by simp [Dispatch.IsSilentOn]⟩

theorem Turn.Leaves.trans (h : t.Leaves x t') (h' : t'.Leaves x t'') : t.Leaves x t'' := by
  obtain ⟨sent, hsent, hsilent⟩ := h.silent
  obtain ⟨sent', hsent', hsilent'⟩ := h'.silent
  refine ⟨h.store.trans h'.store, h'.record.trans h.record, sent ++ sent', ?_, ?_⟩
  · rw [hsent', hsent, List.append_assoc]
  · intro e he
    exact (List.mem_append.mp he).elim (hsilent e) (hsilent' e)

theorem Turn.leaves_of_dispatch_eq (hstore : t.session.store.Retains (· = x) t'.session.store)
    (hrecord : t'.session.record x = t.session.record x) (hdispatch : t'.dispatch = t.dispatch) :
    t.Leaves x t' :=
  ⟨hstore, hrecord, [], by rw [hdispatch, List.append_nil], by simp [Dispatch.IsSilentOn]⟩

variable [Application σ] {w : WrapperRegistry} {o : Observer} {id : VarId}

omit [Application σ] in
theorem leaves_bind {α β : Type} {m : TurnM σ α} {f : α → TurnM σ β}
    (h : t.Leaves x (m.after t)) (hf : ∀ a t', m t = .ok a t' → t'.Leaves x ((f a).after t')) :
    t.Leaves x ((m >>= f).after t) := by
  rw [after_bind]
  rcases hm : m t with ⟨a, t'⟩ | ⟨halt, t'⟩
  · rw [after_of_ok hm] at h
    exact h.trans (hf a t' hm)
  · rw [after_of_error hm] at h
    exact h

theorem leaves_handle {m : Message} (h : t.Leaves x ((obey w o m).after t)) :
    t.Leaves x ((handle w o m).after t) := by
  have hsession := session_handle w o m t
  refine h.trans ?_
  obtain hsame | ⟨e, t', -, hmore⟩ := dispatch_handle_cases w o m t
  · refine Turn.leaves_of_dispatch_eq ?_ ?_ hsame
    · rw [hsession]
      exact .refl _ _
    · rw [hsession]
  · refine ⟨?_, by rw [hsession], [(o, e.message)], hmore, ?_⟩
    · rw [hsession]
      exact .refl _ _
    · intro e' he'
      rw [List.mem_singleton.mp he']
      rfl

/-! ### Updates -/

theorem retains_update (s : Store) (id : VarId) (value : Option Json) (ps : Properties)
    (h : id = x → value = none) :
    s.Retains (· = x) (s.modify id fun v ↦ v.update value ps) := by
  refine s.retains_modify id (fun _ ↦ rfl) (fun _ ↦ rfl) fun hid v ↦ ?_
  rw [h hid]
  rfl

private theorem isSilentOn_relays (s : SessionState) (o : Observer) (id : VarId)
    (value : Option Json)
    (ps : Properties) (h : id = x → value = none) : (relays s o id value ps).IsSilentOn x := by
  rw [relays]
  split
  · refine Dispatch.isSilentOn_map ?_
    rw [Message.carriesValueOf, Bool.and_eq_false_iff, decide_eq_false_iff_not]
    by_cases hid : id = x
    · exact .inr (by rw [h hid]; rfl)
    · exact .inl hid
  · simp [Dispatch.IsSilentOn]

/-- **An update of any variable leaves a suspended one alone.** -/
theorem leaves_update (hgrown : Store.Grown t.session.store.entries)
    (hx : t.session.store.isSuspended x = true) (value : Option Json) (ps : Properties) :
    t.Leaves x ((update w o id value ps).after t) := by
  rcases hv : t.session.store.get? id with _ | v
  · rw [after_of_error (update_of_unknown hv value ps)]
    exact .refl x t
  rcases he : effectiveValue t.session.store id value with _ | new
  · rw [after_of_ok (update_of_none hv he ps)]
    exact ⟨retains_update _ id none ps fun _ ↦ rfl, rfl, _, rfl,
      isSilentOn_relays _ o id none ps fun _ ↦ rfl⟩
  -- the value counts, so neither the variable nor its parent is the suspended one
  have hactive : t.session.store.isSuspended id = false := (effectiveValue_eq_some_iff.mp he).1
  have hne : id ≠ x := by
    rintro rfl
    rw [hx] at hactive
    exact absurd hactive (by simp)
  have hparent : v.parent ≠ x := by
    rintro rfl
    rw [hgrown.isSuspended_of_parent hv hx] at hactive
    exact absurd hactive (by simp)
  have hrecord : (t.session.tracker.remember id new).cache.get? x
      = t.session.tracker.cache.get? x := by
    rw [Tracker.remember, KeyMap.get?_modify, if_neg hne]
  obtain ⟨t', hwritten, hrun⟩ | ⟨halt, app, hrun⟩ := update_of_some (w := w) (o := o) hv he ps
  · rw [after_of_ok hrun]
    have hsilent := isSilentOn_relays t.session o id (some new) ps fun hid ↦ absurd hid hne
    have hstored (s : Store) := retains_update s id (some new) ps fun hid ↦ absurd hid hne
    rcases hwritten with app | ⟨app, u, value', -, -⟩
    · exact ⟨hstored _, hrecord, _, rfl, hsilent⟩
    · refine ⟨.trans ?_ (hstored _), hrecord, _, rfl, hsilent⟩
      exact t.session.store.retains_modify v.parent (fun _ ↦ rfl) (fun _ ↦ rfl) fun hp ↦
        absurd hp hparent
  · rw [after_of_error hrun]
    exact Turn.leaves_of_dispatch_eq (.refl _ _) rfl rfl

/-- An update of a suspended variable changes no object and no value. -/
theorem inert_update (hx : t.session.store.isSuspended x = true) (value : Option Json)
    (ps : Properties) :
    ((handle w o (.update x value ps)).after t).app = t.app ∧
      ∀ k, ((handle w o (.update x value ps)).after t).session.store.value? k
        = t.session.store.value? k := by
  have hnone : effectiveValue t.session.store x value = none := by
    rw [effectiveValue, if_pos hx]
  rcases hv : t.session.store.get? x with _ | v
  · have hrun := update_of_unknown (w := w) (o := o) hv value ps
    rw [after, handle_run, obey_update, hrun]
    exact ⟨rfl, fun k ↦ rfl⟩
  · have hrun := update_of_none (w := w) (o := o) hv hnone ps
    rw [after, handle_run, obey_update, hrun]
    have hretains : t.session.store.Retains (fun _ ↦ True)
        (t.session.store.modify x fun v ↦ v.update none ps) :=
      t.session.store.retains_modify x (fun _ ↦ rfl) (fun _ ↦ rfl) fun _ _ ↦ rfl
    exact ⟨rfl, fun k ↦ hretains.value? trivial⟩

/-! ### Detections -/

theorem leaves_examine (hne : id ≠ x) : t.Leaves x ((examine w id).after t) := by
  rcases hp : t.presented w id with ⟨(e | _) | v, app⟩
  · rw [after_of_ok (examine_of_refused hp)]
    exact Turn.leaves_of_dispatch_eq (.refl _ _) rfl rfl
  · rw [after_of_error (examine_of_crashed hp)]
    exact Turn.leaves_of_dispatch_eq (.refl _ _) rfl rfl
  · rw [after_of_ok (examine_of_ok hp)]
    refine Turn.leaves_of_dispatch_eq ?_ ?_ rfl
    · refine t.session.store.retains_modify id ?_ ?_ fun hid ↦ absurd hid hne
      · intro u
        split <;> rfl
      · intro u
        split <;> rfl
    · show (t.session.tracker.activate id v).cache.get? x = t.session.tracker.cache.get? x
      rw [Tracker.get?_activate, if_neg hne]

private theorem id_of_examine {c : Change} (h : examine w id t = .ok (some c) t') : c.id = id := by
  rcases hp : t.presented w id with ⟨(e | _) | v, app⟩
  · rw [examine_of_refused hp] at h
    exact absurd h (by simp)
  · rw [examine_of_crashed hp] at h
    exact absurd h (by simp)
  · rw [examine_of_ok hp] at h
    rw [(Tracker.change?_eq_some_iff.mp (EStateM.Result.ok.inj h).1).2]

theorem leaves_examineAll {ids : List VarId} (h : x ∉ ids) :
    t.Leaves x ((examineAll w ids).after t) := by
  induction ids generalizing t with
  | nil => exact .refl x t
  | cons id ids ih =>
    rw [List.mem_cons, not_or] at h
    rw [examineAll]
    refine leaves_bind (leaves_examine (Ne.symm h.1)) fun change t' _ ↦ ?_
    exact leaves_bind (ih h.2) fun changes t'' _ ↦ .refl x t''

private theorem id_mem_of_examineAll {ids : List VarId} {changes : List Change}
    (h : examineAll w ids t = .ok changes t') : ∀ c ∈ changes, c.id ∈ ids := by
  induction ids generalizing t changes with
  | nil =>
    rw [← (EStateM.Result.ok.inj h).1]
    simp
  | cons id ids ih =>
    rw [examineAll_cons_run] at h
    rcases hexamine : examine w id t with ⟨change, t₁⟩ | ⟨halt, t₁⟩
    · rcases hall : examineAll w ids t₁ with ⟨rest, t₂⟩ | ⟨halt, t₂⟩
      · simp only [hexamine, hall, EStateM.Result.ok.injEq] at h
        intro c hc
        rw [← h.1, List.mem_append, Option.mem_toList] at hc
        rcases hc with hc | hc
        · rw [id_of_examine (hc ▸ hexamine)]
          exact List.mem_cons_self
        · exact List.mem_cons_of_mem id (ih (hall.trans (by rw [h.2])) c hc)
      · simp only [hexamine, hall] at h
        exact absurd h (by simp)
    · simp only [hexamine] at h
      exact absurd h (by simp)

/-- **A detection leaves a suspended variable alone.** -/
theorem leaves_detectChanges (hx : t.session.store.isSuspended x = true) :
    t.Leaves x ((detectChanges w).after t) := by
  have hnot : x ∉ t.session.examined := by
    rw [mem_examined_iff, Store.isTracked_of_isSuspended hx]
    simp
  obtain ⟨changes, hafter, hfound⟩ := detectChanges_after w t
  rw [hafter]
  refine (leaves_examineAll hnot).trans ⟨.refl _ _, rfl, _, rfl, ?_⟩
  rintro ⟨o, m⟩ he
  obtain ⟨c, hc, -, rfl⟩ := mem_tidings_iff.mp he
  obtain ⟨found, t', hexamined, hmem⟩ := hfound c hc
  have hne : c.id ≠ x := fun hid ↦ hnot (hid ▸ id_mem_of_examineAll hexamined c hmem)
  rw [Message.ofValue, Message.carriesValueOf, decide_eq_false hne, Bool.false_and]

end Steps

/-! ## Runs

The variable that suspends is updated itself, so it must be said of a run that it goes on
suspending. This is asked after each operation. -/

section Runs

variable {σ : Type} [Application σ] {w : WrapperRegistry} {t : Turn σ} {a x : VarId}

omit [Application σ] in
/-- Whether an operation is an update of an observer or a detection. -/
def Operation.isUpdateOrDetection : Operation σ → Bool
  | .handle _ (.update ..) | .detectChanges => true
  | _ => false

/-- Whether operations are updates and detections, and a variable suspends before each of them. -/
def Turn.Suspending (w : WrapperRegistry) (a : VarId) (t : Turn σ) : List (Operation σ) → Prop
  | [] => True
  | op :: ops => op.isUpdateOrDetection = true ∧ t.session.store.suspends a = true ∧
    ((op.part w).after t).Suspending w a ops

private theorem Turn.suspending_append {ops ops' : List (Operation σ)} :
    t.Suspending w a (ops ++ ops') ↔
      t.Suspending w a ops ∧ (t.run w ops).Suspending w a ops' := by
  induction ops generalizing t with
  | nil => rw [List.nil_append, Suspending, true_and]; rfl
  | cons op ops ih =>
    rw [List.cons_append, Suspending, ih, Suspending, and_assoc, and_assoc]
    rfl

/-- An update or a detection leaves what is below a variable that suspends. -/
theorem Operation.leaves {op : Operation σ} (hop : op.isUpdateOrDetection = true)
    (h : t.Attainable w) (hx : t.session.store.isSuspended x = true) :
    t.Leaves x ((op.part w).after t) := by
  rcases op with ⟨o, m⟩ | _ | _ | _ | _ | _
  case handle =>
    rcases m with _ | ⟨id, value, ps⟩ | _ | _ | _ | _
    case update => exact leaves_handle (leaves_update h.grown hx value ps)
    all_goals exact absurd hop (by simp [isUpdateOrDetection])
  case detectChanges =>
    rw [part, after_discard]
    exact leaves_detectChanges hx
  all_goals exact absurd hop (by simp [isUpdateOrDetection])

theorem Turn.Attainable.leaves_run (h : t.Attainable w) {ops : List (Operation σ)}
    (ha : a ∈ (t.session.store.lineage x).map Variable.id) (hops : t.Suspending w a ops) :
    t.Leaves x (t.run w ops) := by
  induction ops generalizing t with
  | nil => exact .refl x t
  | cons op ops ih =>
    obtain ⟨hop, hsuspends, hrest⟩ := hops
    have hstep := op.leaves hop h (h.grown.isSuspended hsuspends ha)
    -- the variable still hangs below the one that suspends it
    rw [← hstep.store.lineage x] at ha
    exact hstep.trans (ih (h.step op) ha hrest)

/-- **A variable is frozen** by operations from a turn on. -/
structure Turn.Frozen (w : WrapperRegistry) (x : VarId) (t : Turn σ) (ops : List (Operation σ)) :
    Prop where
  /-- Nobody is sent a value of it. -/
  silent : ∃ sent : Dispatch, (t.run w ops).dispatch = t.dispatch ++ sent ∧ sent.IsSilentOn x
  value : (t.run w ops).session.store.value? x = t.session.store.value? x
  record : (t.run w ops).session.record x = t.session.record x
  /-- Its updates change no object of the application and no value of any variable. -/
  inert : ∀ {before o value ps behind}, ops = before ++ .handle o (.update x value ps) :: behind →
    (t.run w (before ++ [.handle o (.update x value ps)])).app = (t.run w before).app ∧
      ∀ k, (t.run w (before ++ [.handle o (.update x value ps)])).session.store.value? k
        = (t.run w before).session.store.value? k

/-- **As long as a variable or one of its ancestors suspends, updates and detections leave it
frozen.** -/
theorem suspended_frozen (h : t.Attainable w) {ops : List (Operation σ)}
    (ha : a ∈ (t.session.store.lineage x).map Variable.id) (hops : t.Suspending w a ops) :
    t.Frozen w x ops := by
  have hleaves := h.leaves_run ha hops
  refine ⟨hleaves.silent, hleaves.store.value? rfl, hleaves.record, ?_⟩
  rintro before o value ps behind rfl
  obtain ⟨hbefore, -, hsuspends, -⟩ := Turn.suspending_append.mp hops
  have hattainable := h.run before
  rw [← (h.leaves_run ha hbefore).store.lineage x] at ha
  rw [Turn.run_append]
  exact inert_update (hattainable.grown.isSuspended hsuspends ha) value ps

end Runs

/-- A variable with a value of its own, which holds a person, and below it one that shows the name,
both watched; then the upper one is suspended. -/
def ContactBook.suspended : Turn ObjectSpace :=
  turn.run .standard [
    .handle "a" (.create rootId (some (.object [("name", .string "Bart")])) .empty (some 2) false
      false),
    .handle "b" (.create 2 none (.ofList [("path", "name")]) (some 3) false false),
    .handle "a" (.update 2 none (.ofList [("inactive", "true")]))]

/-- Neither an update of the name, which would be written into the value above, nor an update of
that value, nor a detection reaches it. -/
theorem suspended_contact_frozen :
    ContactBook.suspended.Attainable .standard ∧
      ContactBook.suspended.Frozen .standard 2 [
        .handle "b" (.update 3 (some (.string "Lisa")) .empty),
        .handle "b" (.update 2 (some .null) (.ofList [("note", "x")])), .detectChanges] := by
  have hattainable : ContactBook.suspended.Attainable .standard :=
    (Turn.Attainable.fresh _ _).run _
  refine ⟨hattainable, suspended_frozen (a := 2) hattainable (by decide +kernel) ?_⟩
  exact ⟨rfl, by decide +kernel, rfl, by decide +kernel, rfl, by decide +kernel, trivial⟩

end ReactiveVars
