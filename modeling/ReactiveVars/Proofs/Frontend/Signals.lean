import ReactiveVars.Proofs.Frontend.Actions

/-!
# When a frontend subscribes

A frontend tells the backend that it begins to watch a variable, by a create or a watch, and that it
ends to, by an unwatch. What any step does to one variable is an *effect*: whether the variable is
there and bound, whether it is watched, and the signal that is emitted. Whoever acts, and whatever a
batch does, the signal tells exactly whether the variable has begun or ceased to be watched.

This rests on tidiness: only variables that are there are watched, so a variable that enters is not
watched yet.

## Main statements

* `Tidy.act`: what an action other than a batch does to every variable.
* `Tidy.applyMessage`: what a message from the backend does.
-/

namespace ReactiveVars

/-- The signal of a message about a variable: `true` to begin to watch it, `false` to end. -/
def Message.signal? (id : VarId) : Message → Option Bool
  | .create _ _ _ k noWatch _ => if k = some id ∧ noWatch = false then some true else none
  | .watch k => if k = id then some true else none
  | .unwatch k => if k = id then some false else none
  | _ => none

/-- Whether a variable is unbound, `none` if it is not there. -/
def Store.kind? (s : Store) (id : VarId) : Option Bool := (s.get? id).map Variable.unbound

namespace Store

variable {s : Store} {id k : VarId}

theorem contains_eq_isSome_kind? (s : Store) (id : VarId) :
    s.contains id = (s.kind? id).isSome := by
  rw [contains, kind?, Option.isSome_map]

theorem kind?_modify (s : Store) (id : VarId) {f : Variable → Variable}
    (hid : ∀ v, (f v).id = v.id) (hunbound : ∀ v, (f v).unbound = v.unbound) (k : VarId) :
    (s.modify id f).kind? k = s.kind? k := by
  rw [kind?, get?_modify s id hid, kind?]
  split
  · rw [Option.map_map]
    exact congrArg (Option.map · _) (funext hunbound)
  · rfl

theorem kind?_destroy (s : Store) (id k : VarId) :
    (s.destroy id).2.kind? k = if k ∈ (s.destroy id).1 then none else s.kind? k := by
  rw [kind?, get?_destroy, kind?]
  split <;> rfl

theorem kind?_cons (s : Store) (v : Variable) (ids : IdSource) (k : VarId) :
    kind? ⟨v :: s.entries, ids⟩ k = if v.id = k then some v.unbound else s.kind? k := by
  rw [kind?, get?_eq_findIn, findIn_cons, kind?, get?_eq_findIn]
  split <;> rfl

end Store

namespace LocalStore

variable {l l' : LocalStore} {id k : VarId} {e : Option Bool}

theorem isUnbound_eq_kind? (l : LocalStore) (id : VarId) :
    l.isUnbound id = (l.store.kind? id).getD false := rfl

theorem kind?_eq_some_true_iff : l.store.kind? id = some true ↔ l.isUnbound id = true := by
  rw [isUnbound_eq_kind?]
  cases l.store.kind? id <;> simp

theorem kind?_eq_some_false_iff :
    l.store.kind? id = some false ↔ l.store.contains id = true ∧ l.isUnbound id = false := by
  rw [isUnbound_eq_kind?, Store.contains_eq_isSome_kind?]
  cases l.store.kind? id <;> simp

/-! ## Reports and effects

Two things happen in a step, to the watchers of a variable and in the outbox, and `Effect` ties them
together for one variable. Of a variable that goes it says nothing. One that comes was not watched
before, since only variables that are there are. -/

/-- The message that an action reports. -/
def Action.report? (l : LocalStore) : Action → Option Message
  | .create _ parent value ps o unbound =>
    match l.store.checkNew l.store.ids.next parent with
    | .ok () => if unbound then none
      else some (.create parent value ps (some l.store.ids.next) o.isNone false)
    | .error _ => none
  | .update _ id value ps =>
    if l.store.contains id && !l.isUnbound id then some (.update id value ps) else none
  | .watch _ id o =>
    if l.store.contains id && (l.tally.watch id o).1.edge && !l.isUnbound id then some (.watch id)
    else none
  | .unwatch _ id o =>
    if (l.tally.unwatch id o).1.edge && !l.isUnbound id then some (.unwatch id) else none
  | .destroy _ id => if l.store.contains id && !l.isUnbound id then some (.destroy id) else none
  | _ => none

theorem outbox_applyMessage (l : LocalStore) (m : Message) :
    (l.applyMessage m).2.outbox = l.outbox := by
  cases m with
  | create parent value ps id noWatch unbound =>
    cases id with
    | none => rfl
    | some id =>
      rw [applyMessage]
      split <;> rfl
  | update id value ps =>
    rw [applyMessage]
    split <;> rfl
  | _ => rfl

/-- What becomes of an outbox: a message that is reported is queued, and without one at most what
waits is sent. -/
def Takes (o o' : Outbox) : Option Message → Prop
  | some m => ∃ now, o' = o.queue now m
  | none => o' = o ∨ ∃ userEvent, o' = o.flush userEvent

private theorem takes_if (o : Outbox) (c : Bool) (now : Nat) (m : Message) :
    Takes o (if c then o.queue now m else o) (if c then some m else none) := by
  cases c with
  | true => exact ⟨now, rfl⟩
  | false => exact .inl rfl

/-- **Nothing else enters the outbox than what is reported.** -/
theorem outbox_act (l : LocalStore) (a : Action) :
    Takes l.outbox (l.act a).outbox (a.report? l) := by
  cases a with
  | create now parent value ps o unbound =>
    rw [Action.report?]
    split
    · next hcheck =>
      rw [act_create_of_ok hcheck]
      cases unbound with
      | true => exact .inl rfl
      | false => exact ⟨now, rfl⟩
    · next hcheck =>
      rw [act_create_of_error hcheck]
      exact .inl rfl
  | update now id value ps =>
    cases hc : l.store.contains id with
    | false =>
      rw [act_update_of_not_contains hc, Action.report?, hc]
      exact .inl rfl
    | true =>
      rw [act_update_of_contains hc, Action.report?, hc]
      cases l.isUnbound id with
      | true => exact .inl rfl
      | false => exact ⟨now, rfl⟩
  | watch now id o =>
    cases hc : l.store.contains id with
    | false =>
      rw [act_watch_of_not_contains hc, Action.report?, hc]
      exact .inl rfl
    | true =>
      rw [act_watch_of_contains hc, Action.report?, hc, Bool.true_and]
      exact takes_if _ _ _ _
  | unwatch now id o =>
    rw [act_unwatch]
    exact takes_if _ _ _ _
  | destroy now id =>
    rw [act_destroy]
    exact takes_if _ _ _ _
  -- what a batch tells is taken in message by message, and none of it is reported
  | apply b =>
    refine .inl ?_
    rw [act_apply]
    induction b.ordered generalizing l with
    | nil => rfl
    | cons m ms ih => rw [List.foldl_cons, ih, outbox_applyMessage]
  | poll now =>
    rw [act_poll]
    split
    · exact .inr ⟨false, rfl⟩
    · exact .inl rfl
  | flushUserEvent => exact .inr ⟨true, rfl⟩

/-- What a step does to one variable while a signal is emitted about it. -/
structure Effect (l l' : LocalStore) (id : VarId) (e : Option Bool) : Prop where
  /-- A variable that stays is bound or unbound as before. -/
  kept : ∀ u u', l.store.kind? id = some u → l'.store.kind? id = some u' → u' = u
  /-- About an unbound variable there is no signal. -/
  silent : l'.store.kind? id = some true → e = none
  /-- About a bound one the signal tells what has become of its watchers. -/
  edge : l'.store.kind? id = some false →
    e = if l'.tally.hasWatcher id = l.tally.hasWatcher id then none
      else some (l'.tally.hasWatcher id)

/-- Only variables that are there are watched, and their numbers are not given out again. -/
structure Tidy (l : LocalStore) : Prop where
  watched : ∀ id, l.tally.hasWatcher id = true → l.store.contains id = true
  ascending : l.store.ids.ascending = true
  fresh : ∀ id, l.store.contains id = true → id < l.store.ids.next

/-- What a step does that emits signals about variables. -/
structure Step (l l' : LocalStore) (e : VarId → Option Bool) : Prop where
  tidy : l'.Tidy
  next_le : l.store.ids.next ≤ l'.store.ids.next
  effect : ∀ id, Effect l l' id (e id)

theorem Tidy.hasWatcher_eq_false (h : l.Tidy) (hid : l.store.kind? id = none) :
    l.tally.hasWatcher id = false := by
  rw [← Bool.not_eq_true]
  intro hw
  have hc := h.watched id hw
  rw [Store.contains_eq_isSome_kind?, hid] at hc
  exact absurd hc (by simp)

/-- A step that leaves a variable and its watchers alone. -/
theorem effect_none (hkind : l'.store.kind? id = l.store.kind? id)
    (hwatched : l'.tally.hasWatcher id = l.tally.hasWatcher id) : Effect l l' id none := by
  refine ⟨fun u u' hu hu' ↦ ?_, fun _ ↦ rfl, fun _ ↦ ?_⟩
  · rw [hkind, hu, Option.some_inj] at hu'
    exact hu'.symm
  · rw [if_pos hwatched]

theorem Tidy.stay (h : l.Tidy) : Step l l fun _ ↦ none :=
  ⟨h, Int.le_refl _, fun _ ↦ effect_none rfl rfl⟩

/-! ## Steps that change variables

There are four ways in which a step can change the store and the tally. The actions and the messages
are then instances of these. -/

theorem Tidy.modify (h : l.Tidy) (id : VarId) {f : Variable → Variable}
    (hid : ∀ v, (f v).id = v.id) (hunbound : ∀ v, (f v).unbound = v.unbound) (o : Outbox) :
    Step l ⟨l.store.modify id f, l.tally, o⟩ fun _ ↦ none := by
  refine ⟨⟨fun k hk ↦ ?_, h.ascending, fun k hk ↦ ?_⟩, Int.le_refl _,
    fun k ↦ effect_none ?_ rfl⟩
  · rw [Store.contains_modify _ _ hid]
    exact h.watched k hk
  · rw [Store.contains_modify _ _ hid] at hk
    exact h.fresh k hk
  · exact Store.kind?_modify _ _ hid hunbound k

/-- A destruction, with which the watchers of what is removed are forgotten. -/
theorem Tidy.destroy (h : l.Tidy) (id : VarId) (o : Outbox) :
    Step l ⟨(l.store.destroy id).2, l.tally.forgetAll (l.store.destroy id).1, o⟩
      fun _ ↦ none := by
  have hids : (l.store.destroy id).2.ids = l.store.ids := by
    rw [Store.destroy]
    split <;> rfl
  have hcontains (k : VarId) : (l.store.destroy id).2.contains k
      = (!decide (k ∈ (l.store.destroy id).1) && l.store.contains k) := by
    rw [Store.contains, Store.get?_destroy, Store.contains]
    by_cases hk : k ∈ (l.store.destroy id).1 <;> simp [hk]
  refine ⟨⟨fun k hk ↦ ?_, by rw [hids]; exact h.ascending, fun k hk ↦ ?_⟩,
    Int.le_of_eq (congrArg IdSource.next hids.symm), fun k ↦ ?_⟩
  · rw [WatchTally.hasWatcher_forgetAll, Bool.and_eq_true] at hk
    rw [hcontains, hk.1, h.watched k hk.2]
    rfl
  · rw [hcontains, Bool.and_eq_true] at hk
    rw [hids]
    exact h.fresh k hk.2
  · by_cases hk : k ∈ (l.store.destroy id).1
    · -- what is removed is not there afterwards
      have hgone : (l.store.destroy id).2.kind? k = none := by
        rw [Store.kind?_destroy, if_pos hk]
      refine ⟨fun u u' _ hu' ↦ ?_, fun _ ↦ rfl, fun hu' ↦ ?_⟩
      · exact absurd (hgone.symm.trans hu') (by simp)
      · exact absurd (hgone.symm.trans hu') (by simp)
    · refine effect_none ?_ ?_
      · rw [Store.kind?_destroy, if_neg hk]
      · rw [WatchTally.hasWatcher_forgetAll, decide_eq_false hk]
        rfl

/-- A new variable, whose number is not given out again. -/
theorem Tidy.add (h : l.Tidy) {v : Variable} {ids : IdSource} (hasc : ids.ascending = true)
    (hnext : l.store.ids.next ≤ ids.next) (hv : v.id < ids.next) {tally : WatchTally}
    (htally : ∀ k, v.id ≠ k → tally.hasWatcher k = l.tally.hasWatcher k) (o : Outbox) :
    Tidy ⟨⟨v :: l.store.entries, ids⟩, tally, o⟩ ∧
      ∀ k, v.id ≠ k → Effect l ⟨⟨v :: l.store.entries, ids⟩, tally, o⟩ k none := by
  refine ⟨⟨fun k hk ↦ ?_, hasc, fun k hk ↦ ?_⟩, fun k hk ↦ effect_none ?_ (htally k hk)⟩
  · rw [Store.contains_eq_isSome_kind?, Store.kind?_cons]
    split
    · rfl
    · next hne =>
      rw [htally k hne] at hk
      rw [← Store.contains_eq_isSome_kind?]
      exact h.watched k hk
  · rw [Store.contains_eq_isSome_kind?, Store.kind?_cons] at hk
    split at hk
    · next heq =>
      rw [← heq]
      exact hv
    · rw [← Store.contains_eq_isSome_kind?] at hk
      exact Int.lt_of_lt_of_le (h.fresh k hk) hnext
  · rw [Store.kind?_cons, if_neg hk]

theorem Tidy.count (h : l.Tidy) {tally : WatchTally} (hid : l.store.contains id = true)
    (htally : ∀ k, id ≠ k → tally.hasWatcher k = l.tally.hasWatcher k) (o : Outbox) :
    Tidy ⟨l.store, tally, o⟩ ∧ ∀ k, id ≠ k → Effect l ⟨l.store, tally, o⟩ k none := by
  refine ⟨⟨fun k hk ↦ ?_, h.ascending, h.fresh⟩, fun k hk ↦ effect_none rfl (htally k hk)⟩
  by_cases hne : id = k
  · rw [← hne]
    exact hid
  · exact h.watched k (htally k hne ▸ hk)

/-! ## Actions -/

theorem effect_self {store : Store} {tally : WatchTally} {o : Outbox}
    (hkept : ∀ u, l.store.kind? id = some u → store.kind? id = some u)
    (hsilent : store.kind? id = some true → e = none)
    (hedge : store.kind? id = some false →
      e = if tally.hasWatcher id = l.tally.hasWatcher id then none
        else some (tally.hasWatcher id)) :
    Effect l ⟨store, tally, o⟩ id e :=
  ⟨fun u _ hu hu' ↦ Option.some_inj.mp (hu'.symm.trans (hkept u hu)), hsilent, hedge⟩

theorem Tidy.create (h : l.Tidy) (now : Nat) (parent : VarId) (value : Option Json)
    (ps : Properties) (o : Option Observer) (unbound : Bool) :
    Step l (l.act (.create now parent value ps o unbound)) fun k ↦
      ((Action.create now parent value ps o unbound).report? l).bind (Message.signal? k) := by
  obtain ⟨hascending, hlt⟩ := IdSource.vend_of_ascending h.ascending
  have hle : l.store.ids.next ≤ l.store.ids.vend.2.next := Int.le_of_lt hlt
  cases hcheck : l.store.checkNew l.store.ids.next parent with
  | error err =>
    rw [act_create_of_error hcheck, Action.report?, hcheck]
    exact ⟨⟨h.watched, hascending, fun k hk ↦ Int.lt_of_lt_of_le (h.fresh k hk) hle⟩, hle,
      fun k ↦ effect_none rfl rfl⟩
  | ok _ =>
    rw [act_create_of_ok hcheck, Action.report?, hcheck]
    simp only
    have hnew : l.store.kind? l.store.ids.next = none := by
      have hfree := (Store.checkNew_eq_ok_iff.mp hcheck).2.1
      rwa [Store.contains_eq_isSome_kind?, Option.isSome_eq_false_iff,
        Option.isNone_iff_eq_none] at hfree
    -- the number is free, so nobody watches it yet and the first watcher makes an edge
    have hunwatched := h.hasWatcher_eq_false hnew
    obtain ⟨htidy, heffect⟩ := h.add
      (v := Store.newVariable l.store.ids.next ⟨none, parent, value.getD .null, ps, unbound⟩)
      hascending hle hlt
      (fun k (hk : ¬ l.store.ids.next = k) ↦ by
        rw [WatchTally.hasWatcher_join, decide_eq_false hk, Bool.and_false, Bool.false_or])
      (if unbound then l.outbox
        else l.outbox.queue now (.create parent value ps (some l.store.ids.next) o.isNone false))
    refine ⟨htidy, hle, fun k ↦ ?_⟩
    by_cases hk : l.store.ids.next = k
    · subst hk
      have hkind : Store.kind? ⟨Store.newVariable l.store.ids.next
          ⟨none, parent, value.getD .null, ps, unbound⟩ :: l.store.entries, l.store.ids.vend.2⟩
          l.store.ids.next = some unbound := by
        rw [Store.kind?_cons]
        exact if_pos rfl
      refine effect_self (fun u hu ↦ ?_) ?_ ?_
      · exact absurd (hnew.symm.trans hu) (by simp)
      · rw [hkind, Option.some_inj]
        intro hunbound
        rw [if_pos hunbound]
        rfl
      · rw [hkind, Option.some_inj, WatchTally.hasWatcher_join, hunwatched]
        intro hbound
        cases o <;> simp [hbound, Message.signal?]
    · have hsilent : (if unbound then none else some (Message.create parent value ps
          (some l.store.ids.next) o.isNone false)).bind (Message.signal? k) = none := by
        cases unbound <;> simp [Message.signal?, hk]
      rw [hsilent]
      exact heffect k hk

theorem Tidy.update (h : l.Tidy) (now : Nat) (id : VarId) (value : Option Json) (ps : Properties) :
    Step l (l.act (.update now id value ps)) fun k ↦
      ((Action.update now id value ps).report? l).bind (Message.signal? k) := by
  have hsilent (k : VarId) :
      ((Action.update now id value ps).report? l).bind (Message.signal? k) = none := by
    rw [Action.report?]
    split <;> rfl
  simp only [hsilent]
  cases hc : l.store.contains id with
  | true =>
    rw [act_update_of_contains hc]
    exact h.modify id (f := fun v ↦ v.update value ps) (fun _ ↦ rfl) (fun _ ↦ rfl) _
  | false =>
    rw [act_update_of_not_contains hc]
    exact h.stay

theorem Tidy.watch (h : l.Tidy) (now : Nat) (id : VarId) (o : Observer) :
    Step l (l.act (.watch now id o)) fun k ↦
      ((Action.watch now id o).report? l).bind (Message.signal? k) := by
  cases hc : l.store.contains id with
  | false =>
    rw [act_watch_of_not_contains hc, Action.report?, hc]
    exact h.stay
  | true =>
    obtain ⟨htidy, heffect⟩ := h.count hc
      (fun k hk ↦ by rw [WatchTally.hasWatcher_watch _ _ o, decide_eq_false hk, Bool.false_or])
      (if (l.tally.watch id o).1.edge && !l.isUnbound id then l.outbox.queue now (.watch id)
        else l.outbox)
    rw [act_watch_of_contains hc, Action.report?, hc, Bool.true_and]
    refine ⟨htidy, Int.le_refl _, fun k ↦ ?_⟩
    by_cases hk : id = k
    · subst hk
      refine effect_self (fun u hu ↦ hu) (fun hunbound ↦ ?_) fun hbound ↦ ?_
      · rw [isUnbound_eq_kind?, hunbound]
        simp
      · rw [isUnbound_eq_kind?, hbound, WatchTally.edge_watch_eq, WatchTally.hasWatcher_watch]
        cases l.tally.hasWatcher id <;> simp [Message.signal?]
    · have hsilent : (if (l.tally.watch id o).1.edge && !l.isUnbound id
          then some (Message.watch id) else none).bind (Message.signal? k) = none := by
        split <;> simp [Message.signal?, hk]
      rw [hsilent]
      exact heffect k hk

theorem Tidy.unwatch (h : l.Tidy) (now : Nat) (id : VarId) (o : Observer) :
    Step l (l.act (.unwatch now id o)) fun k ↦
      ((Action.unwatch now id o).report? l).bind (Message.signal? k) := by
  have hwatchers := WatchTally.hasWatcher_unwatch l.tally id o
  rw [act_unwatch, Action.report?]
  refine ⟨⟨fun k hk ↦ ?_, h.ascending, h.fresh⟩, Int.le_refl _, fun k ↦ ?_⟩
  · rw [hwatchers, Bool.and_eq_true] at hk
    exact h.watched k hk.2
  · by_cases hk : id = k
    · subst hk
      refine effect_self (fun u hu ↦ hu) (fun hunbound ↦ ?_) fun hbound ↦ ?_
      · rw [isUnbound_eq_kind?, hunbound]
        simp
      · rw [isUnbound_eq_kind?, hbound, hwatchers]
        cases hedge : (l.tally.unwatch id o).1.edge with
        | false => simp
        | true =>
          rw [WatchTally.hasWatcher_of_edge_unwatch hedge]
          simp [Message.signal?]
    · have hsilent : (if (l.tally.unwatch id o).1.edge && !l.isUnbound id
          then some (Message.unwatch id) else none).bind (Message.signal? k) = none := by
        split <;> simp [Message.signal?, hk]
      rw [hsilent]
      exact effect_none rfl (by rw [hwatchers, decide_eq_false hk]; rfl)

/-- **What an action does to the variables.** A batch is left out here, which may take a variable
out and in again. -/
theorem Tidy.act (h : l.Tidy) {a : Action} (ha : ∀ b, a ≠ .apply b) :
    Step l (l.act a) fun k ↦ (a.report? l).bind (Message.signal? k) := by
  cases a with
  | create now parent value ps o unbound => exact h.create now parent value ps o unbound
  | update now id value ps => exact h.update now id value ps
  | watch now id o => exact h.watch now id o
  | unwatch now id o => exact h.unwatch now id o
  | destroy now id =>
    have hsilent (k : VarId) :
        ((Action.destroy now id).report? l).bind (Message.signal? k) = none := by
      rw [Action.report?]
      split <;> rfl
    simp only [hsilent]
    rw [act_destroy]
    exact h.destroy id _
  | apply b => exact absurd rfl (ha b)
  | poll now =>
    rw [act_poll]
    exact ⟨⟨h.watched, h.ascending, h.fresh⟩, Int.le_refl _, fun _ ↦ effect_none rfl rfl⟩
  | flushUserEvent =>
    exact ⟨⟨h.watched, h.ascending, h.fresh⟩, Int.le_refl _, fun _ ↦ effect_none rfl rfl⟩

/-- What a signal is reported about: a create that subscribes has the next number, and any other
signal an earlier one. -/
theorem Tidy.signal_of_report? (h : l.Tidy) {a : Action} {m : Message} (hm : a.report? l = some m)
    {b : Bool} (hb : m.signal? id = some b) :
    if m.isImmediate then id = l.store.ids.next else id < l.store.ids.next := by
  cases a with
  | create now parent value ps o unbound =>
    rw [Action.report?] at hm
    split at hm
    · rw [← Option.some_inj.mp (Option.ite_none_left_eq_some.mp hm).2, Message.signal?] at hb
      rw [← Option.some_inj.mp (Option.ite_none_left_eq_some.mp hm).2]
      exact (Option.some_inj.mp (Option.ite_none_right_eq_some.mp hb).1.1).symm
    · exact absurd hm (by simp)
  | update now k value ps =>
    rw [← Option.some_inj.mp (Option.ite_none_right_eq_some.mp hm).2] at hb
    exact absurd hb (by simp [Message.signal?])
  | watch now k o =>
    obtain ⟨hc, hm⟩ := Option.ite_none_right_eq_some.mp hm
    rw [← Option.some_inj.mp hm] at hb ⊢
    rw [Bool.and_assoc, Bool.and_eq_true] at hc
    rw [← (Option.ite_none_right_eq_some.mp hb).1]
    exact h.fresh k hc.1
  | unwatch now k o =>
    obtain ⟨hc, hm⟩ := Option.ite_none_right_eq_some.mp hm
    rw [← Option.some_inj.mp hm] at hb ⊢
    rw [Bool.and_eq_true] at hc
    rw [← (Option.ite_none_right_eq_some.mp hb).1]
    -- whoever was the last to watch watched a variable that is there
    exact h.fresh k (h.watched k (WatchTally.hasWatcher_of_edge_unwatch hc.1))
  | destroy now k =>
    rw [← Option.some_inj.mp (Option.ite_none_right_eq_some.mp hm).2] at hb
    exact absurd hb (by simp [Message.signal?])
  | _ => exact absurd hm (by simp [Action.report?])

/-! ## Messages from the backend -/

/-- What a message from the backend does to the variables, without any signal. -/
theorem Tidy.applyMessage (h : l.Tidy) (m : Message) :
    Step l (l.applyMessage m).2 fun _ ↦ none := by
  have hupdate (id : VarId) (value : Option Json) (ps : Properties) {s : Store}
      (hs : l.store.update id value ps = .ok s) :
      Step l { l with store := s } fun _ ↦ none := by
    rw [(Store.update_eq_ok_iff.mp hs).2]
    exact h.modify id (f := fun v ↦ v.update value ps) (fun _ ↦ rfl) (fun _ ↦ rfl) _
  cases m with
  | create parent value ps id noWatch unbound =>
    cases id with
    | none => exact h.stay
    | some id =>
      rw [LocalStore.applyMessage, takeIn]
      split
      · next s hs =>
        split at hs
        · exact hupdate id value ps hs
        · next hnew =>
          rw [(Store.insertAs_eq_ok_iff.mp hs).2]
          obtain ⟨hasc, hle, hlt⟩ := IdSource.observe_of_ascending h.ascending id
          obtain ⟨htidy, heffect⟩ := h.add
            (v := Store.newVariable id ⟨some id, parent, value.getD .null, ps, unbound⟩)
            hasc hle hlt (fun _ _ ↦ rfl) l.outbox
          refine ⟨htidy, hle, fun k ↦ ?_⟩
          by_cases hk : id = k
          · subst hk
            -- the variable was not there, so nobody watched it
            refine effect_self (fun u hu ↦ ?_) (fun _ ↦ rfl) fun _ ↦ (if_pos rfl).symm
            rw [Store.contains_eq_isSome_kind?, hu] at hnew
            exact absurd rfl hnew
          · exact heffect k hk
      · exact h.stay
  | update id value ps =>
    rw [LocalStore.applyMessage]
    split
    · next s hs => exact hupdate id value ps hs
    · exact h.stay
  | destroy id => exact h.destroy id l.outbox
  | _ => exact h.stay

end LocalStore

end ReactiveVars
