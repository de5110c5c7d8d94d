import ReactiveVars.Proofs.Variable.Forest

/-!
# Replaying messages on a store

A store can be told of creates, updates and destroys and follows them. What it has in the end is
known by its *outline*, the numbers, parents and values of its variables; the outline after a change
depends on the outline before it alone.

A create may be moved ahead of changes that do not name the new variable, as long as its parent
outlives them: no change that takes the parent away is overtaken, and one that does not take the
parent away does not take the new variable away either.

## Main statements

* `outline_changeAll`: stores with one outline still have one after the same changes.
* `changeAll_cons`: a variable that changes do not name, and whose parent outlives them, may be
  added ahead of them.
-/

namespace ReactiveVars

/-- The variable with number, parent and value alone. -/
def Variable.plain (v : Variable) : Variable := ⟨v.id, v.parent, v.value, .empty, false, false⟩

/-- The variable that an update or a destroy names. -/
def Message.changed? : Message → Option VarId
  | .update id _ _ | .destroy id => some id
  | _ => none

namespace Store

/-! ## Replaying messages -/

/-- What a message other than a create does to a store; an update or a destroy of an unknown number
does nothing. -/
def change (s : Store) : Message → Store
  | .update id value ps => (s.update id value ps).toOption.getD s
  | .destroy id => (s.destroy id).2
  | _ => s

/-- What a message does to a store, unless it is a create that is refused. -/
def follow (s : Store) : Message → Except SyncError Store
  | .create parent value ps id _ unbound =>
    match s.insert ⟨id, parent, value.getD .null, ps, unbound⟩ with
    | (.ok _, s') => .ok s'
    | (.error e, _) => .error e
  | m => .ok (s.change m)

/-- What messages in order do to a store, unless a create among them is refused. -/
def replay (s : Store) (ms : List Message) : Except SyncError Store := ms.foldlM follow s

/-- What messages other than creates do to a store. -/
def changeAll (s : Store) (ms : List Message) : Store := ms.foldl change s

variable {s s' : Store} {id k : VarId} {m : Message} {ms : List Message} {v v' : Variable}

theorem replay_append {t : Store} {ms' : List Message} (h : s.replay ms = .ok t) :
    s.replay (ms ++ ms') = t.replay ms' := by
  rw [replay, List.foldlM_append, ← replay, h]
  rfl

private theorem follow_of_not_immediate (h : m.isImmediate = false) (s : Store) :
    s.follow m = .ok (s.change m) := by
  cases m with
  | create => exact absurd h (by simp [Message.isImmediate])
  | _ => rfl

theorem replay_create {parent : VarId} (h : s.checkNew id parent = .ok ()) (value : Option Json)
    (ps : Properties) (noWatch : Bool) :
    s.replay [.create parent value ps (some id) noWatch false]
      = .ok ⟨newVariable id ⟨none, parent, value.getD .null, ps, false⟩ :: s.entries,
        s.ids.observe id⟩ := by
  have hinsert : s.insertAs id ⟨some id, parent, value.getD .null, ps, false⟩ = .ok
      ⟨newVariable id ⟨none, parent, value.getD .null, ps, false⟩ :: s.entries,
        s.ids.observe id⟩ :=
    insertAs_eq_ok_iff.mpr ⟨h, rfl⟩
  rw [replay, List.foldlM_cons, follow, Store.insert]
  simp only [hinsert]
  rfl

theorem replay_of_not_immediate (h : ∀ m ∈ ms, m.isImmediate = false) (s : Store) :
    s.replay ms = .ok (s.changeAll ms) := by
  induction ms generalizing s with
  | nil => rfl
  | cons m ms ih =>
    rw [List.forall_mem_cons] at h
    rw [replay, List.foldlM_cons, follow_of_not_immediate h.1]
    exact ih h.2 _

/-- What changes a store changes only variables that it has. -/
theorem change_update (s : Store) (id : VarId) (value : Option Json) (ps : Properties) :
    s.change (.update id value ps)
      = if s.contains id then s.modify id fun v ↦ v.update value ps else s := by
  rw [change, update]
  split <;> rfl

theorem ids_change (s : Store) (m : Message) : (s.change m).ids = s.ids := by
  cases m with
  | update id value ps =>
    rw [change_update]
    split <;> rfl
  | destroy id =>
    rw [change, destroy]
    split <;> rfl
  | _ => rfl

theorem unbound_of_mem_change (h : ∀ v ∈ s.entries, v.unbound = false)
    (hv : v ∈ (s.change m).entries) : v.unbound = false := by
  cases m with
  | update id value ps =>
    rw [change_update] at hv
    split at hv
    · obtain ⟨u, hu, rfl⟩ := List.mem_map.mp hv
      split
      · exact h u hu
      · exact h u hu
    · exact h v hv
  | destroy id =>
    rw [change, destroy] at hv
    split at hv
    · exact h v (List.mem_filter.mp hv).1
    · exact h v hv
  | _ => exact h v hv

theorem contains_of_contains_change (h : (s.change m).contains k = true) : s.contains k = true := by
  cases m with
  | update id value ps =>
    rw [change_update] at h
    split at h
    · rwa [contains_modify s id (f := fun v ↦ v.update value ps) fun _ ↦ rfl] at h
    · exact h
  | destroy id =>
    rw [change, contains, get?_destroy] at h
    split at h
    · exact absurd h (by simp)
    · exact h
  | _ => exact h

theorem contains_of_contains_changeAll (h : (s.changeAll ms).contains k = true) :
    s.contains k = true := by
  induction ms generalizing s with
  | nil => exact h
  | cons m ms ih => exact contains_of_contains_change (ih h)

theorem Grown.change (h : Grown s.entries) (m : Message) : Grown (s.change m).entries := by
  cases m with
  | update id value ps =>
    rw [change_update]
    split
    · exact h.modify id (fun _ ↦ rfl) fun _ ↦ rfl
    · exact h
  | destroy id => exact h.destroy id
  | _ => exact h

theorem Grown.changeAll (h : Grown s.entries) (ms : List Message) :
    Grown (s.changeAll ms).entries := by
  induction ms generalizing s with
  | nil => exact h
  | cons m ms ih => exact ih (h.change m)

/-! ## What a replay is about

Suspension, watchers and properties of a variable do not matter to its descendants, and of an update
only the value shows. So changes may be compared by outlines. -/

/-- The store with numbers, parents and values alone. -/
def outline (s : Store) : Store := ⟨s.entries.map Variable.plain, .backend⟩

theorem get?_outline (s : Store) (k : VarId) :
    s.outline.get? k = (s.get? k).map Variable.plain :=
  findIn_map s.entries (f := Variable.plain) (fun _ ↦ rfl) k

theorem contains_outline (s : Store) (k : VarId) : s.outline.contains k = s.contains k := by
  rw [contains, get?_outline, Option.isSome_map, contains]

private theorem outline_outline (s : Store) : s.outline.outline = s.outline := by
  rw [outline, outline, List.map_map]
  rfl

theorem parent_value_eq_of_outline_eq (h : s.outline = s'.outline) (k : VarId) :
    (s.get? k).map (fun v ↦ (v.parent, v.value))
      = (s'.get? k).map fun v ↦ (v.parent, v.value) := by
  have hplain (s : Store) : (s.get? k).map (fun v ↦ (v.parent, v.value))
      = (s.outline.get? k).map fun v ↦ (v.parent, v.value) := by
    rw [get?_outline, Option.map_map]
    rfl
  rw [hplain, h, ← hplain]

theorem contains_eq_of_outline_eq (h : s.outline = s'.outline) (k : VarId) :
    s.contains k = s'.contains k := by
  rw [← contains_outline, h, contains_outline]

theorem outline_cons (h : s.outline = s'.outline) {ids ids' : IdSource}
    (hv : (v.id, v.parent, v.value) = (v'.id, v'.parent, v'.value)) :
    outline ⟨v :: s.entries, ids⟩ = outline ⟨v' :: s'.entries, ids'⟩ := by
  simp only [Prod.mk.injEq] at hv
  simp only [outline, mk.injEq, and_true] at h
  rw [outline, outline, List.map_cons, List.map_cons, h, Variable.plain, Variable.plain, hv.1,
    hv.2.1, hv.2.2]

private theorem below_map (vs : List Variable) {f : Variable → Variable}
    (hid : ∀ v, (f v).id = v.id)
    (hparent : ∀ v, (f v).parent = v.parent) (id : VarId) : below id (vs.map f) = below id vs := by
  induction vs generalizing id with
  | nil => rfl
  | cons v vs ih => rw [List.map_cons, below, below, hid, hparent, ih, ih]

theorem outline_change_update (s : Store) (id : VarId) (value : Option Json) (ps : Properties) :
    (s.change (.update id value ps)).outline
      = if s.contains id then s.outline.modify id fun v ↦ { v with value := value.getD v.value }
        else s.outline := by
  rw [change_update]
  split
  · simp only [outline, modify, List.map_map, mk.injEq, and_true]
    refine List.map_congr_left fun v _ ↦ ?_
    by_cases hv : v.id = id <;>
      simp [hv, Variable.plain, Variable.update, Variable.applyProperties]
  · rfl

theorem outline_change_update_none (s : Store) (id : VarId) (ps : Properties) :
    (s.change (.update id none ps)).outline = s.outline := by
  simp [outline_change_update, modify]

/-- The outline after a change depends on the outline alone. -/
theorem outline_change (s : Store) (m : Message) :
    (s.change m).outline = (s.outline.change m).outline := by
  cases m with
  | update id value ps =>
    rw [outline_change_update, outline_change_update, contains_outline, outline_outline]
  | destroy id =>
    rw [change, change]
    cases hc : s.contains id with
    | true =>
      have hbelow : below id (s.entries.map Variable.plain).reverse
          = below id s.entries.reverse := by
        rw [← List.map_reverse, below_map _ (f := Variable.plain) (fun _ ↦ rfl) fun _ ↦ rfl]
      rw [destroy_of_contains hc, destroy_of_contains (by rwa [contains_outline])]
      simp only [outline, hbelow, List.filter_map, List.map_map]
      rfl
    | false =>
      rw [destroy_of_not_contains hc, destroy_of_not_contains (by rwa [contains_outline])]
      exact (outline_outline s).symm
  | _ => exact (outline_outline s).symm

theorem outline_changeAll (h : s.outline = s'.outline) (ms : List Message) :
    (s.changeAll ms).outline = (s'.changeAll ms).outline := by
  induction ms generalizing s s' with
  | nil => exact h
  | cons m ms ih => exact ih (by rw [outline_change, h, ← outline_change])

/-! ## A create ahead of changes

A new variable stands in front of the list. Updates and destructions go through the list and leave
it there, so the variables afterwards are the same in the same order. -/

/-- A destruction does not take the number away that stands for no parent. -/
theorem Grown.noParent_not_mem_destroy (h : Grown s.entries) (id : VarId) :
    noParent ∉ (s.destroy id).1 := by
  intro hmem
  have hc := contains_of_mem_destroy hmem
  rw [destroy_of_contains hc, List.mem_append, List.mem_singleton] at hmem
  rcases hmem with hbelow | rfl
  · obtain ⟨u, hu, huid⟩ := exists_of_mem_below hbelow
    exact h.id_ne_noParent hu huid
  · exact h.ne_noParent_of_contains hc rfl

/-- A destruction removes the same variables without a variable whose parent stays. -/
theorem destroy_cons (hfresh : findIn v.id s.entries = none) (hid : v.id ≠ id)
    (hparent : v.parent ∉ (s.destroy id).1) (ids : IdSource) :
    (destroy ⟨v :: s.entries, ids⟩ id).2 = ⟨v :: (s.destroy id).2.entries, ids⟩ := by
  have hcontains : contains ⟨v :: s.entries, ids⟩ id = s.contains id := by
    rw [contains, get?_eq_findIn, findIn_cons, if_neg hid, ← get?_eq_findIn, contains]
  cases hc : s.contains id with
  | false => rw [destroy_of_not_contains hc, destroy_of_not_contains (hcontains.trans hc)]
  | true =>
    rw [destroy_of_contains hc, List.mem_append, List.mem_singleton, not_or] at hparent
    have hbelow (k : VarId) : k ∈ below id (v :: s.entries).reverse ↔
        k ∈ below id s.entries.reverse := by
      rw [mem_below_reverse_cons]
      exact or_iff_left fun h ↦ h.2.elim (fun h ↦ hparent.2 h) hparent.1
    have hstays : v.id ∉ below id s.entries.reverse := fun hmem ↦
      (exists_of_mem_below hmem).elim fun u hu ↦ findIn_eq_none_iff.mp hfresh u hu.1 hu.2
    rw [destroy_of_contains hc, destroy_of_contains (hcontains.trans hc)]
    simp only [List.mem_append, List.mem_singleton, hbelow, List.filter_cons, hstays, hid, or_self,
      not_false_eq_true, decide_true, if_true]

/-- An update or a destroy of another variable does not touch a new one, unless it takes the parent
away. -/
theorem change_cons (hs : Grown s.entries) (hfresh : findIn v.id s.entries = none)
    (hname : m.changed? ≠ some v.id)
    (hparent : v.parent = noParent ∨ (s.change m).contains v.parent = true) (ids : IdSource) :
    change ⟨v :: s.entries, ids⟩ m = ⟨v :: (s.change m).entries, ids⟩ := by
  cases m with
  | update id value ps =>
    have hid : v.id ≠ id := fun h ↦ hname (by rw [h]; rfl)
    have hcontains : contains ⟨v :: s.entries, ids⟩ id = s.contains id := by
      rw [contains, get?_eq_findIn, findIn_cons, if_neg hid, ← get?_eq_findIn, contains]
    rw [change_update, change_update, hcontains]
    split
    · rw [modify, modify, List.map_cons, if_neg hid]
    · rfl
  | destroy id =>
    refine destroy_cons hfresh (fun h ↦ hname (by rw [h]; rfl)) ?_ ids
    rcases hparent with hzero | hkept
    · -- nothing has the number that stands for no parent
      rw [hzero]
      exact hs.noParent_not_mem_destroy id
    · intro hmem
      rw [change, contains, get?_destroy, if_pos hmem] at hkept
      exact absurd hkept (by simp)
  | _ => rfl

/-- **A new variable may be added ahead of changes** that do not name it, if its parent outlives
them. -/
theorem changeAll_cons (hs : Grown s.entries) (hfresh : findIn v.id s.entries = none)
    (hname : ∀ m ∈ ms, m.changed? ≠ some v.id)
    (hparent : v.parent = noParent ∨ (s.changeAll ms).contains v.parent = true) (ids : IdSource) :
    changeAll ⟨v :: s.entries, ids⟩ ms = ⟨v :: (s.changeAll ms).entries, ids⟩ := by
  induction ms generalizing s with
  | nil => rfl
  | cons m ms ih =>
    rw [List.forall_mem_cons] at hname
    have hstep := change_cons hs hfresh hname.1
      (hparent.imp_right contains_of_contains_changeAll) ids
    have hfresh' : findIn v.id (s.change m).entries = none := by
      rw [← get?_eq_findIn, ← contains_eq_false_iff, ← Bool.not_eq_true]
      intro hc
      rw [← get?_eq_findIn, ← contains_eq_false_iff, contains_of_contains_change hc] at hfresh
      exact absurd hfresh (by simp)
    rw [changeAll, List.foldl_cons, hstep]
    exact ih (hs.change m) hfresh' hname.2 hparent

end Store

end ReactiveVars
