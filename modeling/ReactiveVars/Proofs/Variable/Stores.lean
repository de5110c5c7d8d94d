import ReactiveVars.Variable.Store

/-!
# What a store finds after a change

Each change of a store is described by what `get?` finds afterwards. A change keeps the number of
every variable it touches, so the look-up of one number never depends on what happens to another.
-/

namespace ReactiveVars.IdSource

/-! ## Ascending numbers -/

variable {ids : IdSource}

/-- An ascending source goes on behind the number that it gives out. -/
theorem vend_of_ascending (h : ids.ascending = true) :
    ids.vend.2.ascending = true ∧ ids.next < ids.vend.2.next := by
  refine ⟨h, ?_⟩
  rw [vend, h]
  exact Int.lt_add_one_of_le (Int.le_refl ids.next)

theorem observe_of_ascending (h : ids.ascending = true) (id : VarId) :
    (ids.observe id).ascending = true ∧ ids.next ≤ (ids.observe id).next ∧
      id < (ids.observe id).next := by
  rw [observe, if_pos h]
  split
  · next hle =>
    exact ⟨h, Int.le_trans hle (Int.le_add_one (Int.le_refl id)),
      Int.lt_add_one_of_le (Int.le_refl id)⟩
  · next hlt => exact ⟨h, Int.le_refl _, Int.not_le.mp hlt⟩

end ReactiveVars.IdSource

namespace ReactiveVars.Store

variable {s s' : Store} {id k : VarId}

/-! ## Look-ups in lists of variables

A store lists its latest variable first and looks for a number from there. The look-up is stated for
lists, since changes map, filter and extend the list. -/

/-- The first variable with a number in a list. -/
def findIn (id : VarId) (vs : List Variable) : Option Variable := vs.find? fun v ↦ v.id = id

theorem get?_eq_findIn (s : Store) (id : VarId) : s.get? id = findIn id s.entries := rfl

@[simp] theorem findIn_nil (id : VarId) : findIn id [] = none := rfl

theorem findIn_cons (id : VarId) (v : Variable) (vs : List Variable) :
    findIn id (v :: vs) = if v.id = id then some v else findIn id vs := by
  rw [findIn, List.find?_cons]
  by_cases h : v.id = id <;> simp [h, findIn]

theorem id_of_findIn {v : Variable} {vs : List Variable} (h : findIn id vs = some v) :
    v.id = id := by
  simpa using List.find?_some h

theorem mem_of_findIn {v : Variable} {vs : List Variable} (h : findIn id vs = some v) : v ∈ vs :=
  List.mem_of_find?_eq_some h

theorem findIn_map (vs : List Variable) {f : Variable → Variable} (hf : ∀ v, (f v).id = v.id)
    (id : VarId) : findIn id (vs.map f) = (findIn id vs).map f := by
  induction vs with
  | nil => rfl
  | cons v vs ih =>
    rw [List.map_cons, findIn_cons, findIn_cons, hf, ih]
    by_cases h : v.id = id <;> simp [h]

theorem findIn_filter (vs : List Variable) (p : VarId → Bool) (id : VarId) :
    findIn id (vs.filter fun v ↦ p v.id) = if p id then findIn id vs else none := by
  induction vs with
  | nil => simp
  | cons v vs ih =>
    rw [List.filter_cons, findIn_cons]
    by_cases hv : v.id = id
    · subst hv
      by_cases hp : p v.id = true
      · simp [hp, findIn_cons]
      · simp [hp, ih]
    · by_cases hp : p v.id = true
      · rw [if_pos hp, findIn_cons, if_neg hv, ih, if_neg hv]
      · rw [if_neg hp, ih, if_neg hv]

/-! ## Look-ups in stores -/

theorem contains_iff : s.contains id = true ↔ ∃ v, s.get? id = some v := by
  rw [contains, Option.isSome_iff_exists]

theorem contains_eq_false_iff : s.contains id = false ↔ s.get? id = none := by
  rw [contains, Option.isSome_eq_false_iff, Option.isNone_iff_eq_none]

theorem id_of_get? {v : Variable} (h : s.get? id = some v) : v.id = id := id_of_findIn h

theorem mem_of_get? {v : Variable} (h : s.get? id = some v) : v ∈ s.entries := mem_of_findIn h

theorem get?_modify (s : Store) (id : VarId) {f : Variable → Variable} (hf : ∀ v, (f v).id = v.id)
    (k : VarId) : (s.modify id f).get? k = if id = k then (s.get? k).map f else s.get? k := by
  rw [get?_eq_findIn, modify, findIn_map _ (fun v ↦ by split <;> simp [hf]), ← get?_eq_findIn]
  cases hk : s.get? k with
  | none => simp
  | some v =>
    have hv : v.id = k := id_of_get? hk
    by_cases h : id = k
    · subst h; simp [hv]
    · simp [hv, h, Ne.symm h]

theorem contains_modify (s : Store) (id : VarId) {f : Variable → Variable}
    (hf : ∀ v, (f v).id = v.id) (k : VarId) : (s.modify id f).contains k = s.contains k := by
  rw [contains, get?_modify s id hf, contains]
  split <;> simp

theorem modify_modify (s : Store) (id : VarId) {f : Variable → Variable} (hf : ∀ v, (f v).id = v.id)
    (g : Variable → Variable) : (s.modify id f).modify id g = s.modify id fun v ↦ g (f v) := by
  simp only [modify, List.map_map]
  congr 2
  funext v
  by_cases hid : v.id = id <;> simp [hid, hf]

theorem modify_self (s : Store) (id : VarId) : (s.modify id fun v ↦ v) = s := by
  simp [modify]

theorem get?_setActive (s : Store) (id : VarId) (active : Bool) (k : VarId) :
    (s.setActive id active).get? k
      = if id = k then (s.get? k).map (fun v ↦ { v with active := active }) else s.get? k := by
  refine get?_modify s id ?_ k
  exact fun _ ↦ rfl

theorem contains_setActive (s : Store) (id : VarId) (active : Bool) (k : VarId) :
    (s.setActive id active).contains k = s.contains k := by
  refine contains_modify s id ?_ k
  exact fun _ ↦ rfl

/-! ## Insertion

An insertion checks the number and the parent and then adds the variable in front. The equations say
when it succeeds and what it leaves, so that no caller has to open the checks. -/

theorem checkNew_eq_ok_iff {parent : VarId} :
    s.checkNew id parent = .ok () ↔
      id ≠ noParent ∧ s.contains id = false ∧ (parent = noParent ∨ s.contains parent = true) := by
  rw [checkNew]
  by_cases hid : id = noParent <;> by_cases hc : s.contains id = true <;>
    by_cases hp : parent = noParent <;> by_cases hpc : s.contains parent = true <;>
    simp [hid, hc, hp, hpc]

/-- The variable that an insertion adds. -/
def newVariable (id : VarId) (new : NewVariable) : Variable :=
  ⟨id, new.parent, new.value, new.properties.apply .empty, new.unbound, false⟩

theorem insertAs_eq_ok_iff {new : NewVariable} :
    s.insertAs id new = .ok s' ↔ s.checkNew id new.parent = .ok () ∧
      s' = ⟨newVariable id new :: s.entries, s.ids.observe id⟩ := by
  rw [insertAs]
  cases s.checkNew id new.parent with
  | error e => simp [Except.map]
  | ok _ => simp [Except.map, newVariable, eq_comm]

theorem insertAs_eq_error_iff {new : NewVariable} {e : SyncError} :
    s.insertAs id new = .error e ↔ s.checkNew id new.parent = .error e := by
  rw [insertAs]
  rcases s.checkNew id new.parent with e' | _ <;> simp [Except.map]

private theorem observe_vend (ids : IdSource) : ids.vend.2.observe ids.vend.1 = ids.vend.2 := by
  obtain ⟨next, ascending⟩ := ids
  cases ascending with
  | true =>
    have hlt : ¬ next + 1 ≤ next := Int.not_le.mpr (Int.lt_add_one_of_le (Int.le_refl _))
    simp [IdSource.vend, IdSource.observe, hlt]
  | false =>
    have hlt : ¬ next ≤ next - 1 := Int.not_le.mpr (Int.sub_one_lt_of_le (Int.le_refl _))
    simp [IdSource.vend, IdSource.observe, hlt]

/-- An insertion under a number that is given out. -/
theorem insert_vended (s : Store) (parent : VarId) (value : Json) (ps : Properties)
    (unbound : Bool) : s.insert ⟨none, parent, value, ps, unbound⟩
      = match s.checkNew s.ids.next parent with
        | .ok () => (.ok s.ids.next,
          ⟨newVariable s.ids.next ⟨none, parent, value, ps, unbound⟩ :: s.entries, s.ids.vend.2⟩)
        | .error e => (.error e, s.vend.2) := by
  have hcheck : s.vend.2.checkNew s.vend.1 parent = s.checkNew s.ids.next parent := rfl
  rw [insert]
  simp only [insertAs, hcheck]
  cases s.checkNew s.ids.next parent with
  | error e => rfl
  | ok _ =>
    simp only [Except.map, newVariable]
    exact congrArg _ (congrArg _ (observe_vend s.ids))

/-! ## Updates -/

theorem update_eq_ok_iff {value : Option Json} {ps : Properties} :
    s.update id value ps = .ok s' ↔
      s.contains id = true ∧ s' = s.modify id fun v ↦ v.update value ps := by
  rw [update]
  cases h : s.contains id with
  | true => rw [if_pos rfl, Except.ok.injEq, eq_comm, eq_self, true_and]
  | false => simp

/-! ## Destruction -/

theorem destroy_of_contains (h : s.contains id = true) :
    s.destroy id = (below id s.entries.reverse ++ [id],
      { s with entries :=
          s.entries.filter fun v ↦ v.id ∉ below id s.entries.reverse ++ [id] }) := by
  rw [destroy, if_pos h]

theorem destroy_of_not_contains (h : s.contains id = false) : s.destroy id = ([], s) := by
  rw [destroy, if_neg (by simp [h])]

theorem destroy_fst_eq_nil_iff : (s.destroy id).1 = [] ↔ s.contains id = false := by
  cases h : s.contains id with
  | true => simp [destroy_of_contains h]
  | false => simp [destroy_of_not_contains h]

theorem mem_destroy_self (h : s.contains id = true) : id ∈ (s.destroy id).1 := by
  rw [destroy_of_contains h]
  simp

theorem contains_of_mem_destroy (h : k ∈ (s.destroy id).1) : s.contains id = true := by
  rw [← Bool.not_eq_false]
  intro hc
  rw [destroy_of_not_contains hc] at h
  exact absurd h (by simp)

/-- Exactly the removed numbers are gone. -/
theorem get?_destroy (s : Store) (id k : VarId) :
    (s.destroy id).2.get? k = if k ∈ (s.destroy id).1 then none else s.get? k := by
  cases h : s.contains id with
  | false => simp [destroy_of_not_contains h]
  | true =>
    rw [destroy_of_contains h, get?_eq_findIn]
    have hfilter := findIn_filter s.entries
      (fun x ↦ decide (x ∉ below id s.entries.reverse ++ [id])) k
    rw [hfilter]
    by_cases hk : k ∈ below id s.entries.reverse ++ [id]
    · simp only [hk, not_true_eq_false, decide_false, Bool.false_eq_true, if_false, if_true]
    · simp only [hk, not_false_eq_true, decide_true, if_true, if_false]
      rfl

end ReactiveVars.Store
