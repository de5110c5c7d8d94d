import Mathlib.Tactic.Push
import Mathlib.Tactic.Tauto
import ReactiveVars.Proofs.Variable.Stores

/-!
# The variables of a store form a forest

Every variable has a number of its own, and its parent is older than it. `Grown` says so of a list
of variables of which the latest is first, by recursion on the list: each variable is new to the
older ones, and its parent, if it has one, is among them.

A grown list is read from its latest variable on. What a destruction removes can be read in the same
direction, although `below` goes the other way: adding a variable adds its number to the descendants
of those whose descendant its parent is. Both directions of the relation between `below` and
`lineage` follow by induction on the list.
-/

namespace ReactiveVars.Store

variable {id k : VarId} {v : Variable} {vs : List Variable}

/-- Every variable has a number of its own that is not zero, and its parent is older than it. -/
inductive Grown : List Variable → Prop
  | nil : Grown []
  | cons {v : Variable} {older : List Variable} (older_grown : Grown older)
    (nonzero : v.id ≠ noParent) (fresh : findIn v.id older = none)
    (rooted : v.parent = noParent ∨ (findIn v.parent older).isSome = true) : Grown (v :: older)

theorem isSome_findIn_iff : (findIn id vs).isSome = true ↔ ∃ v ∈ vs, v.id = id := by
  rw [findIn, List.find?_isSome]
  simp

theorem findIn_eq_none_iff : findIn id vs = none ↔ ∀ v ∈ vs, v.id ≠ id := by
  rw [← Option.isNone_iff_eq_none, ← Option.isSome_eq_false_iff, ← Bool.not_eq_true,
    isSome_findIn_iff]
  push Not
  rfl

theorem isSome_findIn_cons (h : (findIn id vs).isSome = true) (v : Variable) :
    (findIn id (v :: vs)).isSome = true := by
  rw [findIn_cons]
  split
  · rfl
  · exact h

/-! ## Kept by changes

Only number and parent matter. So a change of the rest keeps a list grown, whatever it is. -/

/-- A change that keeps number and parent of every variable keeps a list grown. -/
theorem Grown.map (h : Grown vs) {f : Variable → Variable} (hid : ∀ v, (f v).id = v.id)
    (hparent : ∀ v, (f v).parent = v.parent) : Grown (vs.map f) := by
  induction h with
  | nil => exact .nil
  | cons _ nonzero fresh rooted ih =>
    refine .cons ih ?_ ?_ ?_
    · rwa [hid]
    · rw [hid, findIn_map _ hid, fresh, Option.map_none]
    · rwa [hparent, findIn_map _ hid, Option.isSome_map]

theorem Grown.modify {s : Store} (h : Grown s.entries) (id : VarId) {f : Variable → Variable}
    (hid : ∀ v, (f v).id = v.id) (hparent : ∀ v, (f v).parent = v.parent) :
    Grown (s.modify id f).entries := by
  refine h.map (fun v ↦ ?_) (fun v ↦ ?_)
  · split
    · exact hid v
    · rfl
  · split
    · exact hparent v
    · rfl

theorem Grown.parent_of_mem (h : Grown vs) (hv : v ∈ vs) :
    v.parent = noParent ∨ (findIn v.parent vs).isSome = true := by
  induction h with
  | nil => exact absurd hv (by simp)
  | @cons u older _ _ _ rooted ih =>
    have hup (k : VarId) (hk : k = noParent ∨ (findIn k older).isSome = true) :
        k = noParent ∨ (findIn k (u :: older)).isSome = true :=
      hk.imp_right fun hsome ↦ isSome_findIn_cons hsome u
    rcases List.mem_cons.mp hv with rfl | hmem
    · exact hup _ rooted
    · exact hup _ (ih hmem)

theorem Grown.nodup (h : Grown vs) : (vs.map Variable.id).Nodup := by
  induction h with
  | nil => exact List.nodup_nil
  | cons _ _ fresh _ ih =>
    rw [List.map_cons, List.nodup_cons]
    refine ⟨fun hmem ↦ ?_, ih⟩
    obtain ⟨v, hv, hid⟩ := List.mem_map.mp hmem
    exact findIn_eq_none_iff.mp fresh v hv hid

/-- Some variables of a grown list are grown if every one of them comes with its parent. -/
theorem Grown.filter (h : Grown vs) {p : VarId → Bool}
    (hp : ∀ v ∈ vs, p v.id = true → v.parent = noParent ∨ p v.parent = true) :
    Grown (vs.filter fun v ↦ p v.id) := by
  induction h with
  | nil => exact .nil
  | @cons u older _ nonzero fresh rooted ih =>
    rw [List.forall_mem_cons] at hp
    rw [List.filter_cons]
    split
    · next hu =>
      refine .cons (ih hp.2) nonzero ?_ ?_
      · rw [findIn_filter, if_pos hu, fresh]
      · rcases hp.1 hu with hzero | hparent
        · exact .inl hzero
        · refine rooted.imp_right fun hsome ↦ ?_
          rwa [findIn_filter, if_pos hparent]
    · exact ih hp.2

/-! ## Descendants -/

private theorem mem_below_append_singleton {vs : List Variable} {u : Variable} :
    k ∈ below id (vs ++ [u]) ↔
      k ∈ below id vs ∨ k = u.id ∧ (u.parent = id ∨ u.parent ∈ below id vs) := by
  induction vs generalizing id with
  | nil =>
    rw [List.nil_append, below, below]
    by_cases h : u.parent = id <;> simp [h, below]
  | cons v vs ih =>
    rw [List.cons_append, below, below]
    split
    · simp only [List.mem_append, List.mem_singleton, ih]
      tauto
    · exact ih

theorem mem_below_reverse_cons {u : Variable} {older : List Variable} :
    k ∈ below id (u :: older).reverse ↔ k ∈ below id older.reverse ∨
      k = u.id ∧ (u.parent = id ∨ u.parent ∈ below id older.reverse) := by
  rw [List.reverse_cons, mem_below_append_singleton]

theorem exists_of_mem_below (h : k ∈ below id vs.reverse) : ∃ v ∈ vs, v.id = k := by
  induction vs with
  | nil => exact absurd h (by simp [below])
  | cons u older ih =>
    rcases mem_below_reverse_cons.mp h with h | ⟨rfl, -⟩
    · obtain ⟨v, hv, hid⟩ := ih h
      exact ⟨v, List.mem_cons_of_mem u hv, hid⟩
    · exact ⟨u, List.mem_cons_self, rfl⟩

/-- A child of a variable, or of a descendant of it, is a descendant of it. -/
theorem Grown.mem_below_of_parent (h : Grown vs) (hv : v ∈ vs)
    (hparent : v.parent = id ∨ v.parent ∈ Store.below id vs.reverse) :
    v.id ∈ Store.below id vs.reverse := by
  induction h with
  | nil => exact absurd hv (by simp)
  | @cons u older hgrown nonzero fresh rooted ih =>
    have hnew (k : VarId) (hk : k = noParent ∨ (findIn k older).isSome = true) : k ≠ u.id := by
      rintro rfl
      rcases hk with hzero | hsome
      · exact nonzero hzero
      · rw [fresh] at hsome
        exact absurd hsome (by simp)
    -- the parent is older than the latest variable, so it was a descendant without that one
    have hbefore (hk : v.parent ≠ u.id) :
        v.parent = id ∨ v.parent ∈ Store.below id older.reverse := by
      refine hparent.imp_right fun hmem ↦ ?_
      exact (mem_below_reverse_cons.mp hmem).resolve_right fun hu ↦ hk hu.1
    rw [mem_below_reverse_cons]
    rcases List.mem_cons.mp hv with rfl | hmem
    · exact .inr ⟨rfl, hbefore (hnew _ rooted)⟩
    · exact .inl (ih hmem (hbefore (hnew _ (hgrown.parent_of_mem hmem))))

/-- No variable of a grown list has the number that stands for no parent. -/
theorem Grown.id_ne_noParent (h : Grown vs) (hv : v ∈ vs) : v.id ≠ noParent := by
  induction h with
  | nil => exact absurd hv (by simp)
  | cons _ nonzero _ _ ih =>
    rcases List.mem_cons.mp hv with rfl | hmem
    · exact nonzero
    · exact ih hmem

theorem Grown.ne_noParent_of_contains {s : Store} (h : Grown s.entries)
    (hc : s.contains id = true) : id ≠ noParent := by
  obtain ⟨v, hv⟩ := contains_iff.mp hc
  rw [← id_of_get? hv]
  exact h.id_ne_noParent (mem_of_get? hv)

/-- What a destruction leaves is grown. -/
theorem Grown.destroy {s : Store} (h : Grown s.entries) (id : VarId) :
    Grown (s.destroy id).2.entries := by
  by_cases hc : s.contains id = true
  · rw [destroy_of_contains hc]
    refine h.filter (p := fun k ↦ decide (k ∉ Store.below id s.entries.reverse ++ [id]))
      fun v hv hp ↦ .inr ?_
    rw [decide_eq_true_eq, List.mem_append, List.mem_singleton, not_or] at hp ⊢
    -- a parent that is removed takes the variable with it
    constructor
    · intro hparent
      exact hp.1 (h.mem_below_of_parent hv (.inr hparent))
    · intro hparent
      exact hp.1 (h.mem_below_of_parent hv (.inl hparent))
  · rw [destroy_of_not_contains (by simpa using hc)]
    exact h

/-! ## Lineages

Here the other direction of the relation is needed: a number that is removed with a variable goes up
to it. -/

private theorem lineageIn_of_findIn (h : findIn id vs = some v) :
    ∃ ancestors, lineageIn id vs = v :: ancestors := by
  induction vs with
  | nil => exact absurd h (by simp)
  | cons u older ih =>
    rw [findIn_cons] at h
    rw [lineageIn]
    split at h
    · next hu =>
      rw [if_pos hu, ← Option.some_inj.mp h]
      exact ⟨_, rfl⟩
    · next hu =>
      rw [if_neg hu]
      exact ih h

private theorem Grown.mem_lineage_of_mem_below (h : Grown vs) (hid : id ≠ noParent)
    (hk : k ∈ Store.below id vs.reverse) : ∃ u ∈ lineageIn k vs, u.id = id := by
  induction h generalizing k with
  | nil => exact absurd hk (by simp [Store.below])
  | @cons u older _ _ fresh rooted ih =>
    rw [lineageIn]
    rcases mem_below_reverse_cons.mp hk with hmem | ⟨rfl, hparent⟩
    · -- a descendant among the older variables is not the latest one
      have hne : u.id ≠ k := by
        rintro rfl
        obtain ⟨v, hv, hvid⟩ := exists_of_mem_below hmem
        exact findIn_eq_none_iff.mp fresh v hv hvid
      rw [if_neg hne]
      exact ih hmem
    · rw [if_pos rfl]
      rcases hparent with rfl | hmem
      · obtain ⟨v, hv⟩ := Option.isSome_iff_exists.mp (rooted.resolve_left hid)
        obtain ⟨ancestors, hlineage⟩ := lineageIn_of_findIn hv
        exact ⟨v, by simp [hlineage], id_of_findIn hv⟩
      · obtain ⟨v, hv, hvid⟩ := ih hmem
        exact ⟨v, List.mem_cons_of_mem _ hv, hvid⟩

/-- **The destroyed variable is in the lineage of everything that is removed.** -/
theorem Grown.mem_lineage_of_mem_destroy {s : Store} (h : Grown s.entries)
    (hk : k ∈ (s.destroy id).1) : ∃ u ∈ s.lineage k, u.id = id := by
  have hc := contains_of_mem_destroy hk
  rw [destroy_of_contains hc, List.mem_append, List.mem_singleton] at hk
  rcases hk with hk | rfl
  · exact h.mem_lineage_of_mem_below (h.ne_noParent_of_contains hc) hk
  · obtain ⟨v, hv⟩ := contains_iff.mp hc
    obtain ⟨ancestors, hlineage⟩ := lineageIn_of_findIn hv
    exact ⟨v, by rw [lineage, hlineage]; simp, id_of_get? hv⟩

end ReactiveVars.Store
