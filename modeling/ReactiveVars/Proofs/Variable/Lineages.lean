import ReactiveVars.Proofs.Variable.Forest

/-!
# Lineages

In a forest the lineage of an ancestor is the end of the lineage of its descendants, so an ancestor
has the shorter lineage. Sorting by the length of the lineage therefore puts ancestors first, and
what goes from variable to parent comes to an end.
-/

namespace ReactiveVars.Store

variable {s : Store} {id k : VarId} {u v : Variable} {vs older ancestors : List Variable}

theorem lineageIn_cons (k : VarId) (v : Variable) (older : List Variable) :
    lineageIn k (v :: older)
      = if v.id = k then v :: lineageIn v.parent older else lineageIn k older := rfl

theorem lineageIn_sublist (k : VarId) (vs : List Variable) : (lineageIn k vs).Sublist vs := by
  induction vs generalizing k with
  | nil => exact .slnil
  | cons v older ih =>
    rw [lineageIn]
    split
    · exact (ih v.parent).cons_cons v
    · exact (ih k).cons v

/-- A lineage starts with the variable itself. -/
private theorem id_of_lineageIn_eq_cons (h : lineageIn k vs = v :: ancestors) : v.id = k := by
  induction vs with
  | nil => exact absurd h (by simp [lineageIn])
  | cons u older ih =>
    rw [lineageIn] at h
    split at h
    · next hu =>
      rw [← (List.cons.inj h).1]
      exact hu
    · exact ih h

private theorem Grown.lineageIn_suffix (h : Grown vs) (hu : u ∈ lineageIn k vs) :
    lineageIn u.id vs <:+ lineageIn k vs := by
  induction h generalizing k with
  | nil => exact absurd hu (by simp [lineageIn])
  | @cons v older _ _ fresh _ ih =>
    -- the lineage of an older variable does not meet the latest one
    have hold {j : VarId} (hj : u ∈ lineageIn j older) :
        lineageIn u.id (v :: older) <:+ lineageIn j older := by
      have hne : v.id ≠ u.id :=
        (findIn_eq_none_iff.mp fresh u ((lineageIn_sublist j older).subset hj)).symm
      rw [lineageIn, if_neg hne]
      exact ih hj
    by_cases hk : v.id = k
    · rw [lineageIn, if_pos hk] at hu
      rcases List.mem_cons.mp hu with rfl | hmem
      · subst hk
        exact List.suffix_refl _
      · rw [lineageIn_cons k, if_pos hk]
        exact (hold hmem).trans (List.suffix_cons v _)
    · rw [lineageIn, if_neg hk] at hu
      rw [lineageIn_cons k, if_neg hk]
      exact hold hu

/-- **An ancestor has a shorter lineage than its descendants.** -/
theorem Grown.length_lineage_lt (h : Grown s.entries) (hu : u ∈ s.lineage k)
    (hne : u.id ≠ k) : (s.lineage u.id).length < (s.lineage k).length := by
  have hsuffix : s.lineage u.id <:+ s.lineage k := h.lineageIn_suffix hu
  refine Nat.lt_of_le_of_ne hsuffix.length_le fun hlength ↦ hne ?_
  obtain ⟨v, ancestors, hcons⟩ := List.exists_cons_of_ne_nil (List.ne_nil_of_mem hu)
  rw [← hsuffix.eq_of_length hlength] at hcons
  have huid := id_of_lineageIn_eq_cons hcons
  rw [hsuffix.eq_of_length hlength] at hcons
  rw [← huid, ← id_of_lineageIn_eq_cons hcons]

/-! ## Going up

A recursion from a variable to its parent has no structure to go by. What gets smaller is the list
of the variables that are older, and `climb_induction` turns this into an induction that names no
list. -/

theorem Grown.parent_ne_of_mem (h : Grown (u :: older)) (hv : v ∈ older) : v.parent ≠ u.id := by
  cases h with
  | cons hgrown nonzero fresh _ =>
    intro hparent
    rcases hgrown.parent_of_mem hv with hzero | hsome
    · exact nonzero (hparent ▸ hzero)
    · rw [hparent, fresh] at hsome
      exact absurd hsome (by simp)

/-- A variable is not its own parent. -/
theorem Grown.parent_ne_self (h : Grown vs) (hv : v ∈ vs) : v.parent ≠ v.id := by
  induction h with
  | nil => exact absurd hv (by simp)
  | @cons u older _ nonzero fresh rooted ih =>
    rcases List.mem_cons.mp hv with rfl | hmem
    · intro hparent
      rw [hparent, fresh] at rooted
      exact rooted.elim nonzero (by simp)
    · exact ih hmem

/-- The lineage of a variable goes on with the lineage of its parent. -/
theorem Grown.lineageIn_eq (h : Grown vs) (hv : findIn id vs = some v) :
    lineageIn id vs = v :: lineageIn v.parent vs := by
  have hself := h.parent_ne_self (mem_of_findIn hv)
  induction h with
  | nil => exact absurd hv (by simp)
  | @cons u older hgrown nonzero fresh rooted ih =>
    rw [findIn_cons] at hv
    rw [lineageIn_cons id, lineageIn_cons v.parent]
    by_cases hid : u.id = id
    · rw [if_pos hid, Option.some_inj] at hv
      subst hv
      rw [if_pos hid, if_neg hself.symm]
    · rw [if_neg hid] at hv
      have hne := (Grown.cons hgrown nonzero fresh rooted).parent_ne_of_mem (mem_of_findIn hv)
      rw [if_neg hid, if_neg hne.symm]
      exact ih hv

theorem lineageIn_of_findIn_none (h : findIn id vs = none) : lineageIn id vs = [] := by
  induction vs with
  | nil => rfl
  | cons u older ih =>
    rw [findIn_cons] at h
    rw [lineageIn_cons]
    by_cases hid : u.id = id
    · rw [if_pos hid] at h
      exact absurd h (by simp)
    · rw [if_neg hid] at h ⊢
      exact ih h

/-- **What goes up from a variable to its parent comes to an end.** -/
theorem Grown.climb_induction (h : Grown s.entries) {motive : VarId → Prop}
    (out : ∀ id, s.get? id = none → motive id)
    (up : ∀ id v, s.get? id = some v → motive v.parent → motive id) (id : VarId) : motive id := by
  -- the induction is on the length of the lineage
  induction hn : (s.lineage id).length generalizing id with
  | zero =>
    refine out id ?_
    rw [← Option.not_isSome_iff_eq_none, Option.isSome_iff_exists]
    rintro ⟨v, hv⟩
    rw [lineage, h.lineageIn_eq hv] at hn
    exact absurd hn (by simp)
  | succ n ih =>
    rcases hv : s.get? id with _ | v
    · exact out id hv
    · refine up id v hv (ih v.parent ?_)
      rw [lineage, h.lineageIn_eq hv, List.length_cons, Nat.add_right_cancel_iff] at hn
      exact hn

end ReactiveVars.Store
