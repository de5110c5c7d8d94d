import Mathlib.Logic.Function.Iterate
import ReactiveVars.Proofs.Backend.Parts
import ReactiveVars.Proofs.Variable.ChildLists
import ReactiveVars.Proofs.Variable.Lineages

/-!
# Walks in the forest of variables

The ancestors of a variable, what a destruction removes and the value that a variable presents can
be found going from number to number: to the parent that a variable names, or to the children that
the list of a parent names. Nothing in a number says that such a walk ends.

`Climbs`, `Gathers` and `Presents` are these walks, one step a rule, so that a derivation is a walk
that has ended. In a forest each walk ends, and with what the store computes along its variables.
`Grown.climb_induction` is the reason for the walks up, and `Grown.descend_induction` for the walk
down.

## Main statement

* `Listed.isForest_run`: after any edits of a new store the variables form a forest.
-/

namespace ReactiveVars

namespace Store

variable {s : Store} {id k : VarId} {v : Variable} {vs : List Variable}

/-! ## Going up

The steps up may be counted, for the lineage of a variable is as long as the walk. -/

/-- Goes from a number to the number of the parent as long as there is a variable. -/
inductive Climbs (s : Store) : VarId → List Variable → Prop
  | out {id : VarId} (unknown : s.get? id = none) : Climbs s id []
  | up {id : VarId} {v : Variable} {ancestors : List Variable} (found : s.get? id = some v)
      (climbs : Climbs s v.parent ancestors) : Climbs s id (v :: ancestors)

theorem Grown.climbs (h : Grown s.entries) (id : VarId) : s.Climbs id (s.lineage id) := by
  induction id using h.climb_induction with
  | out id hnone =>
    rw [lineage, lineageIn_of_findIn_none hnone]
    exact .out hnone
  | up id v hv ih =>
    rw [lineage, h.lineageIn_eq hv]
    exact .up hv ih

/-- The number of the parent; of an unknown number it is the one for no parent. -/
def parentOf (s : Store) (id : VarId) : VarId := (s.parent? id).getD noParent

private theorem Grown.parentOf_iterate (h : Grown s.entries) (hc : s.contains id = true) :
    s.parentOf^[(s.lineage id).length] id = noParent := by
  induction id using h.climb_induction with
  | out id hnone => rw [contains_eq_false_iff.mpr hnone] at hc; exact absurd hc (by simp)
  | up id v hv ih =>
    have hparent : s.parentOf id = v.parent := by
      rw [parentOf, parent?, hv, Option.map_some, Option.getD_some]
    rw [lineage, h.lineageIn_eq hv, List.length_cons, Function.iterate_succ_apply, hparent]
    rcases h.parent_of_mem (mem_of_get? hv) with hzero | hsome
    · have hnone : findIn v.parent s.entries = none := by
        rw [hzero, findIn_eq_none_iff]
        intro u hu
        exact h.id_ne_noParent hu
      rw [lineageIn_of_findIn_none hnone]
      exact hzero
    · exact ih hsome

/-! ## Going down

The lineage of a child is longer by one, and no lineage is longer than the store. This is what the
induction downwards counts. -/

/-- Whether no variable is the parent of itself or of one before it in a list. -/
def Descending (vs : List Variable) : Prop :=
  vs.Pairwise (fun v u ↦ v.parent ≠ u.id) ∧ ∀ v ∈ vs, v.parent ≠ v.id

private theorem Grown.descending (h : Grown vs) : Descending vs.reverse := by
  refine ⟨?_, fun v hv ↦ h.parent_ne_self (List.mem_reverse.mp hv)⟩
  rw [List.pairwise_reverse]
  induction h with
  | nil => exact .nil
  | @cons u older hgrown nonzero fresh rooted ih =>
    refine .cons (fun v hv ↦ ?_) ih
    exact (Grown.cons hgrown nonzero fresh rooted).parent_ne_of_mem hv

theorem below_eq_flatMap (h : Descending vs) (id : VarId) :
    below id vs = ((vs.filter fun v ↦ v.parent = id).map Variable.id).reverse.flatMap
      fun k ↦ below k vs ++ [k] := by
  induction vs generalizing id with
  | nil => rfl
  | cons v newer ih =>
    obtain ⟨hpairwise, hself⟩ := h
    rw [List.pairwise_cons] at hpairwise
    rw [List.forall_mem_cons] at hself
    -- the oldest variable is not below any of the others, nor below itself
    have hnewer : (((newer.filter fun u ↦ u.parent = id).map Variable.id).reverse.flatMap
        fun k ↦ below k (v :: newer) ++ [k]) = below id newer := by
      rw [ih ⟨hpairwise.2, hself.2⟩]
      apply List.flatMap_congr
      intro k hk
      rw [List.mem_reverse, List.mem_map] at hk
      obtain ⟨u, hu, rfl⟩ := hk
      rw [below, if_neg (hpairwise.1 u (List.mem_of_mem_filter hu))]
    rw [below, List.filter_cons]
    by_cases hv : v.parent = id
    · rw [if_pos hv, if_pos (by simpa using hv), List.map_cons, List.reverse_cons,
        List.flatMap_append, hnewer, List.flatMap_singleton, below, if_neg hself.1]
    · rw [if_neg hv, if_neg (by simpa using hv), hnewer]

/-- Goes through the child lists from numbers in order: below each, the latest child first, and then
to the number itself. -/
inductive Gathers (c : ChildLists) : List VarId → List VarId → Prop
  | done : Gathers c [] []
  | down {id : VarId} {ids under others : List VarId}
      (gathers : Gathers c (c.of id).reverse under) (rest : Gathers c ids others) :
      Gathers c (id :: ids) (under ++ [id] ++ others)

theorem Gathers.append {c : ChildLists} {ids jds out out' : List VarId}
    (h : Gathers c ids out) (h' : Gathers c jds out') : Gathers c (ids ++ jds) (out ++ out') := by
  induction h with
  | done => exact h'
  | down gathers _ _ ih =>
    rw [List.append_assoc]
    exact .down gathers ih

private theorem gathers_flatMap {c : ChildLists} {f : VarId → List VarId} {ids : List VarId}
    (h : ∀ id ∈ ids, Gathers c [id] (f id)) : Gathers c ids (ids.flatMap f) := by
  induction ids with
  | nil => exact .done
  | cons id ids ih =>
    rw [List.forall_mem_cons] at h
    rw [List.flatMap_cons]
    exact h.1.append (ih h.2)

theorem Grown.length_lineage_of_parent? (h : Grown s.entries) (hk : s.parent? k = some id) :
    (s.lineage k).length = (s.lineage id).length + 1 := by
  obtain ⟨v, hv, rfl⟩ := Option.map_eq_some_iff.mp hk
  rw [lineage, h.lineageIn_eq hv, List.length_cons, lineage]

/-- **What goes down from a variable to its children comes to an end.** -/
theorem Grown.descend_induction (h : Grown s.entries) {motive : VarId → Prop}
    (down : ∀ id, (∀ k, s.parent? k = some id → motive k) → motive id) (id : VarId) :
    motive id := by
  -- a lineage is never longer than the store, and that of a child is longer by one
  induction hn : s.size - (s.lineage id).length using Nat.strongRecOn generalizing id with
  | ind n ih =>
    refine down id fun k hk ↦ ih _ ?_ k rfl
    have hle : (s.lineage k).length ≤ s.size := (lineageIn_sublist k s.entries).length_le
    have hlength := h.length_lineage_of_parent? hk
    omega

/-- A destruction removes, child by child, what the destruction of the child would remove. -/
theorem Grown.destroy_eq_flatMap (h : Grown s.entries) (hc : s.contains id = true) :
    (s.destroy id).1
      = ((s.children id).reverse.flatMap fun k ↦ (s.destroy k).1) ++ [id] := by
  have hp := h.ne_noParent_of_contains hc
  rw [destroy_of_contains hc, below_eq_flatMap h.descending, children, if_neg hp]
  refine congrArg (· ++ [id]) (List.flatMap_congr fun k hk ↦ ?_)
  have hchild : k ∈ s.children id := by rwa [children, if_neg hp, ← List.mem_reverse]
  rw [destroy_of_contains (contains_of_parent? (h.parent?_of_mem_children hp hchild))]

end Store

open Store

/-! ## Presenting

The walk up to the variables that are needed is hidden in the recursion of presenting along a list.
Since the list is in the order of age, the rest of it is all that a parent can depend on. -/

section Presenting

variable {σ : Type} [Application σ]

/-- The presented value of a variable with a path, from what its parent presents. -/
def Variable.presentFrom (w : WrapperRegistry) (v : Variable) (path : Path) :
    Except Halt Json × σ → Except Halt Json × σ
  | (.error halt, app) => (.error halt, app)
  | (.ok base, app) =>
    match readPath base path.segments app with
    | (.ok found, app') => (.ok (w.present v.wrapper? found v.properties), app')
    | (.error halt, app') => (.error halt, app')

/-- What cannot be presented from a parent could not be presented there, or the application has
crashed. -/
theorem Variable.presentFrom_error {v : Variable} {path : Path} {base : Except Halt Json × σ}
    {halt : Halt} (h : (v.presentFrom w path base).1 = .error halt) :
    base.1 = .error halt ∨ halt = .crashed := by
  rcases base with ⟨halt' | b, app⟩
  · exact .inl h
  right
  simp only [presentFrom, readPath] at h
  rcases hr : ObjectRef.ofJson? b with _ | r
  · simp only [hr] at h
    exact absurd h (by simp)
  · rcases hresolve : Application.resolve app r path.segments with ⟨v' | reason | _, app'⟩ <;>
      simp only [hr, hresolve] at h
    · exact absurd h (by simp)
    · exact absurd h (by simp)
    · exact (Except.error.inj h).symm

/-- Presents the variable with a number, after its parent if it has a path and a parent. -/
inductive Presents (w : WrapperRegistry) (s : Store) (app : σ) :
    VarId → Except Halt Json × σ → Prop
  | unknown {id : VarId} (unknown : s.get? id = none) :
      Presents w s app id (.error (.refused (.unknownVariable id)), app)
  | own {id : VarId} {v : Variable} (found : s.get? id = some v) (pathless : v.path? = none) :
      Presents w s app id (.ok (w.present v.wrapper? v.value v.properties), app)
  | unreadable {id : VarId} {v : Variable} {raw : String} {e : PathError}
      (found : s.get? id = some v) (path : v.path? = some raw)
      (unreadable : Path.parse raw = .error e) :
      Presents w s app id (.error (.refused (.badRequest id e.message)), app)
  | from_root {id : VarId} {v : Variable} {raw : String} {path : Path}
      (found : s.get? id = some v) (has_path : v.path? = some raw)
      (readable : Path.parse raw = .ok path) (unknown : s.get? v.parent = none) :
      Presents w s app id (v.presentFrom w path (.ok (Application.rootValue app), app))
  | from_parent {id : VarId} {v : Variable} {raw : String} {path : Path}
      {base : Except Halt Json × σ} (found : s.get? id = some v) (has_path : v.path? = some raw)
      (readable : Path.parse raw = .ok path) (known : s.contains v.parent = true)
      (presents : Presents w s app v.parent base) :
      Presents w s app id (v.presentFrom w path base)

/-- The value of a variable with a readable path comes from its parent, which presents its own value
among all variables. -/
theorem Store.Grown.presentedIn_of_parse {id : VarId} {v : Variable} {vs : List Variable}
    {raw : String} {path : Path} (h : Grown vs) (hv : findIn id vs = some v)
    (hraw : v.path? = some raw) (hpath : Path.parse raw = .ok path) (w : WrapperRegistry)
    (app : σ) : presentedIn w id vs app = v.presentFrom w path
      (if (findIn v.parent vs).isSome then presentedIn w v.parent vs app
        else (.ok (Application.rootValue app), app)) := by
  have hself := h.parent_ne_self (mem_of_findIn hv)
  induction h with
  | nil => exact absurd hv (by simp)
  | @cons u older hgrown nonzero fresh rooted ih =>
    -- the latest variable is nobody's parent, so it may be left out for the parent
    have hne : v.parent ≠ u.id := by
      rw [findIn_cons] at hv
      by_cases hid : u.id = id
      · rw [if_pos hid, Option.some_inj] at hv
        exact hv ▸ hself
      · rw [if_neg hid] at hv
        exact (Grown.cons hgrown nonzero fresh rooted).parent_ne_of_mem (mem_of_findIn hv)
    have hparent : presentedIn w v.parent (u :: older) app = presentedIn w v.parent older app := by
      rw [presentedIn, if_neg hne.symm]
    rw [findIn_cons v.parent, if_neg hne.symm, hparent]
    rw [findIn_cons] at hv
    rw [presentedIn]
    by_cases hid : u.id = id
    · rw [if_pos hid, Option.some_inj] at hv
      subst hv
      have hany : older.any (fun k ↦ decide (k.id = u.parent))
          = (findIn u.parent older).isSome := by
        rw [Bool.eq_iff_iff, isSome_findIn_iff, List.any_eq_true]
        simp only [decide_eq_true_eq]
      simp only [if_pos hid, hraw, hpath, hany]
      rfl
    · rw [if_neg hid] at hv ⊢
      exact ih hv

theorem Store.presentedIn_of_findIn {id : VarId} {v : Variable} {vs : List Variable}
    (h : findIn id vs = some v) (w : WrapperRegistry) (app : σ) :
    ∃ older, presentedIn w id vs app = presentedIn w id (v :: older) app := by
  induction vs with
  | nil => exact absurd h (by simp)
  | cons u older ih =>
    rw [findIn_cons] at h
    by_cases hid : u.id = id
    · rw [if_pos hid, Option.some_inj] at h
      exact ⟨older, by rw [h]⟩
    · rw [if_neg hid] at h
      rw [presentedIn, if_neg hid]
      exact ih h

/-- A variable without a path presents its value in the form that its wrapper gives it. -/
theorem Turn.presented_of_no_path {t : Turn σ} {id : VarId} {v : Variable}
    (hv : t.session.store.get? id = some v) (hnone : v.path? = none) (w : WrapperRegistry) :
    t.presented w id = (.ok (w.present v.wrapper? v.value v.properties), t.app) := by
  obtain ⟨older, heq⟩ := presentedIn_of_findIn hv w t.app
  rw [presented, heq, presentedIn, if_pos (id_of_get? hv)]
  simp only [hnone]

/-- **Presenting ends.** -/
theorem Store.Grown.presents {s : Store} (h : Grown s.entries) (w : WrapperRegistry) (app : σ)
    (id : VarId) : Presents w s app id (presentedIn w id s.entries app) := by
  -- the value of the parent is presented first, so the induction goes up
  induction id using h.climb_induction with
  | out id hnone =>
    rw [presentedIn_of_findIn_eq_none w hnone]
    exact .unknown hnone
  | up id v hv ih =>
    rcases hpath : v.path? with _ | raw
    · obtain ⟨older, heq⟩ := presentedIn_of_findIn hv w app
      rw [heq, presentedIn, if_pos (id_of_get? hv)]
      simp only [hpath]
      exact .own hv hpath
    · rcases hparse : Path.parse raw with e | path
      · obtain ⟨older, heq⟩ := presentedIn_of_findIn hv w app
        rw [heq, presentedIn, if_pos (id_of_get? hv)]
        simp only [hpath, hparse]
        exact .unreadable hv hpath hparse
      · rw [h.presentedIn_of_parse hv hpath hparse, ← get?_eq_findIn, ← contains]
        by_cases hparent : s.contains v.parent = true
        · rw [if_pos hparent]
          exact .from_parent hv hpath hparse hparent ih
        · rw [if_neg hparent]
          rw [Bool.not_eq_true, contains_eq_false_iff] at hparent
          exact .from_root hv hpath hparse hparent

end Presenting

/-! ## Forests -/

namespace Listed

variable {l : Listed} {log : List VarId}

/-- Whether the variables form a forest of which the lists hold the edges, so that walks in it end,
when the given numbers have been inserted in this order. Of a number that has been inserted again
the latest insertion counts. -/
structure IsForest (l : Listed) (log : List VarId) : Prop where
  noParent_free : l.store.contains noParent = false
  parent_stored : ∀ {id v}, l.store.get? id = some v →
    v.parent = noParent ∨ l.store.contains v.parent = true
  climbs_out : ∀ {id}, l.store.contains id = true →
    ∃ n ≤ l.store.size, l.store.parentOf^[n] id = noParent
  children : ∀ {p}, p ≠ noParent →
    l.lists.of p = log.dedup.filter fun id ↦ l.store.parent? id = some p
  children_found : ∀ {p}, p ≠ noParent → l.store.children p = l.lists.of p
  climbs : ∀ id, l.store.Climbs id (l.store.lineage id)
  gathers : ∀ {id}, l.store.contains id = true → Gathers l.lists [id] (l.store.destroy id).1
  presents : ∀ {σ : Type} [Application σ] (w : WrapperRegistry) (app : σ) (id : VarId),
    Presents w l.store app id (presentedIn w id l.store.entries app)

theorem Agrees.children_log (h : l.Agrees log) {p : VarId} (hp : p ≠ noParent) :
    l.lists.of p = log.dedup.filter fun id ↦ l.store.parent? id = some p := by
  rw [h.children hp, h.grown.children_eq hp, h.inOrder, List.filter_filter]
  apply List.filter_congr
  intro id _
  rw [Bool.and_eq_left_iff_imp, decide_eq_true_eq]
  exact contains_of_parent?

/-- What is removed is gathered down the child lists. -/
theorem Agrees.gathers (h : l.Agrees log) {id : VarId} (hc : l.store.contains id = true) :
    Gathers l.lists [id] (l.store.destroy id).1 := by
  induction id using h.grown.descend_induction with
  | down id ih =>
    have hp := h.grown.ne_noParent_of_contains hc
    rw [h.grown.destroy_eq_flatMap hc, ← h.children hp, ← List.append_nil (_ ++ [id])]
    refine .down (gathers_flatMap fun k hk ↦ ?_) .done
    rw [List.mem_reverse, h.children hp] at hk
    have hparent := h.grown.parent?_of_mem_children hp hk
    exact ih k hparent (contains_of_parent? hparent)

theorem Agrees.isForest (h : l.Agrees log) : l.IsForest log where
  noParent_free := by
    rw [← Bool.not_eq_true]
    intro hc
    exact h.grown.ne_noParent_of_contains hc rfl
  parent_stored hv := h.grown.parent_of_mem (mem_of_get? hv)
  climbs_out {id} hc :=
    ⟨_, (lineageIn_sublist id l.store.entries).length_le, h.grown.parentOf_iterate hc⟩
  children hp := h.children_log hp
  children_found hp := (h.children hp).symm
  climbs := h.grown.climbs
  gathers hc := h.gathers hc
  presents := h.grown.presents

/-- **The variables of a store form a forest, whatever is done with it.** -/
theorem isForest_run (ids : IdSource) (es : List Edit) :
    ((fresh ids).run es).IsForest ((withIds ids).insertions es) :=
  ((agrees_fresh ids).run es).isForest

end Listed

end ReactiveVars
