import Mathlib.Data.List.Flatten
import Mathlib.Logic.Relation
import ReactiveVars.Proofs.Backend.Walks
import ReactiveVars.Proofs.Variable.Removals

/-!
# Subtrees

All that a variable says of the shape of its store is which parent it has. `ChildOf` is this
relation; the subtree of a variable is what some steps of it lead to the variable, and a descendant
is what at least one step leads there.

A destruction goes down the child lists instead. What it removes for a variable is, child by child,
what it would remove for the child, and then the variable. So what it removes for a descendant is a
part of what it removes for the ancestor, in the same order, and what it removes for siblings stands
there in the reverse order of the siblings. `Uproots` collects what this means for a store and the
lists that are kept beside it.

## Main statement

* `Listed.uproots_run`: after any edits of a new store a destruction removes a subtree from the
  bottom up, and nothing else.
-/

namespace ReactiveVars

namespace Store

variable {s : Store} {id j k p x y : VarId}

/-- Whether the first number is that of a variable of which the second is the parent. -/
def ChildOf (s : Store) (k p : VarId) : Prop := s.parent? k = some p

instance (s : Store) (k p : VarId) : Decidable (s.ChildOf k p) :=
  inferInstanceAs (Decidable (s.parent? k = some p))

private theorem childOf_rightUnique : Relator.RightUnique s.ChildOf :=
  fun _ _ _ hp hq ↦ Option.some_inj.mp (hp.symm.trans hq)

theorem contains_of_reflTransGen (hc : s.contains id = true)
    (hk : Relation.ReflTransGen s.ChildOf k id) : s.contains k = true := by
  rcases hk.cases_head with rfl | ⟨p, hparent, -⟩
  · exact hc
  · exact contains_of_parent? hparent

/-! ## Depth

A variable has a longer lineage than its parent. So the relation has no cycles, and the subtrees of
siblings do not meet, since a walk up passes through one child of the parent only. -/

theorem Grown.length_lineage_lt_of_transGen (h : Grown s.entries)
    (hk : Relation.TransGen s.ChildOf k j) : (s.lineage j).length < (s.lineage k).length := by
  induction hk with
  | single hparent =>
    rw [h.length_lineage_of_parent? hparent]
    exact Nat.lt_succ_self _
  | tail _ hparent ih =>
    rw [h.length_lineage_of_parent? hparent] at ih
    exact Nat.lt_of_succ_lt ih

theorem Grown.acyclic (h : Grown s.entries) : ¬ Relation.TransGen s.ChildOf k k :=
  fun hk ↦ Nat.lt_irrefl _ (h.length_lineage_lt_of_transGen hk)

private theorem Grown.eq_of_reflTransGen (h : Grown s.entries)
    (hk : Relation.ReflTransGen s.ChildOf k j)
    (hlength : (s.lineage k).length = (s.lineage j).length) : k = j := by
  rcases Relation.reflTransGen_iff_eq_or_transGen.mp hk with heq | hbelow
  · exact heq.symm
  · exact absurd hlength (Nat.ne_of_gt (h.length_lineage_lt_of_transGen hbelow))

private theorem Grown.eq_of_siblings (h : Grown s.entries) (hj : s.ChildOf j p) (hk : s.ChildOf k p)
    (hxj : Relation.ReflTransGen s.ChildOf x j) (hxk : Relation.ReflTransGen s.ChildOf x k) :
    j = k := by
  have hlength : (s.lineage j).length = (s.lineage k).length := by
    rw [h.length_lineage_of_parent? hj, h.length_lineage_of_parent? hk]
  -- one of the two is in the subtree of the other, but they are equally deep
  rcases hxj.total_of_right_unique childOf_rightUnique hxk with hjk | hkj
  · exact h.eq_of_reflTransGen hjk hlength
  · exact (h.eq_of_reflTransGen hkj hlength.symm).symm

/-! ## What is removed

The removed numbers stand in the list child by child. Each of the three lemmas on sublists reads one
fact off this list: that a subtree comes in its own order, that siblings come in reverse, and that
the top comes last. -/

/-- **A destruction removes a subtree.** -/
theorem Grown.mem_destroy_iff_reflTransGen (h : Grown s.entries) (hc : s.contains id = true) :
    k ∈ (s.destroy id).1 ↔ Relation.ReflTransGen s.ChildOf k id := by
  constructor
  · -- the lineage goes up along the same relation
    rw [h.mem_destroy_iff]
    induction k using h.climb_induction with
    | out k hnone =>
      rw [lineage, lineageIn_of_findIn_none hnone]
      exact fun hid ↦ absurd hid (by simp)
    | up k v hv ih =>
      rw [lineage, h.lineageIn_eq hv, List.map_cons, List.mem_cons]
      rintro (rfl | hparent)
      · rw [id_of_get? hv]
      · refine .head ?_ (ih hparent)
        rw [ChildOf, parent?, hv, Option.map_some]
  · intro hk
    induction hk using Relation.ReflTransGen.head_induction_on with
    | refl => exact mem_destroy_self hc
    | head hparent _ ih => exact h.mem_destroy_of_parent ih hparent

theorem Grown.mem_destroy_iff_of_childOf (h : Grown s.entries) (hk : s.ChildOf k p) :
    x ∈ (s.destroy k).1 ↔ Relation.ReflTransGen s.ChildOf x k :=
  h.mem_destroy_iff_reflTransGen (contains_of_parent? hk)

theorem Grown.mem_children_iff (h : Grown s.entries) (hp : p ≠ noParent) :
    k ∈ s.children p ↔ s.ChildOf k p := by
  refine ⟨h.parent?_of_mem_children hp, fun hk ↦ ?_⟩
  obtain ⟨v, hv, hparent⟩ := Option.map_eq_some_iff.mp hk
  rw [children, if_neg hp, List.mem_map]
  refine ⟨v, List.mem_filter.mpr ⟨List.mem_reverse.mpr (mem_of_get? hv), ?_⟩, id_of_get? hv⟩
  rw [hparent, decide_eq_true_eq]

/-- **What is removed for a descendant is removed in the same order for the ancestor.** -/
theorem Grown.destroy_sublist (h : Grown s.entries) (hc : s.contains id = true)
    (hk : Relation.ReflTransGen s.ChildOf k id) :
    (s.destroy k).1.Sublist (s.destroy id).1 := by
  induction hk using Relation.ReflTransGen.head_induction_on with
  | refl => exact List.Sublist.refl _
  | @head k p hparent hbelow ih =>
    have hpc := contains_of_reflTransGen hc hbelow
    have hchild : k ∈ (s.children p).reverse := by
      rwa [List.mem_reverse, h.mem_children_iff (h.ne_noParent_of_contains hpc)]
    -- what is removed for the child is one of the parts of what is removed for its parent
    have hsub : (s.destroy k).1.Sublist
        ((s.children p).reverse.flatMap fun k ↦ (s.destroy k).1) :=
      List.sublist_flatten_of_mem (List.mem_map_of_mem hchild)
    refine List.Sublist.trans ?_ ih
    rw [h.destroy_eq_flatMap hpc]
    exact hsub.trans (List.sublist_append_left _ _)

private theorem Grown.destroy_append_sublist (h : Grown s.entries) (hc : s.contains p = true)
    (hjk : [j, k].Sublist (s.children p)) :
    ((s.destroy k).1 ++ (s.destroy j).1).Sublist (s.destroy p).1 := by
  have hsub := hjk.reverse.flatMap fun k ↦ (s.destroy k).1
  simp only [List.reverse_cons, List.reverse_nil, List.nil_append, List.cons_append,
    List.flatMap_cons, List.flatMap_nil, List.append_nil] at hsub
  rw [h.destroy_eq_flatMap hc]
  exact hsub.trans (List.sublist_append_left _ _)

theorem Grown.pair_sublist_destroy (h : Grown s.entries) (hj : j ∈ (s.destroy id).1)
    (hk : Relation.TransGen s.ChildOf k j) : [k, j].Sublist (s.destroy id).1 := by
  have hc := contains_of_mem_destroy hj
  have hjid := (h.mem_destroy_iff_reflTransGen hc).mp hj
  refine List.Sublist.trans ?_ (h.destroy_sublist hc hjid)
  have hjc := contains_of_reflTransGen hc hjid
  have hmem := (h.mem_destroy_iff_reflTransGen hjc).mpr hk.to_reflTransGen
  rw [h.destroy_eq_flatMap hjc] at hmem ⊢
  rcases List.mem_append.mp hmem with hbelow | hself
  · exact (List.singleton_sublist.mpr hbelow).append (List.Sublist.refl [j])
  · rw [List.mem_singleton.mp hself] at hk
    exact absurd hk h.acyclic

end Store

/-! ## Destructions -/

namespace Listed

open Store

variable {l : Listed} {log : List VarId} {id : VarId}

private theorem Agrees.nodup_destroy (h : l.Agrees log) (id : VarId) :
    (l.store.destroy id).1.Nodup := by
  induction id using h.grown.descend_induction with
  | down id ih =>
    by_cases hc : l.store.contains id = true
    · have hp := h.grown.ne_noParent_of_contains hc
      have hchildren : (l.store.children id).reverse.Nodup := by
        rw [List.nodup_reverse, ← h.children hp, h.children_log hp]
        exact log.nodup_dedup.filter _
      have hchild {k : VarId} (hk : k ∈ (l.store.children id).reverse) :
          l.store.ChildOf k id := by
        rwa [List.mem_reverse, h.grown.mem_children_iff hp] at hk
      rw [h.grown.destroy_eq_flatMap hc, ← List.concat_eq_append]
      refine .concat ?_ (List.nodup_flatMap.mpr ⟨fun k hk ↦ ih k (hchild hk), ?_⟩)
      · -- what is below a child is not its parent
        rw [List.mem_flatMap]
        rintro ⟨k, hk, hid⟩
        have hbelow := (h.grown.mem_destroy_iff_of_childOf (hchild hk)).mp hid
        exact h.grown.acyclic (.tail' hbelow (hchild hk))
      · -- no variable is below two children
        refine hchildren.pairwise_of_forall_ne fun j hj k hk hne x hxj hxk ↦ hne ?_
        rw [h.grown.mem_destroy_iff_of_childOf (hchild hj)] at hxj
        rw [h.grown.mem_destroy_iff_of_childOf (hchild hk)] at hxk
        exact h.grown.eq_of_siblings (hchild hj) (hchild hk) hxj hxk
    · rw [destroy_of_not_contains (by simpa using hc)]
      exact .nil

/-- Whether a destruction takes the subtree of a variable out of a store and its lists, and nothing
else, when the given numbers have been inserted in this order. Of a number that has been inserted
again the latest insertion counts. -/
structure Uproots (l : Listed) (log : List VarId) (id : VarId) (removed : List VarId)
    (l' : Listed) : Prop where
  gathers : Gathers l.lists [id] removed
  subtree : ∀ {k}, k ∈ removed ↔ Relation.ReflTransGen l.store.ChildOf k id
  once : removed.Nodup
  bottom_up : ∀ {k j}, j ∈ removed → Relation.TransGen l.store.ChildOf k j →
    [k, j].Sublist removed
  later_first : ∀ {p j k x y}, p ∈ removed → l.store.ChildOf j p → l.store.ChildOf k p →
    [j, k].Sublist log.dedup → Relation.ReflTransGen l.store.ChildOf x k →
    Relation.ReflTransGen l.store.ChildOf y j → [x, y].Sublist removed
  found : ∀ k, l'.store.get? k = if k ∈ removed then none else l.store.get? k
  numbers : l'.store.ids = l.store.ids
  lists : ∀ p, l'.lists.of p = if p ∈ removed then []
    else if l.store.ChildOf id p then (l.lists.of p).filter (· ≠ id) else l.lists.of p

private theorem Agrees.pair_sublist_children (h : l.Agrees log) {p j k : VarId} (hp : p ≠ noParent)
    (hj : l.store.ChildOf j p) (hk : l.store.ChildOf k p) (hjk : [j, k].Sublist log.dedup) :
    [j, k].Sublist (l.store.children p) := by
  have hsub := hjk.filter fun id ↦ decide (l.store.parent? id = some p)
  rw [ChildOf] at hj hk
  rw [← h.children_log hp, h.children hp] at hsub
  simpa [hj, hk] using hsub

theorem Agrees.uproots (h : l.Agrees log) (hc : l.store.contains id = true) :
    l.Uproots log id (l.store.destroy id).1 (l.after (.destroy id)) where
  gathers := h.gathers hc
  subtree := h.grown.mem_destroy_iff_reflTransGen hc
  once := h.nodup_destroy id
  bottom_up hj hk := h.grown.pair_sublist_destroy hj hk
  later_first {p j k x y} hp hj hk hjk hx hy := by
    have hbelow := (h.grown.mem_destroy_iff_reflTransGen hc).mp hp
    have hpc := contains_of_reflTransGen hc hbelow
    have hsiblings := h.pair_sublist_children (h.grown.ne_noParent_of_contains hpc) hj hk hjk
    have hx' := (h.grown.mem_destroy_iff_of_childOf hk).mpr hx
    have hy' := (h.grown.mem_destroy_iff_of_childOf hj).mpr hy
    have hpair : [x, y].Sublist ((l.store.destroy k).1 ++ (l.store.destroy j).1) :=
      (List.singleton_sublist.mpr hx').append (List.singleton_sublist.mpr hy')
    exact (hpair.trans (h.grown.destroy_append_sublist hpc hsiblings)).trans
      (h.grown.destroy_sublist hc hbelow)
  found k := get?_destroy l.store id k
  numbers := by rw [Listed.after, Edit.after, destroy_of_contains hc]
  lists p := by
    obtain ⟨v, hv⟩ := contains_iff.mp hc
    have hparent : l.store.parent? id = some v.parent := by rw [parent?, hv, Option.map_some]
    rw [Listed.after, relist, hparent]
    simp only [ChildOf, hparent, Option.some_inj]
    exact ChildLists.of_drop l.lists v.parent id (l.store.destroy id).1 p

/-- **A destruction removes a subtree from the bottom up, and nothing else.** One of an unknown
variable changes nothing. -/
theorem uproots_run (ids : IdSource) (es : List Edit) (id : VarId) :
    (((fresh ids).run es).store.contains id = false →
      (((fresh ids).run es).store.destroy id).1 = [] ∧
        ((fresh ids).run es).after (.destroy id) = (fresh ids).run es) ∧
    (((fresh ids).run es).store.contains id = true →
      ((fresh ids).run es).Uproots ((withIds ids).insertions es) id
        (((fresh ids).run es).store.destroy id).1 (((fresh ids).run es).after (.destroy id))) := by
  have hagrees := (agrees_fresh ids).run es
  generalize (fresh ids).run es = l at hagrees ⊢
  constructor
  · intro hc
    have hparent : l.store.parent? id = none := by
      rw [parent?, contains_eq_false_iff.mp hc, Option.map_none]
    rw [Listed.after, Edit.after, relist, hparent, destroy_of_not_contains hc]
    exact ⟨rfl, rfl⟩
  · exact hagrees.uproots

/-- Insertions of a root, a child of it, and three variables below the child. -/
def planting : List Edit :=
  [(1, noParent), (4, 1), (5, 4), (6, 4), (9, 6)].map fun (id, parent) ↦
    .insert ⟨some id, parent, .null, .empty, false⟩

theorem uproots_planting :
    ((fresh .backend).run planting).Uproots [1, 4, 5, 6, 9] 4 [9, 6, 5, 4]
      (((fresh .backend).run planting).after (.destroy 4)) :=
  (uproots_run .backend planting 4).2 (by decide)

end Listed

end ReactiveVars
