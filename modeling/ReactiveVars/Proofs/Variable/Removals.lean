import ReactiveVars.Proofs.Variable.ChildLists
import ReactiveVars.Proofs.Variable.Lineages

/-!
# What destructions remove

A destruction removes exactly the variables that have the destroyed one in their lineage, and the
lineage of what it leaves stays as it is. So it does not matter in which order several variables are
destroyed: what is gone in the end is what had one of them in its lineage at the beginning.

## Main statement

* `Grown.contains_destroyAll_iff`: what several destructions leave.
-/

namespace ReactiveVars.Store

variable {s : Store} {id k : VarId} {ids : List VarId} {newer older : List Variable}

/-- **A destruction removes what has the destroyed variable in its lineage.** -/
theorem Grown.mem_destroy_iff (h : Grown s.entries) :
    k ∈ (s.destroy id).1 ↔ id ∈ (s.lineage k).map Variable.id := by
  constructor
  · intro hk
    obtain ⟨u, hu, rfl⟩ := h.mem_lineage_of_mem_destroy hk
    exact List.mem_map_of_mem hu
  · induction k using h.climb_induction with
    | out k hnone =>
      rw [lineage, lineageIn_of_findIn_none hnone]
      exact fun hid ↦ absurd hid (by simp)
    | up k v hv ih =>
      rw [lineage, h.lineageIn_eq hv, List.map_cons, List.mem_cons]
      rintro (rfl | hparent)
      · rw [id_of_get? hv]
        exact mem_destroy_self (contains_iff.mpr ⟨v, hv⟩)
      · refine h.mem_destroy_of_parent (ih hparent) ?_
        rw [parent?, hv, Option.map_some]

theorem Grown.contains_destroy_iff (h : Grown s.entries) :
    (s.destroy id).2.contains k = true ↔
      s.contains k = true ∧ id ∉ (s.lineage k).map Variable.id := by
  rw [← h.mem_destroy_iff, contains, get?_destroy, contains]
  split
  · next hk => simp [hk]
  · next hk => simp [hk]

theorem Grown.lineage_destroy (h : Grown s.entries) (hk : k ∉ (s.destroy id).1) :
    (s.destroy id).2.lineage k = s.lineage k := by
  induction k using h.climb_induction with
  | out k hnone =>
    have hnone' : (s.destroy id).2.get? k = none := by rw [get?_destroy, if_neg hk, hnone]
    rw [lineage, lineageIn_of_findIn_none hnone', lineage, lineageIn_of_findIn_none hnone]
  | up k v hv ih =>
    have hv' : (s.destroy id).2.get? k = some v := by rw [get?_destroy, if_neg hk, hv]
    have hparent : v.parent ∉ (s.destroy id).1 := by
      intro hp
      refine hk (h.mem_destroy_of_parent hp ?_)
      rw [parent?, hv, Option.map_some]
    have hrest := ih hparent
    rw [lineage, lineage] at hrest
    rw [lineage, (h.destroy id).lineageIn_eq hv', lineage, h.lineageIn_eq hv, hrest]

/-- The store after destructions in order. -/
def destroyAll (s : Store) (ids : List VarId) : Store := ids.foldl (fun s id ↦ (s.destroy id).2) s

/-- **Destructions leave what has none of the destroyed variables in its lineage.** -/
theorem Grown.contains_destroyAll_iff (h : Grown s.entries) :
    (s.destroyAll ids).contains k = true ↔
      s.contains k = true ∧ ∀ u ∈ s.lineage k, u.id ∉ ids := by
  induction ids generalizing s with
  | nil => simp [destroyAll]
  | cons id ids ih =>
    rw [destroyAll, List.foldl_cons, ← destroyAll, ih (h.destroy id), h.contains_destroy_iff]
    by_cases hk : k ∈ (s.destroy id).1
    · -- what the first destruction removes is gone, and has it in its lineage
      have hmem := h.mem_destroy_iff.mp hk
      obtain ⟨u, hu, rfl⟩ := List.mem_map.mp hmem
      constructor
      · rintro ⟨⟨-, hnot⟩, -⟩
        exact absurd hmem hnot
      · rintro ⟨-, hnone⟩
        exact absurd List.mem_cons_self (hnone u hu)
    · rw [h.lineage_destroy hk]
      rw [h.mem_destroy_iff, List.mem_map, not_exists] at hk
      constructor
      · rintro ⟨⟨hc, -⟩, hrest⟩
        refine ⟨hc, fun u hu hid ↦ ?_⟩
        rcases List.mem_cons.mp hid with hid | hid
        · exact hk u ⟨hu, hid⟩
        · exact hrest u hu hid
      · rintro ⟨hc, hnone⟩
        refine ⟨⟨hc, ?_⟩, fun u hu hid ↦ hnone u hu (List.mem_cons_of_mem id hid)⟩
        rw [List.mem_map, not_exists]
        exact hk

/-! ## Older variables -/

/-- A grown list finds an older variable where it has been before the newer ones came. -/
theorem Grown.findIn_append (h : Grown (newer ++ older)) (hk : (findIn k older).isSome = true) :
    findIn k (newer ++ older) = findIn k older ∧
      lineageIn k (newer ++ older) = lineageIn k older := by
  induction newer with
  | nil => exact ⟨rfl, rfl⟩
  | cons u newer ih =>
    rw [List.cons_append] at h ⊢
    rcases h with _ | ⟨hgrown, -, fresh, -⟩
    obtain ⟨hfind, hlineage⟩ := ih hgrown
    have hne : u.id ≠ k := by
      rintro rfl
      rw [fresh] at hfind
      rw [← hfind] at hk
      exact absurd hk (by simp)
    rw [findIn_cons, if_neg hne, lineageIn_cons, if_neg hne]
    exact ⟨hfind, hlineage⟩

end ReactiveVars.Store
