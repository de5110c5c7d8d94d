import ReactiveVars.Order.KeyMap

/-!
# Keys of maps

What the keys of a map, and the maps changed by `modify`, amount to in terms of look-ups. Everything
above this file speaks of maps through `get?` alone.
-/

namespace ReactiveVars

/-! ## Entries in order

A map is built by putting entries in one by one. Entries that come in the order of their keys go to
the end each time, so the list that they came from is the list of the map. -/

namespace Entries

variable {α β : Type} [LT α] [DecidableEq α] [KeyOrder α] [DecidableLT α]

/-- A key behind all others is put at the end. -/
private theorem insert_eq_append {k : α} {es : List (α × β)} (h : ∀ e ∈ es, e.1 < k) (v : β) :
    Entries.insert k v es = es ++ [(k, v)] := by
  induction es with
  | nil => rfl
  | cons e rest ih =>
    rw [List.forall_mem_cons] at h
    have hlt : ¬ k < e.1 := fun hk ↦ KeyOrder.irrefl k (KeyOrder.trans hk h.1)
    have hne : k ≠ e.1 := by
      rintro rfl
      exact KeyOrder.irrefl _ h.1
    rw [Entries.insert, if_neg hlt, if_neg hne, ih h.2, List.cons_append]

/-- Putting ascending entries in their places one by one makes the list of them. -/
theorem Ascending.foldl_insert {es : List (α × β)} (h : Ascending es) :
    es.foldl (fun es e ↦ Entries.insert e.1 e.2 es) [] = es := by
  have hfold (done : List (α × β)) (hdone : Ascending (done ++ es)) :
      es.foldl (fun es e ↦ Entries.insert e.1 e.2 es) done = done ++ es := by
    induction es generalizing done with
    | nil => exact (List.append_nil done).symm
    | cons e es ih =>
      have hlt : ∀ d ∈ done, d.1 < e.1 :=
        fun d hd ↦ (List.pairwise_append.mp hdone).2.2 d hd e List.mem_cons_self
      rw [List.append_cons] at hdone
      rw [List.foldl_cons, insert_eq_append hlt, ih h.of_cons _ hdone, ← List.append_cons]
  exact hfold [] h

omit [KeyOrder α] [DecidableLT α] in
/-- Behind an entry there is nothing under a key that is not behind its key. -/
theorem Ascending.find?_eq_none {e : α × β} {es : List (α × β)} (h : Ascending (e :: es)) {k : α}
    (hk : ¬ e.1 < k) : find? k es = none := by
  refine Entries.find?_eq_none fun d hd heq ↦ hk ?_
  rw [← heq]
  exact List.rel_of_pairwise_cons h hd

omit [LT α] [KeyOrder α] [DecidableLT α] in
theorem find?_append (k : α) (es es' : List (α × β)) :
    find? k (es ++ es') = (find? k es).or (find? k es') := by
  induction es with
  | nil => rfl
  | cons e es ih =>
    rw [List.cons_append, find?_cons, find?_cons, ih]
    split <;> rfl

omit [KeyOrder α] in
theorem find?_foldl_insert {es : List (α × β)} (h : (es.map Prod.fst).Nodup) (k : α) :
    find? k (es.foldl (fun es e ↦ Entries.insert e.1 e.2 es) []) = find? k es := by
  have hfold (done : List (α × β)) : find? k (es.foldl (fun es e ↦ Entries.insert e.1 e.2 es) done)
      = (find? k es).or (find? k done) := by
    induction es generalizing done with
    | nil => rfl
    | cons e es ih =>
      rw [List.map_cons, List.nodup_cons] at h
      rw [List.foldl_cons, ih h.2, find?_insert, find?_cons]
      by_cases he : e.1 = k
      · have hnone : find? k es = none := by
          refine find?_eq_none fun e' he' heq ↦ h.1 ?_
          rw [he, ← heq]
          exact List.mem_map_of_mem he'
        rw [if_pos he, if_pos he, hnone]
        rfl
      · rw [if_neg he, if_neg he]
  rw [hfold, find?_nil, Option.or_none]

end Entries

namespace KeyMap

variable {α β γ : Type} [LT α] [DecidableEq α]

/-! ## Which keys have a value

Keys are compared through `contains` and `get?`; that the list of the keys ascends is used only to
tell that none is listed twice. -/

theorem contains_iff {m : KeyMap α β} {k : α} : m.contains k = true ↔ ∃ v, m.get? k = some v := by
  rw [contains, Option.isSome_iff_exists]

theorem contains_eq_false_iff {m : KeyMap α β} {k : α} :
    m.contains k = false ↔ m.get? k = none := by
  rw [contains, Option.isSome_eq_false_iff, Option.isNone_iff_eq_none]

private theorem mem_keys_of_get? {m : KeyMap α β} {k : α} {v : β} (h : m.get? k = some v) :
    k ∈ m.keys :=
  List.mem_map.mpr ⟨(k, v), mem_of_get? h, rfl⟩

@[simp] theorem contains_empty (k : α) : (KeyMap.empty : KeyMap α β).contains k = false := rfl

theorem contains_erase (m : KeyMap α β) (k k' : α) :
    (m.erase k).contains k' = (!decide (k = k') && m.contains k') := by
  rw [contains, get?_erase, contains]
  by_cases h : k = k' <;> simp [h]

theorem get?_foldl_erase (key : γ → α) (cs : List γ) (m : KeyMap α β) (k : α) :
    (cs.foldl (fun m c ↦ m.erase (key c)) m).get? k
      = if k ∈ cs.map key then none else m.get? k := by
  induction cs generalizing m with
  | nil => rfl
  | cons c cs ih =>
    rw [List.foldl_cons, ih, get?_erase, List.map_cons]
    by_cases hk : k ∈ cs.map key
    · rw [if_pos hk, if_pos (List.mem_cons_of_mem _ hk)]
    · by_cases hc : key c = k
      · simp [hc]
      · simp [hk, hc, Ne.symm hc]

variable [KeyOrder α]

theorem mem_keys_iff {m : KeyMap α β} {k : α} : k ∈ m.keys ↔ m.contains k = true := by
  rw [contains_iff]
  constructor
  · intro h
    obtain ⟨⟨k', v⟩, hmem, rfl⟩ := List.mem_map.mp h
    exact ⟨v, mem_entries_iff.mp hmem⟩
  · rintro ⟨v, hv⟩
    exact mem_keys_of_get? hv

omit [DecidableEq α] in
theorem nodup_keys (m : KeyMap α β) : m.keys.Nodup := by
  have h : m.keys.Pairwise (· < ·) := List.pairwise_map.mpr m.ascending
  refine h.imp ?_
  rintro a _ hab rfl
  exact KeyOrder.irrefl a hab

theorem keys_eq_of_contains {m : KeyMap α β} {m' : KeyMap α γ}
    (h : ∀ k, m.contains k = m'.contains k) : m.keys = m'.keys := by
  have hperm : m.keys.Perm m'.keys := by
    refine (List.perm_ext_iff_of_nodup m.nodup_keys m'.nodup_keys).mpr fun k ↦ ?_
    rw [mem_keys_iff, mem_keys_iff, h]
  refine hperm.eq_of_pairwise (fun a b _ _ hab hba ↦ ?_)
    (List.pairwise_map.mpr m.ascending) (List.pairwise_map.mpr m'.ascending)
  exact absurd (KeyOrder.trans hab hba) (KeyOrder.irrefl a)

/-- Maps without values are equal if they have the same keys. -/
theorem ext_contains {m m' : KeyMap α Unit} (h : ∀ k, m.contains k = m'.contains k) : m = m' := by
  refine ext_get? fun k ↦ ?_
  have hk := h k
  rw [contains, contains] at hk
  cases hm : m.get? k with
  | none =>
    rw [hm, Option.isSome_none] at hk
    exact (Option.isNone_iff_eq_none.mp (Option.isSome_eq_false_iff.mp hk.symm)).symm
  | some u =>
    rw [hm, Option.isSome_some] at hk
    obtain ⟨u', hu'⟩ := Option.isSome_iff_exists.mp hk.symm
    rw [hu']

theorem isEmpty_iff {m : KeyMap α β} : m.isEmpty = true ↔ ∀ k, m.contains k = false := by
  rw [isEmpty, List.isEmpty_iff]
  constructor
  · intro h k
    rw [contains_eq_false_iff, get?, h, Entries.find?_nil]
  · intro h
    cases hm : m.entries with
    | nil => rfl
    | cons e rest =>
      have hmem : e.1 ∈ m.keys := by rw [keys, hm]; simp
      rw [mem_keys_iff, h e.1] at hmem
      exact absurd hmem (by simp)

/-- What is left without a key is empty if there was no other. -/
theorem isEmpty_erase_iff {m : KeyMap α β} {k : α} :
    (m.erase k).isEmpty = true ↔ ∀ k', m.contains k' = true → k' = k := by
  rw [isEmpty_iff]
  refine forall_congr' fun k' ↦ ?_
  rw [contains_erase]
  cases m.contains k' with
  | false => simp
  | true => simpa using eq_comm

variable [DecidableLT α]

theorem contains_insert (m : KeyMap α β) (k k' : α) (v : β) :
    (m.insert k v).contains k' = (decide (k = k') || m.contains k') := by
  rw [contains, get?_insert, contains]
  by_cases h : k = k' <;> simp [h]

theorem get?_foldl_insert (key : γ → α) (v : β) (cs : List γ) (m : KeyMap α β) (k : α) :
    (cs.foldl (fun m c ↦ m.insert (key c) v) m).get? k
      = if k ∈ cs.map key then some v else m.get? k := by
  induction cs generalizing m with
  | nil => rfl
  | cons c cs ih =>
    rw [List.foldl_cons, ih, get?_insert, List.map_cons]
    by_cases hk : k ∈ cs.map key
    · rw [if_pos hk, if_pos (List.mem_cons_of_mem _ hk)]
    · by_cases hc : key c = k
      · simp [hc]
      · simp [hk, hc, Ne.symm hc]

/-! ## Replacing a value -/

theorem get?_modify (m : KeyMap α β) (k k' : α) (f : β → β) :
    (m.modify k f).get? k' = if k = k' then (m.get? k').map f else m.get? k' := by
  rw [modify]
  cases hk : m.get? k with
  | none =>
    by_cases h : k = k'
    · subst h; rw [if_pos rfl, hk, Option.map_none]
    · rw [if_neg h]
  | some v =>
    rw [get?_insert]
    by_cases h : k = k'
    · subst h; rw [if_pos rfl, if_pos rfl, hk, Option.map_some]
    · rw [if_neg h, if_neg h]

theorem contains_modify (m : KeyMap α β) (k k' : α) (f : β → β) :
    (m.modify k f).contains k' = m.contains k' := by
  rw [contains, get?_modify, contains]
  by_cases h : k = k' <;> simp [h]

theorem insert_eq_self {m : KeyMap α β} {k : α} {v : β} (h : m.get? k = some v) :
    m.insert k v = m := by
  refine ext_get? fun k' ↦ ?_
  rw [get?_insert]
  by_cases hk : k = k'
  · subst hk; rw [if_pos rfl, h]
  · rw [if_neg hk]

/-! ## Maps of lists -/

private theorem entries_ofList (es : List (α × β)) :
    (ofList es).entries = es.foldl (fun es e ↦ Entries.insert e.1 e.2 es) [] := by
  have hfold (m : KeyMap α β) : (es.foldl (fun m e ↦ m.insert e.1 e.2) m).entries
      = es.foldl (fun es e ↦ Entries.insert e.1 e.2 es) m.entries := by
    induction es generalizing m with
    | nil => rfl
    | cons e es ih => exact ih (m.insert e.1 e.2)
  exact hfold empty

theorem ofList_entries (m : KeyMap α β) : ofList m.entries = m := by
  have hentries : (ofList m.entries).entries = m.entries := by
    rw [entries_ofList, m.ascending.foldl_insert]
  refine ext_get? fun k ↦ ?_
  rw [get?, hentries, get?]

end KeyMap

end ReactiveVars
