import ReactiveVars.Order.Entries

/-!
# Maps in the order of their keys

A `KeyMap` is an ascending list of entries, so a finite map has exactly one representation and two
maps are equal as soon as every key finds the same in both.

## Main statements

* `KeyMap.ext_get?`: equality is equality of all look-ups.
* `KeyMap.get?_insert`, `KeyMap.get?_erase`, `KeyMap.get?_filterMap`: what each operation does to
  a look-up.
-/

namespace ReactiveVars

/-- A finite map, as its entries in the order of the keys. -/
structure KeyMap (α β : Type) [LT α] where
  entries : List (α × β)
  ascending : Entries.Ascending entries

namespace KeyMap

variable {α β γ : Type} [LT α]

/-- The map without entries. -/
def empty : KeyMap α β := ⟨[], Entries.ascending_nil⟩

instance : EmptyCollection (KeyMap α β) := ⟨empty⟩

instance : Inhabited (KeyMap α β) := ⟨empty⟩

instance [BEq α] [BEq β] : BEq (KeyMap α β) := ⟨fun m m' ↦ m.entries == m'.entries⟩

/-- Entries and keys, in ascending order. -/
def keys (m : KeyMap α β) : List α := m.entries.map Prod.fst

/-- The values in the order of their keys. -/
def values (m : KeyMap α β) : List β := m.entries.map Prod.snd

/-- The number of entries. -/
def size (m : KeyMap α β) : Nat := m.entries.length

/-- Whether the map has no entry. -/
def isEmpty (m : KeyMap α β) : Bool := m.entries.isEmpty

section DecidableEq

variable [DecidableEq α]

/-- The value stored for a key. -/
def get? (m : KeyMap α β) (k : α) : Option β := Entries.find? k m.entries

/-- Whether a key has a value. -/
def contains (m : KeyMap α β) (k : α) : Bool := (m.get? k).isSome

/-- Removes a key and its value. -/
def erase (m : KeyMap α β) (k : α) : KeyMap α β := ⟨Entries.erase k m.entries, m.ascending.erase k⟩

instance [DecidableEq β] : DecidableEq (KeyMap α β) := fun m m' ↦
  decidable_of_iff (m.entries = m'.entries)
    ⟨fun h ↦ by cases m; cases m'; cases h; rfl, fun h ↦ by rw [h]⟩

variable [KeyOrder α] [DecidableLT α]

/-- Stores a value for a key, in place of any value it had. -/
def insert (m : KeyMap α β) (k : α) (v : β) : KeyMap α β :=
  ⟨Entries.insert k v m.entries, m.ascending.insert k v⟩

/-- The map of a list of entries; of two entries with one key the later counts. -/
def ofList (es : List (α × β)) : KeyMap α β := es.foldl (fun m e ↦ m.insert e.1 e.2) empty

/-- Replaces the value of a key that has one. -/
def modify (m : KeyMap α β) (k : α) (f : β → β) : KeyMap α β :=
  match m.get? k with
  | some v => m.insert k (f v)
  | none => m

end DecidableEq

theorem ascending_filterMap (f : α → β → Option γ) {es : List (α × β)}
    (h : Entries.Ascending es) :
    Entries.Ascending (es.filterMap fun e ↦ (f e.1 e.2).map fun v ↦ (e.1, v)) := by
  induction es with
  | nil => exact Entries.ascending_nil
  | cons e rest ih =>
    rw [List.filterMap_cons]
    split
    · exact ih h.of_cons
    · next d hd =>
      obtain ⟨v, -, rfl⟩ := Option.map_eq_some_iff.1 hd
      refine List.Pairwise.cons (fun c hc ↦ ?_) (ih h.of_cons)
      obtain ⟨a, ha, hac⟩ := List.mem_filterMap.1 hc
      obtain ⟨w, -, rfl⟩ := Option.map_eq_some_iff.1 hac
      exact List.rel_of_pairwise_cons h ha

/-- Changes every value and drops the entries for which nothing is returned. -/
def filterMap (m : KeyMap α β) (f : α → β → Option γ) : KeyMap α γ :=
  ⟨m.entries.filterMap fun e ↦ (f e.1 e.2).map fun v ↦ (e.1, v),
    ascending_filterMap f m.ascending⟩

/-! ## What a key finds -/

section Laws

variable [DecidableEq α]

@[simp] theorem get?_empty (k : α) : (empty : KeyMap α β).get? k = none := rfl

theorem get?_erase (m : KeyMap α β) (k k' : α) :
    (m.erase k).get? k' = if k = k' then none else m.get? k' := Entries.find?_erase k k' m.entries

theorem mem_of_get? {m : KeyMap α β} {k : α} {v : β} (h : m.get? k = some v) :
    (k, v) ∈ m.entries := Entries.mem_of_find? h

variable [KeyOrder α] [DecidableLT α]

theorem get?_insert (m : KeyMap α β) (k k' : α) (v : β) :
    (m.insert k v).get? k' = if k = k' then some v else m.get? k' :=
  Entries.find?_insert k k' v m.entries

omit [DecidableLT α] in
theorem mem_entries_iff {m : KeyMap α β} {k : α} {v : β} :
    (k, v) ∈ m.entries ↔ m.get? k = some v := ⟨m.ascending.find?_eq_some, mem_of_get?⟩

omit [DecidableLT α] in
theorem ext_get? {m m' : KeyMap α β} (h : ∀ k, m.get? k = m'.get? k) : m = m' := by
  cases m with
  | mk es hes =>
    cases m' with
    | mk es' hes' =>
      have : es = es' := Entries.eq_of_find?_eq hes hes' h
      subst this
      rfl

omit [DecidableLT α] in
theorem get?_filterMap (m : KeyMap α β) (f : α → β → Option γ) (k : α) :
    (m.filterMap f).get? k = (m.get? k).bind (f k) := by
  cases h : m.get? k with
  | some v =>
    cases hf : f k v with
    | some w =>
      simp only [Option.bind_some, hf]
      refine mem_entries_iff.1 (List.mem_filterMap.2 ⟨(k, v), mem_of_get? h, ?_⟩)
      simp [hf]
    | none =>
      simp only [Option.bind_some, hf]
      refine Entries.find?_eq_none fun e he hk ↦ ?_
      obtain ⟨a, ha, hae⟩ := List.mem_filterMap.1 he
      obtain ⟨w, hw, rfl⟩ := Option.map_eq_some_iff.1 hae
      simp only at hk
      subst hk
      rw [mem_entries_iff.1 ha, Option.some.injEq] at h
      rw [h, hf] at hw
      exact absurd hw (by simp)
  | none =>
    refine Entries.find?_eq_none fun e he hk ↦ ?_
    obtain ⟨a, ha, hae⟩ := List.mem_filterMap.1 he
    obtain ⟨w, hw, rfl⟩ := Option.map_eq_some_iff.1 hae
    simp only at hk
    subst hk
    rw [mem_entries_iff.1 ha] at h
    exact absurd h (by simp)

end Laws

end KeyMap

end ReactiveVars
