import ReactiveVars.Proofs.Order.Maps
import ReactiveVars.Variable.WatchTally

/-!
# The tally as a set of pairs

A tally is determined by who watches what, as long as it keeps no entry without a watcher. Each
change is described by what it does to `isWatching`; that no entry is ever left without a watcher is
`Tight`, which every change keeps.
-/

namespace ReactiveVars.WatchTally

variable {t : WatchTally} {id k : VarId} {o o' : Observer}

theorem mem_watchers_iff : o ∈ t.watchers id ↔ t.isWatching id o = true := by
  rw [watchers, KeyMap.mem_keys_iff, isWatching]

theorem watchers_eq_nil_iff : t.watchers id = [] ↔ ∀ o, t.isWatching id o = false := by
  rw [List.eq_nil_iff_forall_not_mem]
  simp only [mem_watchers_iff, Bool.not_eq_true]

theorem watchers_ne_nil_of_isWatching (h : t.isWatching id o = true) : t.watchers id ≠ [] :=
  List.ne_nil_of_mem (mem_watchers_iff.mpr h)

private theorem isEmpty_observers_iff : (t.observers id).isEmpty = true ↔ t.watchers id = [] := by
  rw [KeyMap.isEmpty_iff, watchers_eq_nil_iff]
  rfl

private theorem observers_of_get? {set : KeyMap Observer Unit} (h : t.watched.get? id = some set) :
    t.observers id = set := by
  rw [observers, h, Option.getD_some]

/-! ## Counting in -/

theorem observers_watch (t : WatchTally) (id : VarId) (o : Observer) (k : VarId) :
    (t.watch id o).2.observers k
      = if id = k then (t.observers id).insert o () else t.observers k := by
  rw [observers, watch, KeyMap.get?_insert]
  by_cases h : id = k
  · rw [if_pos h, if_pos h, Option.getD_some]
  · rw [if_neg h, if_neg h, observers]

theorem isWatching_watch (t : WatchTally) (id : VarId) (o : Observer) (k : VarId) (o' : Observer) :
    (t.watch id o).2.isWatching k o' = (decide (id = k ∧ o = o') || t.isWatching k o') := by
  rw [isWatching, observers_watch, isWatching]
  by_cases h : id = k
  · subst h; simp [KeyMap.contains_insert]
  · simp [h]

/-- The first watcher is the one who comes when nobody watches. -/
theorem edge_watch_iff : (t.watch id o).1.edge = true ↔ t.watchers id = [] := isEmpty_observers_iff

theorem watch_of_isWatching (h : t.isWatching id o = true) : (t.watch id o).2 = t := by
  obtain ⟨⟨⟩, hu⟩ := KeyMap.contains_iff.mp h
  cases hw : t.watched.get? id with
  | none => rw [observers, hw, Option.getD_none, KeyMap.get?_empty] at hu; exact absurd hu (by simp)
  | some set =>
    rw [observers_of_get? hw] at hu
    rw [watch, observers_of_get? hw, KeyMap.insert_eq_self hu, KeyMap.insert_eq_self hw]

/-! ## Counting out -/

theorem observers_unwatch (t : WatchTally) (id : VarId) (o : Observer) (k : VarId) :
    (t.unwatch id o).2.observers k
      = if id = k then (t.observers id).erase o else t.observers k := by
  rw [unwatch]
  by_cases he : ((t.observers id).erase o).isEmpty = true
  · rw [if_pos he, observers, KeyMap.get?_erase]
    by_cases h : id = k
    · rw [if_pos h, if_pos h, Option.getD_none]
      refine KeyMap.ext_get? fun o' ↦ ?_
      rw [KeyMap.get?_empty, KeyMap.contains_eq_false_iff.mp (KeyMap.isEmpty_iff.mp he o')]
    · rw [if_neg h, if_neg h, observers]
  · rw [if_neg he, observers, KeyMap.get?_insert]
    by_cases h : id = k
    · rw [if_pos h, if_pos h, Option.getD_some]
    · rw [if_neg h, if_neg h, observers]

theorem isWatching_unwatch (t : WatchTally) (id : VarId) (o : Observer) (k : VarId)
    (o' : Observer) :
    (t.unwatch id o).2.isWatching k o' = (!decide (id = k ∧ o = o') && t.isWatching k o') := by
  rw [isWatching, observers_unwatch, isWatching]
  by_cases h : id = k
  · subst h; simp [KeyMap.contains_erase]
  · simp [h]

/-- Whether an observer is the only one that watches a variable. -/
def IsOnlyWatcher (t : WatchTally) (id : VarId) (o : Observer) : Prop :=
  t.isWatching id o = true ∧ ∀ o', t.isWatching id o' = true → o' = o

/-- The last watcher is the only one that is left when it goes. -/
theorem edge_unwatch_iff : (t.unwatch id o).1.edge = true ↔ t.IsOnlyWatcher id o := by
  rw [unwatch, IsOnlyWatcher, Bool.and_eq_true, KeyMap.isEmpty_erase_iff]
  rfl

theorem watchers_eq_singleton_iff : t.watchers id = [o] ↔ t.IsOnlyWatcher id o := by
  rw [IsOnlyWatcher]
  simp only [← mem_watchers_iff]
  constructor
  · intro h
    rw [h]
    exact ⟨List.mem_singleton_self o, fun o' ho' ↦ List.mem_singleton.mp ho'⟩
  · rintro ⟨hmem, honly⟩
    exact (List.perm_singleton.mp ((List.perm_ext_iff_of_nodup (t.observers id).nodup_keys
      (List.pairwise_singleton _ o)).mpr fun o' ↦
        ⟨fun ho' ↦ List.mem_singleton.mpr (honly o' ho'), fun ho' ↦ by
          rwa [List.mem_singleton.mp ho']⟩))

theorem watchers_unwatch_eq_nil (h : t.IsOnlyWatcher id o) :
    (t.unwatch id o).2.watchers id = [] := by
  rw [watchers_eq_nil_iff]
  intro o'
  rw [isWatching_unwatch]
  cases hw : t.isWatching id o' with
  | false => simp
  | true => simp [h.2 o' hw]

/-! ## Counting out everywhere -/

theorem get?_unwatchAll (t : WatchTally) (o : Observer) (k : VarId) :
    (t.unwatchAll o).2.watched.get? k = (t.watched.get? k).bind fun set ↦
      if (set.erase o).isEmpty then none else some (set.erase o) :=
  KeyMap.get?_filterMap t.watched _ k

theorem observers_unwatchAll (t : WatchTally) (o : Observer) (k : VarId) :
    (t.unwatchAll o).2.observers k = (t.observers k).erase o := by
  rw [observers, get?_unwatchAll, observers]
  cases t.watched.get? k with
  | none => rfl
  | some set =>
    rw [Option.bind_some, Option.getD_some]
    by_cases he : (set.erase o).isEmpty = true
    · rw [if_pos he, Option.getD_none]
      refine KeyMap.ext_get? fun o' ↦ ?_
      rw [KeyMap.get?_empty, KeyMap.contains_eq_false_iff.mp (KeyMap.isEmpty_iff.mp he o')]
    · rw [if_neg he, Option.getD_some]

theorem isWatching_unwatchAll (t : WatchTally) (o : Observer) (k : VarId) (o' : Observer) :
    (t.unwatchAll o).2.isWatching k o' = (!decide (o = o') && t.isWatching k o') := by
  rw [isWatching, observers_unwatchAll, KeyMap.contains_erase, isWatching]

/-- What is left without a watcher is what the observer alone watched. -/
theorem mem_unwatchAll_iff : id ∈ (t.unwatchAll o).1 ↔ t.IsOnlyWatcher id o := by
  rw [unwatchAll, onlyWatchedBy, KeyMap.mem_keys_iff, KeyMap.contains, KeyMap.get?_filterMap,
    IsOnlyWatcher]
  cases hw : t.watched.get? id with
  | none => simp [isWatching, observers, hw]
  | some set =>
    simp only [isWatching, observers_of_get? hw, Option.bind_some]
    rw [← KeyMap.isEmpty_erase_iff, ← Bool.and_eq_true]
    cases set.contains o && (set.erase o).isEmpty <;> simp

/-! ## Dropping -/

theorem isWatching_forget (t : WatchTally) (id k : VarId) (o : Observer) :
    (t.forget id).2.isWatching k o = (!decide (id = k) && t.isWatching k o) := by
  rw [isWatching, observers, forget, KeyMap.get?_erase, isWatching, observers]
  by_cases h : id = k
  · simp [h]
  · simp [h]

/-- Drops several variables. -/
def forgetAll (t : WatchTally) (ids : List VarId) : WatchTally :=
  ids.foldl (fun t id ↦ (t.forget id).2) t

theorem isWatching_forgetAll (ids : List VarId) (t : WatchTally) (k : VarId) (o : Observer) :
    (t.forgetAll ids).isWatching k o = (!decide (k ∈ ids) && t.isWatching k o) := by
  induction ids generalizing t with
  | nil => simp [forgetAll]
  | cons id ids ih =>
    rw [forgetAll, List.foldl_cons, ← forgetAll, ih, isWatching_forget]
    by_cases h : id = k
    · simp [h]
    · by_cases hk : k ∈ ids <;> simp [h, hk, Ne.symm h]

/-! ## Whether anybody watches

This is all that edges depend on. For each change there is one lemma that says what it does to the
watchers of a variable as a whole. -/

/-- Whether a variable has a watcher. -/
def hasWatcher (t : WatchTally) (id : VarId) : Bool := t.count id != 0

theorem hasWatcher_iff : t.hasWatcher id = true ↔ ∃ o, t.isWatching id o = true := by
  have hempty : t.hasWatcher id = !(t.observers id).isEmpty := by
    rw [hasWatcher, count, KeyMap.size, KeyMap.isEmpty]
    cases (t.observers id).entries <;> rfl
  rw [hempty, Bool.not_eq_true', ← Bool.not_eq_true, isEmpty_observers_iff, watchers_eq_nil_iff]
  simp

theorem hasWatcher_watch (t : WatchTally) (id : VarId) (o : Observer) (k : VarId) :
    (t.watch id o).2.hasWatcher k = (decide (id = k) || t.hasWatcher k) := by
  rw [Bool.eq_iff_iff, Bool.or_eq_true, hasWatcher_iff, hasWatcher_iff, decide_eq_true_eq]
  simp only [isWatching_watch, Bool.or_eq_true, decide_eq_true_eq, exists_or, exists_and_left,
    exists_eq', and_true]

theorem edge_watch_eq (t : WatchTally) (id : VarId) (o : Observer) :
    (t.watch id o).1.edge = !t.hasWatcher id := by
  rw [Bool.eq_iff_iff, edge_watch_iff, watchers_eq_nil_iff, Bool.not_eq_true', ← Bool.not_eq_true,
    hasWatcher_iff]
  simp

theorem hasWatcher_of_edge_unwatch (h : (t.unwatch id o).1.edge = true) :
    t.hasWatcher id = true :=
  hasWatcher_iff.mpr ⟨o, (edge_unwatch_iff.mp h).1⟩

/-- Nobody is left once the last watcher goes; any other leaves the others behind. -/
theorem hasWatcher_unwatch (t : WatchTally) (id : VarId) (o : Observer) (k : VarId) :
    (t.unwatch id o).2.hasWatcher k
      = (!(decide (id = k) && (t.unwatch id o).1.edge) && t.hasWatcher k) := by
  rw [Bool.eq_iff_iff, Bool.and_eq_true, hasWatcher_iff, hasWatcher_iff, Bool.not_eq_true',
    ← Bool.not_eq_true, Bool.and_eq_true, decide_eq_true_eq, edge_unwatch_iff]
  simp only [isWatching_unwatch, Bool.and_eq_true, Bool.not_eq_true', decide_eq_false_iff_not]
  constructor
  · rintro ⟨o', hne, hw⟩
    refine ⟨?_, o', hw⟩
    rintro ⟨rfl, honly⟩
    exact hne ⟨rfl, (honly.2 o' hw).symm⟩
  · rintro ⟨hnot, o', hw⟩
    by_cases hk : id = k ∧ o = o'
    · obtain ⟨rfl, rfl⟩ := hk
      -- somebody else watches, for else this would be the only watcher
      refine Classical.byContradiction fun hnone ↦ hnot ⟨rfl, hw, fun o'' hw'' ↦ ?_⟩
      exact Classical.byContradiction fun hne ↦ hnone ⟨o'', fun h ↦ hne h.2.symm, hw''⟩
    · exact ⟨o', hk, hw⟩

theorem hasWatcher_unwatchAll (t : WatchTally) (o : Observer) (k : VarId) :
    (t.unwatchAll o).2.hasWatcher k
      = (!decide (k ∈ (t.unwatchAll o).1) && t.hasWatcher k) := by
  -- for one variable, counting out everywhere is counting out
  have hwatch (o' : Observer) :
      (t.unwatchAll o).2.isWatching k o' = (t.unwatch k o).2.isWatching k o' := by
    rw [isWatching_unwatchAll, isWatching_unwatch]
    simp
  have hsame : (t.unwatchAll o).2.hasWatcher k = (t.unwatch k o).2.hasWatcher k := by
    rw [Bool.eq_iff_iff, hasWatcher_iff, hasWatcher_iff]
    simp only [hwatch]
  have hedge : (t.unwatch k o).1.edge = decide (k ∈ (t.unwatchAll o).1) := by
    rw [Bool.eq_iff_iff, edge_unwatch_iff, decide_eq_true_eq, mem_unwatchAll_iff]
  rw [hsame, hasWatcher_unwatch, hedge, decide_eq_true rfl, Bool.true_and]

theorem hasWatcher_of_mem_unwatchAll (h : id ∈ (t.unwatchAll o).1) : t.hasWatcher id = true :=
  hasWatcher_iff.mpr ⟨o, (mem_unwatchAll_iff.mp h).1⟩

theorem hasWatcher_forgetAll (t : WatchTally) (ids : List VarId) (k : VarId) :
    (t.forgetAll ids).hasWatcher k = (!decide (k ∈ ids) && t.hasWatcher k) := by
  rw [Bool.eq_iff_iff, Bool.and_eq_true, hasWatcher_iff, hasWatcher_iff]
  simp only [isWatching_forgetAll, Bool.and_eq_true, exists_and_left]

theorem hasWatcher_forget (t : WatchTally) (id k : VarId) :
    (t.forget id).2.hasWatcher k = (!decide (id = k) && t.hasWatcher k) := by
  have h := t.hasWatcher_forgetAll [id] k
  rw [forgetAll, List.foldl_cons, List.foldl_nil] at h
  rw [h]
  simp [eq_comm]

theorem watchers_ne_nil_iff : t.watchers id ≠ [] ↔ t.hasWatcher id = true := by
  rw [ne_eq, watchers_eq_nil_iff, hasWatcher_iff]
  simp

/-! ## No entry without a watcher

An entry whose last watcher goes is taken out. If it stayed, two tallies could tell the same and
still differ. -/

/-- Every entry has a watcher. -/
def Tight (t : WatchTally) : Prop := ∀ id, t.watched.contains id = true → t.watchers id ≠ []

theorem tight_empty : empty.Tight := fun _ h ↦ by simp [empty] at h

theorem Tight.watch (h : t.Tight) (id : VarId) (o : Observer) : (t.watch id o).2.Tight := by
  intro k hk
  by_cases he : id = k
  · subst he
    exact watchers_ne_nil_of_isWatching (o := o) (by rw [isWatching_watch]; simp)
  · rw [WatchTally.watch, KeyMap.contains_insert] at hk
    obtain ⟨o', ho'⟩ := List.exists_mem_of_ne_nil _ (h k (by simpa [he] using hk))
    rw [mem_watchers_iff] at ho'
    exact watchers_ne_nil_of_isWatching (o := o') (by rw [isWatching_watch, ho']; simp)

private theorem tight_of_observers
    (h : ∀ id set, t.watched.get? id = some set → set.isEmpty = false) : t.Tight := by
  intro id hid hnil
  obtain ⟨set, hset⟩ := KeyMap.contains_iff.mp hid
  rw [← isEmpty_observers_iff, observers_of_get? hset, h id set hset] at hnil
  exact absurd hnil (by simp)

private theorem Tight.isEmpty_eq_false (h : t.Tight) {set : KeyMap Observer Unit}
    (hset : t.watched.get? id = some set) : set.isEmpty = false := by
  rw [← observers_of_get? hset, ← Bool.not_eq_true, isEmpty_observers_iff]
  exact h id (KeyMap.contains_iff.mpr ⟨set, hset⟩)

theorem Tight.ext {t' : WatchTally} (h : t.Tight) (h' : t'.Tight)
    (hwatch : ∀ id o, t.isWatching id o = t'.isWatching id o) : t = t' := by
  have hobservers (id : VarId) : t.observers id = t'.observers id :=
    KeyMap.ext_contains (hwatch id)
  -- an entry is missing exactly if there are no observers
  have hget {t : WatchTally} (h : t.Tight) (id : VarId) : t.watched.get? id
      = if (t.observers id).isEmpty then none else some (t.observers id) := by
    cases hset : t.watched.get? id with
    | none =>
      rw [observers, hset]
      rfl
    | some set =>
      rw [observers_of_get? hset, h.isEmpty_eq_false hset]
      rfl
  have hwatched : t.watched = t'.watched := KeyMap.ext_get? fun id ↦ by
    rw [hget h, hget h', hobservers]
  cases t
  cases t'
  exact congrArg _ hwatched

theorem Tight.unwatch (h : t.Tight) (id : VarId) (o : Observer) : (t.unwatch id o).2.Tight := by
  refine tight_of_observers fun k set hset ↦ ?_
  rw [WatchTally.unwatch] at hset
  by_cases he : ((t.observers id).erase o).isEmpty = true
  · rw [if_pos he, KeyMap.get?_erase] at hset
    split at hset
    · exact absurd hset (by simp)
    · exact h.isEmpty_eq_false hset
  · rw [if_neg he, KeyMap.get?_insert] at hset
    split at hset
    · rw [Option.some_inj] at hset
      rw [← hset]
      simpa using he
    · exact h.isEmpty_eq_false hset

theorem tight_unwatchAll (t : WatchTally) (o : Observer) : (t.unwatchAll o).2.Tight := by
  refine tight_of_observers fun k set hset ↦ ?_
  rw [get?_unwatchAll, Option.bind_eq_some_iff] at hset
  obtain ⟨old, -, hset⟩ := hset
  split at hset
  · exact absurd hset (by simp)
  · next he => rw [Option.some_inj] at hset; rw [← hset]; simpa using he

theorem Tight.forget (h : t.Tight) (id : VarId) : (t.forget id).2.Tight := by
  refine tight_of_observers fun k set hset ↦ ?_
  rw [WatchTally.forget, KeyMap.get?_erase] at hset
  split at hset
  · exact absurd hset (by simp)
  · exact h.isEmpty_eq_false hset

theorem Tight.forgetAll (h : t.Tight) (ids : List VarId) : (t.forgetAll ids).Tight := by
  induction ids generalizing t with
  | nil => exact h
  | cons id ids ih => exact ih (h.forget id)

end ReactiveVars.WatchTally
