import ReactiveVars.Frontend.Engine
import ReactiveVars.Proofs.Frontend.Edits
import ReactiveVars.Proofs.Variable.Removals

/-!
# What binding an element adds to the copy

An element is bound by variables that are created for it one by one, under numbers that the copy has
not used. They go in front of what there is, so they are in no lineage of it, and destroying them
takes away nothing else: a binding that fails is undone.

## Main statements

* `BindingEngine.adds_createBindings`: the bindings that are made are the variables that are added.
* `LocalStore.Adds.contains_destroyAll`: destroying what has been added leaves what there was.
-/

namespace ReactiveVars

namespace LocalStore

open Store

variable {window : Nat} {base : VarId} {l l' l'' : LocalStore} {ids ids' : List VarId} {k : VarId}

/-! ## Variables in front

New variables are in front of the older ones, and this is why nothing older can be below them. -/

/-- Whether variables with given numbers, none of them used before, are added one by one. -/
structure Adds (l l' : LocalStore) (ids : List VarId) : Prop where
  edited : l.EditedTo l'
  entries : ∃ newer, l'.store.entries = newer ++ l.store.entries ∧
    (newer.map Variable.id).reverse = ids
  fresh : ∀ k ∈ ids, ¬ l.store.ids.Passed k

theorem adds_nothing (hedited : l.EditedTo l') (h : l'.store.entries = l.store.entries) :
    l.Adds l' [] where
  edited := hedited
  entries := ⟨[], h, rfl⟩
  fresh _ hk := absurd hk (by simp)

theorem Adds.trans (h : l.Adds l' ids) (h' : l'.Adds l'' ids') : l.Adds l'' (ids ++ ids') where
  edited := h.edited.trans h'.edited
  entries := by
    obtain ⟨newer, hentries, rfl⟩ := h.entries
    obtain ⟨newer', hentries', rfl⟩ := h'.entries
    refine ⟨newer' ++ newer, ?_, ?_⟩
    · rw [hentries', hentries, List.append_assoc]
    · rw [List.map_append, List.reverse_append]
  fresh k hk := by
    rcases List.mem_append.mp hk with hk | hk
    · exact h.fresh k hk
    · exact fun hpassed ↦ h'.fresh k hk (h.edited.onward.passed hpassed)

/-- What there is after an addition is what there was, and what is added. -/
theorem Adds.contains_iff (h : l.Adds l' ids) :
    l'.store.contains k = true ↔ k ∈ ids ∨ l.store.contains k = true := by
  obtain ⟨newer, hentries, rfl⟩ := h.entries
  simp only [contains, get?_eq_findIn, isSome_findIn_iff, hentries, List.mem_append,
    List.mem_reverse, List.mem_map]
  constructor
  · rintro ⟨v, hv | hv, rfl⟩
    · exact .inl ⟨v, hv, rfl⟩
    · exact .inr ⟨v, hv, rfl⟩
  · rintro (⟨v, hv, rfl⟩ | ⟨v, hv, rfl⟩)
    · exact ⟨v, .inl hv, rfl⟩
    · exact ⟨v, .inr hv, rfl⟩

theorem Adds.nodup (h : l.Adds l' ids) (hl : (withBase window base).EditedTo l) : ids.Nodup := by
  have hgrown := (hl.trans h.edited).grown
  obtain ⟨newer, hentries, rfl⟩ := h.entries
  rw [hentries] at hgrown
  have hnodup := hgrown.nodup
  rw [List.map_append] at hnodup
  exact List.nodup_reverse.mpr hnodup.of_append_left

theorem Adds.not_mem (h : l.Adds l' ids) (hl : (withBase window base).EditedTo l)
    (hk : l.store.contains k = true) : k ∉ ids := by
  obtain ⟨used, hahead⟩ := hl.ahead
  exact fun hmem ↦ h.fresh k hmem (hahead.stored k hk)

/-- **Destroying what has been added leaves what there was.** -/
theorem Adds.contains_destroyAll (h : l.Adds l' ids) (hl : (withBase window base).EditedTo l)
    (hk : l.store.contains k = true) : (l'.store.destroyAll ids).contains k = true := by
  have hgrown := (hl.trans h.edited).grown
  rw [hgrown.contains_destroyAll_iff]
  refine ⟨h.contains_iff.mpr (.inr hk), fun u hu ↦ h.not_mem hl ?_⟩
  -- what is in a lineage of an older variable is itself older
  obtain ⟨newer, hentries, -⟩ := h.entries
  rw [hentries] at hgrown
  rw [lineage, hentries, (hgrown.findIn_append hk).2] at hu
  exact isSome_findIn_iff.mpr ⟨u, (lineageIn_sublist k _).subset hu, rfl⟩

/-! ## One variable -/

theorem adds_create (l : LocalStore) (now : Nat) (parent : VarId) (value : Option Json)
    (ps : Properties) (o : Option Observer) (unbound : Bool) :
    l.Adds (l.create now parent value ps o unbound).2
      (l.create now parent value ps o unbound).1.toOption.toList := by
  have hedited := l.create_edited now parent value ps o unbound
  rw [create, Store.insert_vended] at hedited ⊢
  rcases hcheck : l.store.checkNew l.store.ids.next parent with e | _
  · rw [hcheck] at hedited
    exact adds_nothing hedited rfl
  · rw [hcheck] at hedited
    refine ⟨hedited, ⟨[newVariable l.store.ids.next ⟨none, parent, value.getD .null, ps, unbound⟩],
      ?_, rfl⟩, fun k hk ↦ ?_⟩
    · rcases unbound with _ | _ <;> rfl
    · rw [List.mem_singleton.mp hk]
      exact l.store.ids.not_passed_next

/-! ## What other steps keep -/

theorem store_unwatch (l : LocalStore) (now : Nat) (id : VarId) (o : Observer) :
    (l.unwatch now id o).store = l.store := by
  have h := l.act_unwatch now id o
  rw [act] at h
  rw [h]

theorem store_watch {now : Nat} {id : VarId} {o : Observer} {v : Json}
    (h : l.watch now id o = .ok (v, l')) : l'.store = l.store := by
  rw [watch] at h
  split at h
  · exact absurd h (by simp)
  · obtain ⟨-, rfl⟩ := Prod.mk.inj (Except.ok.inj h)
    split <;> rfl

/-- Whether the copy is edited so that no variable comes or goes. -/
structure Keeps (l l' : LocalStore) : Prop where
  edited : l.EditedTo l'
  contains : ∀ k, l'.store.contains k = l.store.contains k

theorem keeps_of_eq (h : l'.store = l.store) : l.Keeps l' :=
  ⟨editedTo_of_eq h, fun k ↦ by rw [h]⟩

theorem Keeps.trans (h : l.Keeps l') (h' : l'.Keeps l'') : l.Keeps l'' :=
  ⟨h.edited.trans h'.edited, fun k ↦ (h'.contains k).trans (h.contains k)⟩

theorem keeps_update {now : Nat} {id : VarId} {value : Option Json} {ps : Properties}
    (h : l.update now id value ps = .ok l') : l.Keeps l' := by
  have hact : l.act (.update now id value ps) = l' := by rw [act, h]
  rw [← hact]
  refine ⟨l.act_edited _, fun k ↦ ?_⟩
  by_cases hc : l.store.contains id = true
  · rw [act_update_of_contains hc]
    exact contains_modify _ _ (fun _ ↦ by rfl) k
  · rw [act_update_of_not_contains (by simpa using hc)]

/-- An update is refused only if there is no such variable. -/
theorem update_ok {id : VarId} (h : l.store.contains id = true) (now : Nat)
    (value : Option Json) (ps : Properties) : ∃ l', l.update now id value ps = .ok l' := by
  rw [update, Store.update, if_pos h]
  exact ⟨_, rfl⟩

/-- A batch takes away only what it tells to be destroyed. -/
theorem contains_applyMessage (m : Message) (h : l.store.contains k = true) :
    .destroyed k ∈ (l.applyMessage m).1 ∨ (l.applyMessage m).2.store.contains k = true := by
  have hmodify (id : VarId) {value : Option Json} {ps : Properties} {s : Store}
      (hs : l.store.update id value ps = .ok s) : s.contains k = true := by
    obtain ⟨-, rfl⟩ := update_eq_ok_iff.mp hs
    rwa [contains_modify _ _ fun _ ↦ by rfl]
  rcases m with ⟨parent, value, ps, _ | id, noWatch, unbound⟩ | ⟨id, value, ps⟩ | id | id | id |
    ⟨id, code, description⟩
  · exact .inr h
  · refine .inr ?_
    rw [applyMessage]
    rcases htake : takeIn l.store id parent value ps unbound with e | s
    · exact h
    · rw [takeIn] at htake
      split at htake
      · exact hmodify id htake
      · obtain ⟨-, rfl⟩ := insertAs_eq_ok_iff.mp htake
        exact isSome_findIn_cons h _
  · refine .inr ?_
    rw [applyMessage]
    rcases hupdate : l.store.update id value ps with e | s
    · exact h
    · exact hmodify id hupdate
  · exact .inr h
  · exact .inr h
  · rw [applyMessage, Store.contains, get?_destroy]
    by_cases hk : k ∈ (l.store.destroy id).1
    · exact .inl (List.mem_map_of_mem hk)
    · rw [if_neg hk]
      exact .inr h
  · exact .inr h

theorem contains_applyAll (ms : List Message) (h : l.store.contains k = true) :
    .destroyed k ∈ (l.applyAll ms).1 ∨ (l.applyAll ms).2.store.contains k = true := by
  induction ms generalizing l with
  | nil => exact .inr h
  | cons m ms ih =>
    rw [applyAll]
    rcases contains_applyMessage m h with hgone | hm
    · exact .inl (List.mem_append_left _ hgone)
    · exact (ih hm).imp_left (List.mem_append_right _)

end LocalStore

/-! ## The variables of an element

Bindings are made by a recursion over the declarations of an element, and for each variable the copy
is asked for one create. `FollowsCreating` proves a relation along the recursion once, from the
creates. -/

namespace BindingEngine

open LocalStore

variable {l : LocalStore}

/-- Whether a relation of copies, with the variables that have been created in between, goes through
all that is made of creating bound variables below a context. -/
structure FollowsCreating (now : Nat) (context : VarId)
    (R : LocalStore → LocalStore → List VarId → Prop) : Prop where
  refl : ∀ l, R l l []
  trans : ∀ {l l' l'' ids ids'}, R l l' ids → R l' l'' ids' → R l l'' (ids ++ ids')
  create : ∀ l ps o, R l (l.create now context none ps o false).2
    (l.create now context none ps o false).1.toOption.toList

section FollowsCreating

variable {now : Nat} {context : VarId} {R : LocalStore → LocalStore → List VarId → Prop}

private theorem FollowsCreating.createBinding (h : FollowsCreating now context R) (l : LocalStore)
    (kind : BindingKind) (raw tag : String) (o : Observer) :
    R l (createBinding l now context kind raw tag o).2
      ((createBinding l now context kind raw tag o).1.toOption.toList.map Binding.id) := by
  rw [BindingEngine.createBinding]
  rcases declaredPath context raw with e | path
  · exact h.refl l
  simp only
  rcases accessOf context path kind tag with e | access
  · exact h.refl l
  simp only
  have hcreate := h.create l (bindingProperties path access)
    (if access.isReadable then some o else none)
  split
  · next heq => rwa [heq] at hcreate
  · next heq => rwa [heq] at hcreate

theorem FollowsCreating.createBindings (h : FollowsCreating now context R) (l : LocalStore)
    (tag : String) (o : Observer) (declarations : List (String × String)) :
    R l (createBindings l now context tag o declarations).2.2
      ((createBindings l now context tag o declarations).1.map Binding.id) := by
  induction declarations generalizing l with
  | nil => exact h.refl l
  | cons declaration declarations ih =>
    obtain ⟨name, raw⟩ := declaration
    rw [BindingEngine.createBindings]
    rcases BindingKind.ofAttribute? name with _ | kind
    · exact ih l
    · simp only
      have hfirst := h.createBinding l kind raw tag o
      split
      · next heq => rwa [heq] at hfirst
      · next heq =>
        rw [heq] at hfirst
        exact h.trans hfirst (ih _)

end FollowsCreating

private theorem followsCreating_adds (now : Nat) (context : VarId) :
    FollowsCreating now context Adds where
  refl _ := adds_nothing (editedTo_of_eq rfl) rfl
  trans h h' := h.trans h'
  create l ps o := l.adds_create now context none ps o false

/-- **The bindings that are made are the variables that are added.** -/
theorem adds_createBindings (l : LocalStore) (now : Nat) (context : VarId) (tag : String)
    (o : Observer) (declarations : List (String × String)) :
    l.Adds (createBindings l now context tag o declarations).2.2
      ((createBindings l now context tag o declarations).1.map Binding.id) :=
  (followsCreating_adds now context).createBindings l tag o declarations

theorem editedTo_destroyBindings (l : LocalStore) (now : Nat) (bs : List Binding) :
    l.EditedTo (destroyBindings l now bs) := by
  induction bs generalizing l with
  | nil => exact editedTo_of_eq rfl
  | cons b bs ih => exact (l.act_edited (.destroy now b.id)).trans (ih _)

theorem store_destroyBindings (l : LocalStore) (now : Nat) (bs : List Binding) :
    (destroyBindings l now bs).store = l.store.destroyAll (bs.map Binding.id) := by
  induction bs generalizing l with
  | nil => rfl
  | cons b bs ih =>
    have hdestroy : (l.destroy now b.id).2.store = (l.store.destroy b.id).2 := by
      have h := l.act_destroy now b.id
      rw [act] at h
      rw [h]
    rw [destroyBindings, List.foldl_cons, ← destroyBindings, ih, hdestroy]
    rfl

end BindingEngine

end ReactiveVars
