import Mathlib.Data.List.Forall2
import ReactiveVars.Proofs.Frontend.Histories

/-!
# A failed binding is undone

A binding may fail after some variables have been created for it. The variables are then destroyed
in the order of their creation. Each of them is bound and has no children, so its destruction takes
away this one variable and is reported, and what the last one leaves is what was there at first.

The context is watched under a name made from the number of the element, and in the end this name is
counted out. Observers are told apart by their names alone. Somebody who watches the context under
that very name is not counted in again, and is counted out with the element.

## Main statement

* `bind_undone`: what a failed binding leaves, and what it reports in which order.
-/

namespace ReactiveVars

/-! ## Several messages -/

namespace Outbox

/-- Takes messages in order. -/
def queueAll (o : Outbox) (now : Nat) (ms : List Message) : Outbox :=
  ms.foldl (fun o m ↦ o.queue now m) o

private theorem queueAll_if (o : Outbox) (now : Nat) (c : Bool) (m : Message) :
    o.queueAll now (if c then [m] else []) = if c then o.queue now m else o := by
  cases c <;> rfl

private theorem queueAll_append (o : Outbox) (now : Nat) (ms ms' : List Message) :
    o.queueAll now (ms ++ ms') = (o.queueAll now ms).queueAll now ms' :=
  List.foldl_append

end Outbox

/-- Whether a message creates a variable with a given number below another one. -/
def Message.Creates (parent id : VarId) (m : Message) : Prop :=
  ∃ ps noWatch, m = .create parent none ps (some id) noWatch false

/-! ## Variables without children -/

namespace Store

variable {s : Store} {id : VarId}

private theorem below_eq_nil {vs : List Variable} (h : ∀ v ∈ vs, v.parent ≠ id) :
    below id vs = [] := by
  induction vs with
  | nil => rfl
  | cons v vs ih =>
    rw [List.forall_mem_cons] at h
    rw [below, if_neg h.1, ih h.2]

private theorem destroy_of_childless (hc : s.contains id = true)
    (h : ∀ v ∈ s.entries, v.parent ≠ id) :
    s.destroy id = ([id], { s with entries := s.entries.filter fun v ↦ v.id ∉ [id] }) := by
  have hbelow := below_eq_nil fun v hv ↦ h v (List.mem_reverse.mp hv)
  rw [destroy_of_contains hc, hbelow]
  rfl

end Store

/-! ## Watching -/

/-- An observer that has come is the only one exactly if there has been no other. -/
private theorem WatchTally.isOnlyWatcher_iff {t t' : WatchTally} {id : VarId} {o : Observer}
    (h : ∀ k o', t'.isWatching k o' = (decide (id = k ∧ o = o') || t.isWatching k o')) :
    t'.IsOnlyWatcher id o ↔ ∀ o' ∈ t.watchers id, o' = o := by
  simp only [IsOnlyWatcher, h, mem_watchers_iff]
  constructor
  · exact fun honly o' ho' ↦ honly.2 o' (by rw [ho', Bool.or_true])
  · refine fun hothers ↦ ⟨by simp, fun o' ho' ↦ ?_⟩
    rcases (Bool.or_eq_true ..).mp ho' with hsame | hw
    · exact (of_decide_eq_true hsame).2.symm
    · exact hothers o' hw

namespace LocalStore

variable {l : LocalStore} {id : VarId}

theorem watch_of_contains (h : l.store.contains id = true) (now : Nat) (o : Observer) :
    ∃ v, l.watch now id o = .ok (v, l.act (.watch now id o)) := by
  obtain ⟨v, hv⟩ := Store.contains_iff.mp h
  rw [act, watch, get?, hv]
  exact ⟨v.value, rfl⟩

theorem watch_of_not_contains (h : l.store.contains id = false) (now : Nat) (o : Observer) :
    l.watch now id o = .error (.unknownVariable id) := by
  rw [watch, get?, Store.contains_eq_false_iff.mp h]

private theorem Tidy.isWatching_eq_false (h : l.Tidy) (hid : l.store.contains id = false)
    (o : Observer) : l.tally.isWatching id o = false := by
  rw [← Bool.not_eq_true]
  intro hw
  have hc := h.watched id (WatchTally.hasWatcher_iff.mpr ⟨o, hw⟩)
  rw [hid] at hc
  exact absurd hc (by simp)

end LocalStore

namespace BindingEngine

open LocalStore Store

variable {window : Nat} {base : VarId} {l l' l'' : LocalStore} {now : Nat} {context k : VarId}
variable {ids ids' : List VarId} {bs : List Binding}

/-- Destroys variables in order. -/
def destroyEach (l : LocalStore) (now : Nat) (ids : List VarId) : LocalStore :=
  ids.foldl (fun l id ↦ (l.destroy now id).2) l

private theorem destroyBindings_eq (l : LocalStore) (now : Nat) (bs : List Binding) :
    destroyBindings l now bs = destroyEach l now (bs.map Binding.id) := by
  rw [destroyBindings, destroyEach, List.foldl_map]

/-- Whether variables are bound and have no children. -/
structure Bare (l : LocalStore) (ids : List VarId) : Prop where
  bound : ∀ k ∈ ids, l.store.kind? k = some false
  childless : ∀ v ∈ l.store.entries, v.parent ∉ ids

theorem Bare.destroy (h : Bare l (k :: ids)) (now : Nat) : (l.destroy now k).2 = ⟨
    { l.store with entries := l.store.entries.filter fun v ↦ v.id ∉ [k] },
    l.tally.forgetAll [k], l.outbox.queue now (.destroy k)⟩ := by
  obtain ⟨hc, hbound⟩ := kind?_eq_some_false_iff.mp (h.bound k List.mem_cons_self)
  have hdestroy := destroy_of_childless hc
    fun v hv heq ↦ h.childless v hv (heq ▸ List.mem_cons_self)
  have hact := l.act_destroy now k
  rw [hc, hbound, hdestroy] at hact
  exact hact

private theorem Bare.tail (h : Bare l (k :: ids)) (hk : k ∉ ids) (now : Nat) :
    Bare (l.destroy now k).2 ids := by
  rw [h.destroy]
  refine ⟨fun id hid ↦ ?_, fun v hv hmem ↦ ?_⟩
  · have hkept : decide (id ∉ [k]) = true :=
      decide_eq_true fun hmem ↦ hk (List.mem_singleton.mp hmem ▸ hid)
    rw [kind?, get?_eq_findIn, findIn_filter l.store.entries (fun x ↦ decide (x ∉ [k])) id,
      if_pos hkept]
    exact h.bound id (List.mem_cons_of_mem k hid)
  · exact h.childless v (List.mem_filter.mp hv).1 (List.mem_cons_of_mem k hmem)

/-- **Bare variables are destroyed one by one, and each destruction is reported.** -/
theorem Bare.destroyEach (h : Bare l ids) (hnodup : ids.Nodup) (now : Nat) :
    destroyEach l now ids = ⟨
      { l.store with entries := l.store.entries.filter fun v ↦ v.id ∉ ids },
      l.tally.forgetAll ids, l.outbox.queueAll now (ids.map .destroy)⟩ := by
  induction ids generalizing l with
  | nil => simp [BindingEngine.destroyEach, WatchTally.forgetAll, Outbox.queueAll]
  | cons k ids ih =>
    obtain ⟨hk, hnodup⟩ := List.nodup_cons.mp hnodup
    have hfilter : (l.store.entries.filter fun v ↦ v.id ∉ [k]).filter (fun v ↦ v.id ∉ ids)
        = l.store.entries.filter fun v ↦ v.id ∉ k :: ids := by
      rw [List.filter_filter]
      refine List.filter_congr fun v _ ↦ ?_
      simp [Bool.and_comm]
    rw [BindingEngine.destroyEach, List.foldl_cons, ← BindingEngine.destroyEach,
      ih (h.tail hk now) hnodup, h.destroy]
    simp only [hfilter]
    rfl

/-! ## Variables created for an element

They hang below the context and none below another, so each of them is destroyed alone. -/

/-- Whether bound variables are added below a context, and their creates are reported. -/
structure Grafts (now : Nat) (context : VarId) (l l' : LocalStore) (ids : List VarId) : Prop where
  entries : ∃ newer, l'.store.entries = newer ++ l.store.entries ∧
    (newer.map Variable.id).reverse = ids ∧ ∀ v ∈ newer, v.parent = context ∧ v.unbound = false
  /-- Only the new variables may get watchers. -/
  watching : ∀ k o, k ∉ ids → l'.tally.isWatching k o = l.tally.isWatching k o
  reported : ∃ creates, List.Forall₂ (Message.Creates context) ids creates ∧
    l'.outbox = l.outbox.queueAll now creates

/-- At most numbers have been spent. -/
theorem grafts_nothing (now : Nat) (context : VarId)
    (hentries : l'.store.entries = l.store.entries) (htally : l'.tally = l.tally)
    (houtbox : l'.outbox = l.outbox) : Grafts now context l l' [] where
  entries := ⟨[], hentries, rfl, fun _ hv ↦ absurd hv List.not_mem_nil⟩
  watching _ _ _ := by rw [htally]
  reported := ⟨[], .nil, houtbox⟩

theorem Grafts.trans (h : Grafts now context l l' ids) (h' : Grafts now context l' l'' ids') :
    Grafts now context l l'' (ids ++ ids') where
  entries := by
    obtain ⟨newer, hentries, rfl, hbelow⟩ := h.entries
    obtain ⟨newer', hentries', rfl, hbelow'⟩ := h'.entries
    refine ⟨newer' ++ newer, ?_, ?_, List.forall_mem_append.mpr ⟨hbelow', hbelow⟩⟩
    · rw [hentries', hentries, List.append_assoc]
    · rw [List.map_append, List.reverse_append]
  watching k o hk := by
    rw [List.mem_append, not_or] at hk
    rw [h'.watching k o hk.2, h.watching k o hk.1]
  reported := by
    obtain ⟨creates, hall, houtbox⟩ := h.reported
    obtain ⟨creates', hall', houtbox'⟩ := h'.reported
    refine ⟨creates ++ creates', List.rel_append hall hall', ?_⟩
    rw [houtbox', houtbox, Outbox.queueAll_append]

/-- A variable that is created for an element; one that is refused has spent a number. -/
theorem grafts_create (l : LocalStore) (now : Nat) (context : VarId) (ps : Properties)
    (o : Option Observer) : Grafts now context l (l.create now context none ps o false).2
      (l.create now context none ps o false).1.toOption.toList := by
  rw [create, Store.insert_vended]
  rcases hcheck : l.store.checkNew l.store.ids.next context with e | _
  · exact grafts_nothing now context rfl rfl rfl
  · refine ⟨⟨[_], rfl, rfl, fun v hv ↦ ?_⟩, fun k o' hk ↦ ?_,
      ⟨[_], .cons ⟨ps, o.isNone, rfl⟩ .nil, rfl⟩⟩
    · rw [List.mem_singleton.mp hv]
      exact ⟨rfl, rfl⟩
    · have hne : ¬ l.store.ids.next = k := fun h ↦ hk (List.mem_singleton.mpr h.symm)
      cases o with
      | none => rfl
      | some o =>
        refine (WatchTally.isWatching_watch l.tally l.store.ids.next o k o').trans ?_
        simp [hne]

/-- **What is created for an element** are bound variables below the context, one after the other.
-/
theorem followsCreating_grafts (now : Nat) (context : VarId) :
    FollowsCreating now context (Grafts now context) where
  refl _ := grafts_nothing now context rfl rfl rfl
  trans h h' := h.trans h'
  create l ps o := grafts_create l now context ps o

theorem Grafts.bare (h : Grafts now context l l' ids) (hadds : l.Adds l' ids)
    (hl : (withBase window base).EditedTo l) (hcontext : l.store.contains context = true) :
    Bare l' ids := by
  have hgrown := (hl.trans hadds.edited).grown
  obtain ⟨newer, hentries, rfl, hbelow⟩ := h.entries
  refine ⟨fun k hk ↦ ?_, fun v hv hmem ↦ ?_⟩
  · obtain ⟨v, hv⟩ := Store.contains_iff.mp (hadds.contains_iff.mpr (.inl hk))
    have hmem := mem_of_get? hv
    rw [hentries, List.mem_append] at hmem
    rcases hmem with hnew | hold
    · rw [kind?, hv, Option.map_some, (hbelow v hnew).2]
    · exact absurd hk (hadds.not_mem hl (isSome_findIn_iff.mpr ⟨v, hold, id_of_get? hv⟩))
  · rw [hentries, List.mem_append] at hv
    rcases hv with hnew | hold
    · exact hadds.not_mem hl ((hbelow v hnew).1 ▸ hcontext) hmem
    · rcases hl.grown.parent_of_mem hold with hroot | hparent
      · exact hgrown.ne_noParent_of_contains (hadds.contains_iff.mpr (.inl hmem)) hroot
      · exact hadds.not_mem hl hparent hmem

/-- **Destroying what has been created leaves the variables as they were.** -/
theorem Grafts.undo (h : Grafts now context l l' ids) (hadds : l.Adds l' ids)
    (hl : (withBase window base).EditedTo l) (hcontext : l.store.contains context = true) :
    destroyEach l' now ids = ⟨{ l'.store with entries := l.store.entries },
      l'.tally.forgetAll ids, l'.outbox.queueAll now (ids.map .destroy)⟩ := by
  have hfilter : (l'.store.entries.filter fun v ↦ v.id ∉ ids) = l.store.entries := by
    obtain ⟨newer, hentries, hids⟩ := hadds.entries
    rw [hentries, List.filter_append]
    have hnewer : newer.filter (fun v ↦ v.id ∉ ids) = [] := by
      refine List.filter_eq_nil_iff.mpr fun v hv ↦ ?_
      have hmem : v.id ∈ ids := hids ▸ List.mem_reverse.mpr (List.mem_map_of_mem hv)
      simpa using hmem
    have holder : l.store.entries.filter (fun v ↦ v.id ∉ ids) = l.store.entries := by
      refine List.filter_eq_self.mpr fun v hv ↦ ?_
      exact decide_eq_true (hadds.not_mem hl (isSome_findIn_iff.mpr ⟨v, hv, rfl⟩))
    rw [hnewer, holder, List.nil_append]
  rw [(h.bare hadds hl hcontext).destroyEach (hadds.nodup hl), hfilter]

/-- Destroying what has been created leaves the watchers as they were. -/
theorem Grafts.isWatching_forgetAll (h : Grafts now context l l' ids) (hadds : l.Adds l' ids)
    (hl : (withBase window base).EditedTo l) (htidy : l.Tidy) (k : VarId) (o : Observer) :
    (l'.tally.forgetAll ids).isWatching k o = l.tally.isWatching k o := by
  rw [WatchTally.isWatching_forgetAll]
  by_cases hk : k ∈ ids
  · -- nobody has watched a variable before it was there
    have hnew : l.store.contains k = false :=
      Bool.eq_false_iff.mpr fun hc ↦ hadds.not_mem hl hc hk
    rw [decide_eq_true hk, htidy.isWatching_eq_false hnew]
    rfl
  · rw [decide_eq_false hk, h.watching k o hk]
    rfl

/-! ## What is undone

The context is watched before the first variable is created. If it is not there, nobody is counted
in, and there is nothing to undo. -/

/-- What is left of a copy when everything is undone that an observer of a context has done, and
what has been reported. -/
structure Restored (now : Nat) (context : VarId) (o : Observer) (l l' : LocalStore) : Prop where
  entries : l'.store.entries = l.store.entries
  numbers : l.store.ids.Onward l'.store.ids
  /-- Nobody comes, and nobody goes but one who has watched the context under the same name. -/
  watching : ∀ k o', l'.tally.isWatching k o' =
    (l.tally.isWatching k o' && !decide (k = context ∧ o' = o))
  /-- The context is watched first if nobody watches it, and unwatched last if nobody watches it
  under another name. In between, whatever is created is destroyed in the same order. -/
  queued : ∃ began ended ids creates,
    (began = true ↔ l.store.kind? context = some false ∧ l.tally.watchers context = []) ∧
    (ended = true ↔ l.store.kind? context = some false ∧
      ∀ o' ∈ l.tally.watchers context, o' = o) ∧
    List.Forall₂ (Message.Creates context) ids creates ∧
    l'.outbox = l.outbox.queueAll now ((if began then [.watch context] else []) ++ creates ++
      ids.map .destroy ++ if ended then [.unwatch context] else [])

theorem restored_of_not_contains (htidy : l.Tidy) (hc : l.store.contains context = false)
    (now : Nat) (o : Observer) : Restored now context o l l := by
  have hkind : l.store.kind? context = none := by
    rw [kind?, contains_eq_false_iff.mp hc, Option.map_none]
  refine ⟨rfl, .refl _, fun k o' ↦ ?_, false, false, [], [], ?_, ?_, .nil, rfl⟩
  · by_cases hk : k = context ∧ o' = o
    · rw [hk.1, htidy.isWatching_eq_false hc]
      rfl
    · rw [decide_eq_false hk, Bool.not_false, Bool.and_true]
  · simp [hkind]
  · simp [hkind]

/-- **A copy is restored** by destroying what has been created for an observer that has been counted
in, and counting the observer out. -/
theorem restored_of_grafts (hl : (withBase window base).EditedTo l) (htidy : l.Tidy)
    (hc : l.store.contains context = true) {o : Observer}
    (hadds : (l.act (.watch now context o)).Adds l' ids)
    (h : Grafts now context (l.act (.watch now context o)) l' ids) :
    Restored now context o l ((destroyEach l' now ids).act (.unwatch now context o)) := by
  have hedited := hl.trans (l.act_edited (.watch now context o))
  have hwatched := act_watch_of_contains hc now o
  have hcontext : (l.act (.watch now context o)).store.contains context = true := by
    rw [hwatched]
    exact hc
  have hentries : (l.act (.watch now context o)).store.entries = l.store.entries := by
    rw [hwatched]
  have hundo := h.undo hadds hedited hcontext
  -- what was created takes its watchers along, and the element watches the context
  have hwatching (k : VarId) (o' : Observer) : (l'.tally.forgetAll ids).isWatching k o'
      = (decide (context = k ∧ o = o') || l.tally.isWatching k o') := by
    rw [h.isWatching_forgetAll hadds hedited (htidy.act_tidy _), hwatched]
    exact WatchTally.isWatching_watch l.tally context o k o'
  have honly := WatchTally.isOnlyWatcher_iff hwatching
  obtain ⟨creates, hall, hreported⟩ := h.reported
  rw [hundo, hentries, act_unwatch, hreported, hwatched]
  refine ⟨rfl, (l.act_edited (.watch now context o)).onward.trans hadds.edited.onward,
    fun k o' ↦ ?_, (l.tally.watch context o).1.edge && !l.isUnbound context,
    ((l'.tally.forgetAll ids).unwatch context o).1.edge && !l.isUnbound context, ids, creates,
    ?_, ?_, hall, ?_⟩
  · simp only [WatchTally.isWatching_unwatch, hwatching]
    by_cases hk : context = k ∧ o = o'
    · simp [hk]
    · have hk' : ¬ (k = context ∧ o' = o) := fun h ↦ hk ⟨h.1.symm, h.2.symm⟩
      simp [hk, hk']
  · rw [Bool.and_eq_true, WatchTally.edge_watch_iff, kind?_eq_some_false_iff, hc]
    simp [and_comm]
  · rw [Bool.and_eq_true, WatchTally.edge_unwatch_iff, honly, kind?_eq_some_false_iff, hc]
    simp [and_comm]
  · rw [Outbox.queueAll_append, Outbox.queueAll_append, Outbox.queueAll_append, Outbox.queueAll_if,
      Outbox.queueAll_if]
    rfl

theorem Restored.watchers_eq_iff {o : Observer} (h : Restored now context o l l') :
    (∀ k, l'.tally.watchers k = l.tally.watchers k) ↔ l.tally.isWatching context o = false := by
  constructor
  · intro hsame
    rw [← Bool.not_eq_true, ← WatchTally.mem_watchers_iff, ← hsame, WatchTally.mem_watchers_iff,
      h.watching]
    simp
  · intro hfree k
    have hobservers : l'.tally.observers k = l.tally.observers k := by
      refine KeyMap.ext_contains fun o' ↦ (h.watching k o').trans ?_
      by_cases hk : k = context ∧ o' = o
      · rw [hk.1, hk.2, hfree, Bool.false_and]
        exact hfree.symm
      · rw [decide_eq_false hk, Bool.not_false, Bool.and_true]
        rfl
    rw [WatchTally.watchers, hobservers, WatchTally.watchers]

/-- If nobody watches the context under the name, it is unwatched exactly if it has been watched. -/
theorem Restored.queued_of_free {o : Observer} (h : Restored now context o l l')
    (hfree : l.tally.isWatching context o = false) :
    ∃ watched : Bool, ∃ ids creates, List.Forall₂ (Message.Creates context) ids creates ∧
      l'.outbox = l.outbox.queueAll now ((if watched then [.watch context] else []) ++ creates ++
        ids.map .destroy ++ if watched then [.unwatch context] else []) := by
  obtain ⟨began, ended, ids, creates, hbegan, hended, hall, houtbox⟩ := h.queued
  have hnone : (∀ o' ∈ l.tally.watchers context, o' = o) ↔ l.tally.watchers context = [] := by
    rw [List.eq_nil_iff_forall_not_mem]
    refine forall₂_congr fun o' ho' ↦ iff_false_intro ?_
    rintro rfl
    rw [WatchTally.mem_watchers_iff, hfree] at ho'
    exact absurd ho' (by simp)
  have hsame : ended = began := by rw [Bool.eq_iff_iff, hbegan, hended, hnone]
  exact ⟨began, ids, creates, hall, hsame ▸ houtbox⟩

/-! ## A binding that fails -/

variable {g g' : BindingEngine} {e : Element} {error : SyncError}

/-- Whether nothing is left of a binding but that numbers have been spent. -/
structure Undone (now : Nat) (context : VarId) (g g' : BindingEngine) : Prop where
  restored : Restored now context (observerOf g.nextElement) g.store g'.store
  elements : g'.elements = g.elements
  byVariable : g'.byVariable = g.byVariable
  nextElement : g'.nextElement = g.nextElement + 1

theorem bind_error_cases (h : (g.bind now context e).1 = .error error) :
    (g.store.store.contains context = false ∧
      (g.bind now context e).2 = { g with nextElement := g.nextElement + 1 }) ∨
    g.store.store.contains context = true ∧ ∃ bs l,
      createBindings (g.store.act (.watch now context (observerOf g.nextElement))) now context e.tag
        (observerOf g.nextElement) e.attributes = (bs, some error, l) ∧
      (g.bind now context e).2 = { g with
        store := (destroyBindings l now bs).act (.unwatch now context (observerOf g.nextElement))
        nextElement := g.nextElement + 1 } := by
  rw [bind] at h ⊢
  simp only at h ⊢
  rcases hc : g.store.store.contains context with _ | _
  · rw [watch_of_not_contains hc]
    exact .inl ⟨rfl, rfl⟩
  · refine .inr ⟨rfl, ?_⟩
    obtain ⟨v, hwatch⟩ := watch_of_contains hc now (observerOf g.nextElement)
    rw [hwatch] at h ⊢
    simp only at h ⊢
    generalize createBindings _ _ _ _ _ _ = made at h ⊢
    obtain ⟨bs, failure, l⟩ := made
    cases failure with
    | some failure => exact ⟨bs, l, by rw [Except.error.inj h], rfl⟩
    | none => exact absurd h (by simp)

/-- **A binding that fails is undone.** -/
theorem Lived.undone_of_error (h : g.Lived window base)
    (herror : (g.bind now context e).1 = .error error) :
    Undone now context g (g.bind now context e).2 := by
  rcases bind_error_cases herror with ⟨hc, heq⟩ | ⟨hc, bs, l, hcreate, heq⟩
  · rw [heq]
    exact ⟨restored_of_not_contains h.tidy hc now _, rfl, rfl, rfl⟩
  · have hadds := adds_createBindings (g.store.act (.watch now context (observerOf g.nextElement)))
      now context e.tag (observerOf g.nextElement) e.attributes
    have hgrafts := (followsCreating_grafts now context).createBindings
      (g.store.act (.watch now context (observerOf g.nextElement))) e.tag
      (observerOf g.nextElement) e.attributes
    rw [hcreate] at hadds hgrafts
    rw [heq, destroyBindings_eq]
    exact ⟨restored_of_grafts h.edited h.tidy hc hadds hgrafts, rfl, rfl, rfl⟩

/-- **A binding that fails is undone.** Variables, elements and what leads to them are as before,
and only numbers have been spent. All variables that have been created are destroyed again. The
watchers are the same exactly if nobody watches the context under the name of the element that was
to be bound, and then the context is unwatched exactly if it has been watched. Whoever does is
counted out. -/
theorem bind_undone (hreached : g.Reached) (herror : (g.bind now context e).1 = .error error) :
    Undone now context g (g.bind now context e).2 ∧
    ((∀ k, (g.bind now context e).2.store.tally.watchers k = g.store.tally.watchers k) ↔
      g.store.tally.isWatching context (observerOf g.nextElement) = false) ∧
    (g.store.tally.isWatching context (observerOf g.nextElement) = false →
      ∃ watched : Bool, ∃ ids creates, List.Forall₂ (Message.Creates context) ids creates ∧
        (g.bind now context e).2.store.outbox = g.store.outbox.queueAll now
          ((if watched then [.watch context] else []) ++ creates ++ ids.map .destroy ++
            if watched then [.unwatch context] else [])) := by
  obtain ⟨window, base, hlived⟩ := hreached.lived
  have hundone := hlived.undone_of_error herror
  exact ⟨hundone, hundone.restored.watchers_eq_iff, hundone.restored.queued_of_free⟩

/-- An element with a mode that is not known at its second declaration. -/
def misdeclared : Element :=
  ⟨"div", [("ui-value", "name"), ("ui-attr-title", "name?access=bogus")], .null, []⟩

/-- The variable for the first declaration is gone, and nobody watches the root. -/
theorem bind_undone_misdeclared :
    ((newOver 10 0 []).bind 0 rootId misdeclared).1
      = .error (.badRequest rootId "unknown access mode 'bogus'") ∧
    ((newOver 10 0 []).bind 0 rootId misdeclared).2.store.store.entries
      = (newOver 10 0 []).store.store.entries ∧
    ∀ k, ((newOver 10 0 []).bind 0 rootId misdeclared).2.store.tally.watchers k
      = (newOver 10 0 []).store.tally.watchers k := by
  have hreached : (newOver 10 0 []).Reached := ⟨10, 0, [], [], rfl⟩
  have herror : ((newOver 10 0 []).bind 0 rootId misdeclared).1
      = .error (.badRequest rootId "unknown access mode 'bogus'") := by decide +kernel
  have hfree : (newOver 10 0 []).store.tally.isWatching rootId
      (observerOf (newOver 10 0 []).nextElement) = false := by decide +kernel
  obtain ⟨hundone, hwatchers, -⟩ := bind_undone hreached herror
  exact ⟨herror, hundone.restored.entries, hwatchers.mpr hfree⟩

/-- Somebody watches the root under the name of the first element. -/
def namesake : BindingEngine := (newOver 10 0 []).after [.copy (.watch 0 rootId "element-1")]

/-- The namesake is counted out with the element, and the root is unwatched without having been
watched. -/
theorem namesake_counted_out :
    namesake.Reached ∧
    (namesake.bind 1 rootId misdeclared).1
      = .error (.badRequest rootId "unknown access mode 'bogus'") ∧
    namesake.store.tally.watchers rootId = ["element-1"] ∧
    (namesake.bind 1 rootId misdeclared).2.store.tally.watchers rootId = [] ∧
    namesake.store.outbox.log.filterMap (Message.signal? rootId) = [true] ∧
    (namesake.bind 1 rootId misdeclared).2.store.outbox.log.filterMap (Message.signal? rootId)
      = [true, false] :=
  ⟨⟨10, 0, [], _, rfl⟩, by decide +kernel, by decide +kernel, by decide +kernel, by decide +kernel,
    by decide +kernel⟩

end BindingEngine

end ReactiveVars
