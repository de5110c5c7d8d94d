import ReactiveVars.Proofs.Frontend.Subscriptions
import ReactiveVars.Proofs.Frontend.Unbinding

/-!
# Everything that can happen to elements and their variables

The variables of a frontend are not changed through elements alone. Whoever holds the elements also
acts on the variables directly, and changes an element itself between two calls. A *history* is any
sequence of these. Whatever an element does to the copy of the variables is itself a sequence of
actions on the copy, so all that holds of the copy after any actions holds after any history.

## Main statements

* `actedTo_act`: what is done with the elements acts on the copy.
* `Reached.sound`, `Reached.lived`: what holds after every history.
-/

namespace ReactiveVars

namespace LocalStore

variable {l l' l'' : LocalStore}

/-! ## Actions on the copy

What an element does is put together of actions on the copy in different ways. `ActedTo` forgets
which, and keeps that there are some. -/

/-- Whether one copy becomes another by actions. -/
def ActedTo (l l' : LocalStore) : Prop := ∃ as, l' = l.run as

theorem ActedTo.refl (l : LocalStore) : l.ActedTo l := ⟨[], rfl⟩

theorem actedTo_of_act (l : LocalStore) (a : Action) : l.ActedTo (l.act a) := ⟨[a], rfl⟩

theorem ActedTo.trans (h : l.ActedTo l') (h' : l'.ActedTo l'') : l.ActedTo l'' := by
  obtain ⟨as, rfl⟩ := h
  obtain ⟨as', rfl⟩ := h'
  exact ⟨as ++ as', (List.foldl_append ..).symm⟩

theorem ActedTo.editedTo (h : l.ActedTo l') : l.EditedTo l' := by
  obtain ⟨as, rfl⟩ := h
  exact l.run_editedTo as

theorem actedTo_watch {now : Nat} {id : VarId} {o : Observer} {v : Json}
    (h : l.watch now id o = .ok (v, l')) : l.ActedTo l' :=
  ⟨[.watch now id o], by rw [run, List.foldl_cons, List.foldl_nil, act, h]⟩

theorem actedTo_update {now : Nat} {id : VarId} {value : Option Json} {ps : Properties}
    (h : l.update now id value ps = .ok l') : l.ActedTo l' :=
  ⟨[.update now id value ps], by rw [run, List.foldl_cons, List.foldl_nil, act, h]⟩

theorem Tidy.act_tidy (h : l.Tidy) (a : Action) : (l.act a).Tidy := by
  by_cases ha : ∃ b, a = .apply b
  · obtain ⟨b, rfl⟩ := ha
    rw [act_apply]
    generalize b.ordered = ms
    induction ms generalizing l with
    | nil => exact h
    | cons m ms ih => exact ih (h.applyMessage m).tidy
  · exact (h.act fun b hb ↦ ha ⟨b, hb⟩).tidy

theorem Tidy.actedTo (h : l.Tidy) (hacted : l.ActedTo l') : l'.Tidy := by
  obtain ⟨as, rfl⟩ := hacted
  induction as generalizing l with
  | nil => exact h
  | cons a as ih => exact ih (h.act_tidy a)

end LocalStore

namespace BindingEngine

open LocalStore

variable {window : Nat} {base : VarId} {g g' g'' : BindingEngine} {l : LocalStore}

/-! ## What elements do to the copy

Making bindings, sending and showing have their own recursions, and for each of them the relation
has been followed before. Here the pieces are put together action by action. -/

theorem followsCreating_actedTo (now : Nat) (context : VarId) :
    FollowsCreating now context fun l l' _ ↦ l.ActedTo l' where
  refl l := .refl l
  trans h h' := h.trans h'
  create l ps o := l.actedTo_of_act (.create now context none ps o false)

theorem actedTo_destroyBindings (l : LocalStore) (now : Nat) (bs : List Binding) :
    l.ActedTo (destroyBindings l now bs) := by
  induction bs generalizing l with
  | nil => exact .refl l
  | cons b bs ih => exact (l.actedTo_of_act (.destroy now b.id)).trans (ih _)

theorem actedTo_bind (g : BindingEngine) (now : Nat) (context : VarId) (e : Element) :
    g.store.ActedTo (g.bind now context e).2.store := by
  rw [bind]
  simp only
  split
  · exact .refl g.store
  · next watched hwatch =>
    have hcreated := (actedTo_watch hwatch).trans ((followsCreating_actedTo now
      context).createBindings watched e.tag (observerOf g.nextElement) e.attributes)
    split
    · next bs error l hcreate =>
      rw [hcreate] at hcreated
      exact (hcreated.trans (actedTo_destroyBindings l now bs)).trans
        (actedTo_of_act _ (.unwatch now context _))
    · next hcreate => rwa [hcreate] at hcreated

theorem actedTo_unbind (g : BindingEngine) (now : Nat) (id : ElementId) :
    g.store.ActedTo (g.unbind now id).2.store := by
  rw [unbind]
  split
  · exact .refl g.store
  · exact (actedTo_destroyBindings ..).trans (actedTo_of_act _ (.unwatch now _ _))

theorem actedTo_receive (g : BindingEngine) (b : Batch) :
    g.store.ActedTo (g.receive b).2.store := by
  rw [store_receive]
  exact g.store.actedTo_of_act (.apply b)

theorem followsSending_actedTo : FollowsSending fun g g' ↦ g.store.ActedTo g'.store where
  refl g := .refl g.store
  trans h h' := h.trans h'
  send g now c v := by
    rw [BindingEngine.send]
    split
    · exact .refl g.store
    split
    · exact .refl g.store
    split
    · next h => exact actedTo_update h
    · exact .refl g.store
  flush g := g.store.actedTo_of_act .flushUserEvent

/-- **What is done with the elements acts on the copy.** -/
theorem actedTo_act (g : BindingEngine) (a : Action) : g.store.ActedTo (g.act a).store := by
  cases a with
  | bind now context e => exact g.actedTo_bind now context e
  | unbind now id => exact g.actedTo_unbind now id
  | receive b => exact g.actedTo_receive b
  | writeValue now id v => exact followsSending_actedTo.writeValue g now id v
  | input now id => exact followsSending_actedTo.input g now id
  | trigger now id event payload => exact followsSending_actedTo.trigger g now id event payload
  | poll now => exact g.store.actedTo_of_act (.poll now)
  | live id v => exact .refl g.store

/-! ## Histories -/

/-- Something that happens to elements and their variables. -/
inductive Happening where
  | act (a : Action)
  /-- The copy is acted on directly. -/
  | copy (a : LocalStore.Action)
  /-- The element itself is changed. -/
  | element (id : ElementId) (f : Element → Element)

/-- What a happening leaves behind. -/
def happen (g : BindingEngine) : Happening → BindingEngine
  | .act a => g.act a
  | .copy a => { g with store := g.store.act a }
  | .element id f =>
    { g with elements := g.elements.modify id fun b ↦ { b with element := f b.element } }

/-- What a history leaves behind. -/
def after (g : BindingEngine) (hs : List Happening) : BindingEngine := hs.foldl happen g

/-- Whether elements come about by a history, over a copy with which something has been done. -/
def Reached (g : BindingEngine) : Prop :=
  ∃ window base ls hs, g = (newOver window base ls).after hs

private theorem listed_element (g : BindingEngine) (el : ElementId) (f : Element → Element)
    (id : ElementId) : (g.happen (.element el f)).listed id = g.listed id := by
  rw [happen, g.listed_modify el (fun ids ↦ ids) (fun _ ↦ by rfl) rfl, ite_self]

/-! ### No variable is listed twice

A step may drop bindings and may add a new element. Of the bindings that an element has, none gets
another variable, so it is enough that what is left of a list is a part of it. -/

/-- Whether no element lists a variable twice. -/
def Distinct (g : BindingEngine) : Prop := ∀ id, (g.listed id).Nodup

/-- Whether every element lists at most what it listed before, in the same order. -/
def Thins (g g' : BindingEngine) : Prop := ∀ id, (g'.listed id).Sublist (g.listed id)

theorem thins_of_eq (h : ∀ id, g'.listed id = g.listed id) : g.Thins g' :=
  fun id ↦ h id ▸ .refl _

theorem Thins.trans (h : g.Thins g') (h' : g'.Thins g'') : g.Thins g'' :=
  fun id ↦ (h' id).trans (h id)

theorem Distinct.nodup_ids (hg : g.Distinct) {id : ElementId} {b : BoundElement}
    (hb : g.elements.get? id = some b) : b.ids.Nodup := listed_of_get? hb ▸ hg id

theorem Distinct.thins (hg : g.Distinct) (h : g.Thins g') : g'.Distinct :=
  fun id ↦ (hg id).sublist (h id)

private theorem thins_modifyElementOf (g : BindingEngine) (k : VarId)
    {f : BoundElement → BoundElement}
    (change : List VarId → List VarId) (hf : ∀ b, (f b).ids = change b.ids)
    (hchange : ∀ ids, (change ids).Sublist ids) : g.Thins (g.modifyElementOf k f) := by
  intro id
  rw [modifyElementOf]
  split
  · next el _ =>
    rw [g.listed_modify el change hf (List.eq_nil_of_sublist_nil (hchange []))]
    split
    · exact hchange _
    · exact .refl _
  · exact .refl _

theorem thins_showEvent (g : BindingEngine) (e : Inbound) : g.Thins (g.showEvent e) := by
  rcases g.showEvent_cases e with ⟨k, -, heq⟩ | ⟨-, heq | ⟨k, f, hf, heq⟩⟩
  · rw [heq]
    refine g.thins_modifyElementOf k (fun ids ↦ ids.filter fun j ↦ j ≠ k) (fun b ↦ ?_)
      fun ids ↦ List.filter_sublist
    rw [BoundElement.ids, BoundElement.ids, List.filter_map]
    rfl
  · rw [heq]
    exact thins_of_eq fun _ ↦ rfl
  · rw [heq]
    exact g.thins_modifyElementOf k (fun ids ↦ ids) hf fun ids ↦ .refl ids

theorem thins_receive (g : BindingEngine) (b : Batch) : g.Thins (g.receive b).2 := by
  have hshow (es : List Inbound) (g : BindingEngine) : g.Thins (es.foldl showEvent g) := by
    induction es generalizing g with
    | nil => exact thins_of_eq fun _ ↦ rfl
    | cons e es ih => exact (g.thins_showEvent e).trans (ih _)
  exact hshow _ { g with store := (g.store.apply b).2 }

theorem thins_unbind (g : BindingEngine) (now : Nat) (id : ElementId) :
    g.Thins (g.unbind now id).2 := by
  intro id'
  rw [(g.unbind_spec now id).2.2.1]
  split
  · exact List.nil_sublist _
  · exact .refl _

private theorem followsSending_thins : FollowsSending Thins where
  refl _ := thins_of_eq fun _ ↦ rfl
  trans h h' := h.trans h'
  send g now c v := by
    obtain ⟨l, hl, -⟩ := followsSending_sends.send g now c v
    rw [hl]
    exact thins_of_eq fun _ ↦ rfl
  flush _ := thins_of_eq fun _ ↦ rfl

/-- What a new element lists has been created one by one. -/
theorem Distinct.bind (hg : g.Distinct) (h : (withBase window base).EditedTo g.store) (now : Nat)
    (context : VarId) (e : Element) : (g.bind now context e).2.Distinct := by
  rw [BindingEngine.bind]
  simp only
  split
  · exact hg
  · next watched hwatch =>
    have hwatched := h.trans (editedTo_of_eq (store_watch hwatch))
    have hadds := adds_createBindings watched now context e.tag (observerOf g.nextElement)
      e.attributes
    split
    · exact hg
    · next hcreate =>
      rw [hcreate] at hadds
      intro id
      rw [listed, KeyMap.get?_insert]
      split
      · exact hadds.nodup hwatched
      · exact hg id

theorem Distinct.act (hg : g.Distinct) (h : (withBase window base).EditedTo g.store)
    (a : Action) : (g.act a).Distinct := by
  cases a with
  | bind now context e => exact hg.bind h now context e
  | unbind now id => exact hg.thins (g.thins_unbind now id)
  | receive b => exact hg.thins (g.thins_receive b)
  | writeValue now id v => exact hg.thins (followsSending_thins.writeValue g now id v)
  | input now id => exact hg.thins (followsSending_thins.input g now id)
  | trigger now id event payload =>
    exact hg.thins (followsSending_thins.trigger g now id event payload)
  | poll now => exact hg
  | live id v => exact hg.thins (thins_of_eq (g.listed_element id fun e ↦ { e with live := v }))

/-! ### After every history -/

/-- What holds of elements and their variables after every history. -/
structure Lived (window : Nat) (base : VarId) (g : BindingEngine) : Prop where
  edited : (withBase window base).EditedTo g.store
  tidy : g.store.Tidy
  distinct : g.Distinct

theorem lived_newOver (window : Nat) (base : VarId) (ls : List LocalStore.Action) :
    (newOver window base ls).Lived window base where
  edited := run_editedTo (withBase window base) ls
  tidy := by
    have htidy := (Chronicle.sound_run window base ls).tidy
    rwa [Chronicle.frontend_run] at htidy
  distinct _ := List.nodup_nil

theorem Lived.happen (h : g.Lived window base) (e : Happening) :
    (g.happen e).Lived window base := by
  cases e with
  | act a =>
    have hacted := g.actedTo_act a
    exact ⟨h.edited.trans hacted.editedTo, h.tidy.actedTo hacted, h.distinct.act h.edited a⟩
  | copy a =>
    exact ⟨h.edited.trans (g.store.act_edited a), h.tidy.act_tidy a, h.distinct⟩
  | element id f =>
    exact ⟨h.edited, h.tidy, h.distinct.thins (thins_of_eq (g.listed_element id f))⟩

theorem Sound.happen (h : g.Sound window base) (e : Happening) :
    (g.happen e).Sound window base := by
  cases e with
  | act a => exact h.act a
  | copy a =>
    exact h.sheds (sheds_nothing (fun _ ↦ rfl) rfl (Nat.le_refl _)) (g.store.act_edited a)
  | element id f =>
    exact h.sheds (sheds_nothing (g.listed_element id f) rfl (Nat.le_refl _)) (editedTo_of_eq rfl)

theorem Sound.after (h : g.Sound window base) (hs : List Happening) :
    (g.after hs).Sound window base := by
  induction hs generalizing g with
  | nil => exact h
  | cons e hs ih => exact ih (h.happen e)

/-- What is listed and what leads to an element agree after every history. -/
theorem Reached.sound (h : g.Reached) : ∃ window base, g.Sound window base := by
  obtain ⟨window, base, ls, hs, rfl⟩ := h
  exact ⟨window, base, (sound_new (run_editedTo (withBase window base) ls)).after hs⟩

/-- **After every history** the copy has been edited since it was new, only variables that are there
are watched, and no element lists a variable twice. -/
theorem Reached.lived (h : g.Reached) : ∃ window base, g.Lived window base := by
  obtain ⟨window, base, ls, hs, rfl⟩ := h
  refine ⟨window, base, ?_⟩
  rw [after]
  have hnew := lived_newOver window base ls
  generalize newOver window base ls = g at hnew
  induction hs generalizing g with
  | nil => exact hnew
  | cons e hs ih => exact ih _ (hnew.happen e)

end BindingEngine

end ReactiveVars
