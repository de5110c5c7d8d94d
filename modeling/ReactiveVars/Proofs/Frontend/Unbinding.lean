import ReactiveVars.Proofs.Frontend.Bindings
import ReactiveVars.Proofs.Order.Runs

/-!
# When bindings dangle

The variables of a frontend form one tree for all elements: an element may be bound below a variable
of another one. Ending the binding of the upper element destroys its variables with all that is
below them, and nothing tells the lower element, whose list then names variables that are not there.
Writing through such a binding fails.

No other step has this effect. A batch that destroys variables takes each of them off its element,
a binding that fails leaves what there was, and a binding that succeeds lists new variables.

## Main statements

* `Sound.act`: what is listed and what leads to an element agree after every step.
* `bindings_intact_iff`: no listed variable is ever missing exactly if, whenever an element is
  unbound, no variable of another element is below one of its own.
-/

namespace ReactiveVars.BindingEngine

open LocalStore

variable {window : Nat} {base : VarId} {g g' : BindingEngine} {gone : VarId → Prop}
variable {id : ElementId} {k : VarId}

/-! ## Binding -/

/-- Whether the next element is bound to variables that are added. -/
structure Binds (ids : List VarId) (g g' : BindingEngine) : Prop where
  adds : g.store.Adds g'.store ids
  listed : ∀ id, g'.listed id = if g.nextElement = id then ids else g.listed id
  byVariable : ∀ k, g'.byVariable.get? k =
    if k ∈ ids then some g.nextElement else g.byVariable.get? k
  nextElement : g'.nextElement = g.nextElement + 1

theorem bind_cases (h : (withBase window base).EditedTo g.store) (now : Nat) (context : VarId)
    (e : Element) :
    g.Tidies (g.bind now context e).2 ∨ ∃ ids, g.Binds ids (g.bind now context e).2 := by
  have hundone {l : LocalStore} (hedited : g.store.EditedTo l)
      (hkept : ∀ k, g.store.store.contains k = true → l.store.contains k = true) :
      g.Tidies { g with store := l, nextElement := g.nextElement + 1 } :=
    tidies_of_kept (sheds_nothing (fun _ ↦ rfl) rfl (Nat.le_succ _)) hedited hkept
  rw [bind]
  simp only
  split
  · exact .inl (hundone (editedTo_of_eq rfl) fun _ hk ↦ hk)
  · next value watched hwatch =>
    have hwatched := store_watch hwatch
    -- watching the context changes no variable, so what is added are the bindings
    have hadds := (adds_nothing (editedTo_of_eq hwatched) (by rw [hwatched])).trans
      (adds_createBindings watched now context e.tag (observerOf g.nextElement) e.attributes)
    rw [List.nil_append] at hadds
    split
    · next bs error l hcreate =>
      rw [hcreate] at hadds
      refine .inl (hundone ?_ fun k hk ↦ ?_)
      · have hdestroyed := hadds.edited.trans (editedTo_destroyBindings l now bs)
        exact hdestroyed.trans (editedTo_of_eq (store_unwatch ..))
      · rw [store_unwatch, store_destroyBindings]
        exact hadds.contains_destroyAll h hk
    · next bs l hcreate =>
      rw [hcreate] at hadds
      refine .inr ⟨bs.map Binding.id, hadds, fun id ↦ ?_, fun k ↦ ?_, rfl⟩
      · rw [listed, KeyMap.get?_insert, listed]
        split <;> rfl
      · exact KeyMap.get?_foldl_insert Binding.id g.nextElement bs g.byVariable k

theorem Binds.intact {ids : List VarId} (h : g.Binds ids g') (hg : g.Intact) :
    g'.Intact := by
  intro id k hk
  rw [h.listed] at hk
  rw [h.adds.contains_iff]
  split at hk
  · exact .inl hk
  · exact .inr (hg id k hk)

/-! ## Unbinding

The variables of the element are destroyed one by one, each with all that is below it. What is below
the variables of an element may be listed for another one. -/

/-- An element that is unbound goes with its list, and its variables with all below them. -/
theorem unbind_spec (g : BindingEngine) (now : Nat) (id : ElementId) :
    (g.unbind now id).2.store.store = g.store.store.destroyAll (g.listed id) ∧
    g.store.EditedTo (g.unbind now id).2.store ∧
    (∀ id', (g.unbind now id).2.listed id' = if id = id' then [] else g.listed id') ∧
    (∀ k, (g.unbind now id).2.byVariable.get? k =
      if k ∈ g.listed id then none else g.byVariable.get? k) ∧
    (g.unbind now id).2.nextElement = g.nextElement := by
  rw [unbind]
  rcases hb : g.elements.get? id with _ | b
  · rw [listed_of_get?_none hb]
    refine ⟨rfl, editedTo_of_eq rfl, fun id' ↦ ?_, fun k ↦ ?_, rfl⟩
    · by_cases hid : id = id'
      · rw [if_pos hid, ← hid]
        exact listed_of_get?_none hb
      · rw [if_neg hid]
    · rw [if_neg List.not_mem_nil]
  · rw [listed_of_get? hb]
    refine ⟨?_, ?_, fun id' ↦ ?_, fun k ↦ ?_, rfl⟩
    · rw [store_unwatch, store_destroyBindings]
      rfl
    · exact (editedTo_destroyBindings _ now _).trans (editedTo_of_eq (store_unwatch ..))
    · rw [listed, KeyMap.get?_erase, listed]
      split <;> rfl
    · exact KeyMap.get?_foldl_erase Binding.id b.bindings g.byVariable k

theorem sheds_unbind (h : g.Indexed) (now : Nat) (id : ElementId) :
    Sheds (fun k ↦ k ∈ g.listed id) g (g.unbind now id).2 := by
  obtain ⟨-, -, hlisted, hby, hnext⟩ := g.unbind_spec now id
  refine ⟨fun id' k ↦ ?_, fun k id' ↦ ?_, Nat.le_of_eq hnext.symm⟩
  · rw [hlisted]
    split
    · next heq =>
      subst heq
      exact ⟨fun hk ↦ absurd hk List.not_mem_nil, fun hk ↦ absurd hk.1 hk.2⟩
    · next hne => exact ⟨fun hk ↦ ⟨hk, fun hid ↦ hne (h.eq_of_listed hid hk)⟩, And.left⟩
  · rw [hby]
    split
    · next hk => simp [hk]
    · next hk => simp [hk]

/-! ## Every step -/

/-- What holds of elements that have been bound to an edited copy. -/
structure Sound (window : Nat) (base : VarId) (g : BindingEngine) : Prop where
  edited : (withBase window base).EditedTo g.store
  indexed : g.Indexed
  /-- The numbers of elements and variables to come are not in use. -/
  used : ∀ id, ∀ k ∈ g.listed id, id < g.nextElement ∧ g.store.store.ids.Passed k

theorem sound_new {l : LocalStore} (h : (withBase window base).EditedTo l) :
    (new l).Sound window base where
  edited := h
  indexed k id := by
    have hlisted : (new l).listed id = [] := rfl
    rw [hlisted]
    exact ⟨fun hk ↦ absurd hk (by simp [new]), fun hk ↦ absurd hk (by simp)⟩
  used _ _ hk := absurd hk List.not_mem_nil

theorem Sound.sheds (h : g.Sound window base) (hsheds : Sheds gone g g')
    (hedited : g.store.EditedTo g'.store) : g'.Sound window base where
  edited := h.edited.trans hedited
  indexed := hsheds.indexed h.indexed
  used id k hk := by
    obtain ⟨hid, hpassed⟩ := h.used id k ((hsheds.listed id k).mp hk).1
    exact ⟨Nat.lt_of_lt_of_le hid hsheds.nextElement, hedited.onward.passed hpassed⟩

theorem Sound.binds {ids : List VarId} (h : g.Sound window base) (hbinds : g.Binds ids g') :
    g'.Sound window base := by
  obtain ⟨hadds, hlisted, hby, hnext⟩ := hbinds
  -- neither the element nor any of its variables has been in use
  have hfree (k : VarId) : k ∉ g.listed g.nextElement :=
    fun hk ↦ absurd (h.used _ k hk).1 (Nat.lt_irrefl _)
  have hnew {id : ElementId} {k : VarId} (hk : k ∈ g.listed id) : k ∉ ids :=
    fun hmem ↦ hadds.fresh k hmem (h.used id k hk).2
  constructor
  case edited => exact h.edited.trans hadds.edited
  case indexed =>
    intro k id
    rw [hby, hlisted]
    by_cases hk : k ∈ ids
    · rw [if_pos hk, Option.some_inj]
      by_cases hid : g.nextElement = id
      · simp [hid, hk]
      · rw [if_neg hid]
        exact ⟨fun heq ↦ absurd heq hid, fun hmem ↦ absurd hk (hnew hmem)⟩
    · rw [if_neg hk, h.indexed]
      by_cases hid : g.nextElement = id
      · rw [if_pos hid, ← hid]
        exact ⟨fun hmem ↦ absurd hmem (hfree k), fun hmem ↦ absurd hmem hk⟩
      · rw [if_neg hid]
  case used =>
    intro id k hk
    rw [hlisted] at hk
    rw [hnext]
    split at hk
    · next hid =>
      obtain ⟨used, hahead⟩ := (h.edited.trans hadds.edited).ahead
      exact ⟨hid ▸ Nat.lt_succ_self _, hahead.stored k (hadds.contains_iff.mpr (.inl hk))⟩
    · obtain ⟨hid, hpassed⟩ := h.used id k hk
      exact ⟨Nat.lt_succ_of_lt hid, hadds.edited.onward.passed hpassed⟩

/-- Every action but an unbinding leaves the lists as true as they are. -/
theorem Sound.act_cases (h : g.Sound window base) (a : Action) :
    (∃ now id, a = .unbind now id) ∨ g.Tidies (g.act a) ∨ ∃ ids, g.Binds ids (g.act a) := by
  rcases a with ⟨now, context, e⟩ | ⟨now, id⟩ | batch | ⟨now, id, v⟩ | ⟨now, id⟩ |
    ⟨now, id, event, payload⟩ | now | ⟨id, v⟩
  · exact .inr (bind_cases h.edited now context e)
  · exact .inl ⟨now, id, rfl⟩
  · exact .inr (.inl (tidies_receive h.indexed batch))
  · exact .inr (.inl (followsSending_sends.writeValue g now id v).tidies)
  · exact .inr (.inl (followsSending_sends.input g now id).tidies)
  · exact .inr (.inl (followsSending_sends.trigger g now id event payload).tidies)
  · have hpoll : g.Sends (g.act (.poll now)) := ⟨_, rfl, keeps_of_eq (by rw [LocalStore.poll])⟩
    exact .inr (.inl hpoll.tidies)
  · refine .inr (.inl (tidies_of_kept ?_ (editedTo_of_eq rfl) fun _ hk ↦ hk))
    refine sheds_nothing (fun id' ↦ ?_) rfl (Nat.le_refl _)
    rw [act, g.listed_modify id (fun ids ↦ ids) (fun _ ↦ by rfl) rfl, ite_self]

/-- **What is listed and what leads to an element agree after every step.** -/
theorem Sound.act (h : g.Sound window base) (a : Action) : (g.act a).Sound window base := by
  rcases h.act_cases a with ⟨now, id, rfl⟩ | ⟨gone, hsheds, hedited, -⟩ | ⟨ids, hbinds⟩
  · exact h.sheds (sheds_unbind h.indexed now id) (g.unbind_spec now id).2.1
  · exact h.sheds hsheds hedited
  · exact h.binds hbinds

theorem Sound.run (h : g.Sound window base) (as : List Action) :
    (g.run as).Sound window base := by
  induction as generalizing g with
  | nil => exact h
  | cons a as ih => exact ih (h.act a)

/-- **An unbinding takes nothing from the others exactly if the element stands alone.** -/
theorem Sound.intact_unbind_iff (h : g.Sound window base) (hg : g.Intact) (now : Nat)
    (id : ElementId) : (g.unbind now id).2.Intact ↔ g.Alone id := by
  obtain ⟨hstore, -, hlisted, -, -⟩ := g.unbind_spec now id
  have hcontains (k : VarId) : (g.store.store.destroyAll (g.listed id)).contains k = true ↔
      g.store.store.contains k = true ∧ ∀ u ∈ g.store.store.lineage k, u.id ∉ g.listed id :=
    h.edited.grown.contains_destroyAll_iff
  constructor
  · intro hintact id' hne k hk u hu
    have hthere := hintact id' k (by rwa [hlisted, if_neg hne.symm])
    rw [hstore, hcontains] at hthere
    exact hthere.2 u hu
  · intro halone id' k hk
    rw [hlisted] at hk
    split at hk
    · exact absurd hk List.not_mem_nil
    · next hne =>
      rw [hstore, hcontains]
      exact ⟨hg id' k hk, halone id' (Ne.symm hne) k hk⟩

theorem Sound.intact_act_iff (h : g.Sound window base) (hg : g.Intact) (a : Action) :
    (g.act a).Intact ↔ ∀ now id, a = .unbind now id → g.Alone id := by
  constructor
  · rintro hintact now id rfl
    exact (h.intact_unbind_iff hg now id).mp hintact
  · intro halone
    rcases h.act_cases a with ⟨now, id, rfl⟩ | htidies | ⟨ids, hbinds⟩
    · exact (h.intact_unbind_iff hg now id).mpr (halone now id rfl)
    · exact htidies.intact hg
    · exact hbinds.intact hg

/-! ## Runs -/

theorem Sound.intact_run_iff (h : g.Sound window base) (hg : g.Intact) (as : List Action) :
    (∀ before, before <+: as → (g.run before).Intact) ↔
      ∀ before now id, before ++ [.unbind now id] <+: as → (g.run before).Alone id := by
  have hrun : (∀ before, before <+: as → (g.run before).Intact) ↔ ∀ before a,
      before ++ [a] <+: as → ∀ now id, a = .unbind now id → (g.run before).Alone id :=
    forall_prefix_foldl_iff (P := Intact)
      (C := fun g (a : Action) ↦ ∀ now id, a = .unbind now id → g.Alone id)
      hg fun before a hbefore ↦ (h.run before).intact_act_iff hbefore a
  rw [hrun]
  constructor
  · exact fun halone before now id hprefix ↦ halone before _ hprefix now id rfl
  · rintro halone before _ hprefix now id rfl
    exact halone before now id hprefix

/-! ## Writing

A write looks for a binding of the element and then for its variable, so it is refused only for a
variable that is not there. Where there is no such binding nothing is sent and nothing is
refused. -/

theorem Whole.contains (h : g.Whole id) {b : BoundElement} {c : Binding}
    (hb : g.elements.get? id = some b) (hc : c ∈ b.bindings) :
    g.store.store.contains c.id = true := by
  refine h c.id ?_
  rw [listed_of_get? hb]
  exact List.mem_map_of_mem hc

theorem Whole.writeValue_ok (h : g.Whole id) (now : Nat) (v : Json) :
    ∃ sent, (g.writeValue now id v).1 = .ok sent := by
  rw [writeValue]
  split
  · next c hc =>
    obtain ⟨b, hb, hvalue⟩ := Option.bind_eq_some_iff.mp hc
    exact send_ok (h.contains hb (List.mem_of_find?_eq_some hvalue)) now v
  · exact ⟨false, rfl⟩

theorem Whole.input_ok (h : g.Whole id) (now : Nat) :
    ∃ sent, (g.input now id).1 = .ok sent := by
  rw [input]
  split
  · exact ⟨false, rfl⟩
  · next b _ =>
    obtain ⟨sent, hsent⟩ := h.writeValue_ok now b.element.live
    split
    · exact ⟨true, rfl⟩
    · exact ⟨sent, hsent⟩

theorem Whole.sendUnsent_ok (h : g.Whole id) {b : BoundElement}
    (hb : g.elements.get? id = some b) (now : Nat) : ∃ sent, (g.sendUnsent now b).1 = .ok sent := by
  rw [sendUnsent]
  split
  · next c hc =>
    have hvalue := (Option.filter_eq_some_iff.mp hc).1
    exact send_ok (h.contains hb (List.mem_of_find?_eq_some hvalue)) now b.element.live
  · exact ⟨false, rfl⟩

theorem Whole.trigger_ok (h : g.Whole id) (now : Nat) (event : String) (payload : Json) :
    ∃ sent, (g.trigger now id event payload).1 = .ok sent := by
  rw [trigger]
  split
  · exact ⟨false, rfl⟩
  split
  · exact ⟨false, rfl⟩
  next b hb _ c hc =>
  obtain ⟨sent, hsent⟩ := h.sendUnsent_ok hb now
  have hstep := followsSending_sends.sendUnsent g now b
  split
  · next hunsent =>
    rw [hunsent] at hsent
    exact absurd hsent (by simp)
  · next g' hunsent =>
    rw [hunsent] at hstep
    obtain ⟨l, rfl, hkeeps⟩ := hstep
    have hevent : l.store.contains c.id = true := by
      rw [hkeeps.contains]
      exact h.contains hb (List.mem_of_find?_eq_some hc)
    obtain ⟨sent, hsent⟩ := send_ok (g := { g with store := l }) hevent now payload
    split
    · next hsend =>
      rw [hsend] at hsent
      exact absurd hsent (by simp)
    · exact ⟨true, rfl⟩

/-- The engine without elements over a copy with which something has been done. -/
def newOver (window : Nat) (base : VarId) (ls : List LocalStore.Action) : BindingEngine :=
  new ((withBase window base).run ls)

/-- **When bindings dangle.** Exactly the listed variables lead to the elements that they are listed
for. They are all there after every step, exactly if an element is only ever unbound while no
variable of another is below one of its own. An element whose variables are there writes, takes
input and reports events without failure. -/
theorem bindings_intact_iff (window : Nat) (base : VarId) (ls : List LocalStore.Action)
    (as : List Action) :
    ((newOver window base ls).run as).Indexed ∧
    ((∀ before, before <+: as → ((newOver window base ls).run before).Intact) ↔
      ∀ before now id, before ++ [.unbind now id] <+: as →
        ((newOver window base ls).run before).Alone id) ∧
    ∀ id, ((newOver window base ls).run as).Whole id → ∀ now v event payload,
        (∃ sent, (((newOver window base ls).run as).writeValue now id v).1 = .ok sent) ∧
        (∃ sent, (((newOver window base ls).run as).input now id).1 = .ok sent) ∧
        ∃ sent, (((newOver window base ls).run as).trigger now id event payload).1 = .ok sent := by
  have hnew := sound_new (run_editedTo (withBase window base) ls)
  have hintact : (newOver window base ls).Intact :=
    fun _ _ hk ↦ absurd hk List.not_mem_nil
  refine ⟨(hnew.run as).indexed, hnew.intact_run_iff hintact as, fun id h now v event payload ↦ ?_⟩
  exact ⟨h.writeValue_ok now v, h.input_ok now, h.trigger_ok now event payload⟩

/-- An input element bound below the variable of another element, which is then unbound. -/
def nested : List Action := [
  .bind 0 rootId ⟨"div", [("ui-value", "contact")], .null, []⟩,
  .bind 1 (rootId + 1) ⟨"input", [("ui-value", "name")], .null, []⟩,
  .unbind 2 1]

/-- The variable of the input element is gone, but still listed for it, and writing fails. -/
theorem nested_dangles :
    ¬ ((newOver 10 0 []).run nested).Intact ∧
    ((newOver 10 0 []).run nested).listed 2 = [3] ∧
    (((newOver 10 0 []).run nested).writeValue 3 2 (.string "Homer")).1
      = .error (.unknownVariable 3) := by
  have hlisted : ((newOver 10 0 []).run nested).listed 2 = [3] := by decide +kernel
  refine ⟨fun h ↦ ?_, hlisted, by decide +kernel⟩
  have hgone : ((newOver 10 0 []).run nested).store.store.contains 3 = false := by decide +kernel
  have hthere := h 2 3 (by rw [hlisted]; exact List.mem_singleton_self 3)
  rw [hgone] at hthere
  exact absurd hthere (by simp)

end ReactiveVars.BindingEngine
