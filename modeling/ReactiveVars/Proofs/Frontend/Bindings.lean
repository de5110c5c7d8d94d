import ReactiveVars.Proofs.Frontend.Additions

/-!
# Elements and the variables bound to them

Each bound element lists its bindings, and each bound variable leads to the element that lists it.
This module is about the steps that add no binding: showing what a batch did, and sending. A batch
may destroy variables, and then it takes each of them off the element that lists it, so whatever is
still listed is still there.

## Main statements

* `tidies_receive`, `Sends.tidies`: no variable that a batch or a write takes away stays listed.
-/

namespace ReactiveVars

/-- The variables bound to an element. -/
def BoundElement.ids (b : BoundElement) : List VarId := b.bindings.map Binding.id

namespace BindingEngine

open LocalStore

variable {window : Nat} {base : VarId} {g g' g'' : BindingEngine} {gone gone' : VarId → Prop}
variable {id : ElementId} {k : VarId} {b : BoundElement}

/-! ## Runs -/

/-- Something that is done with the elements. -/
inductive Action where
  | bind (now : Nat) (context : VarId) (e : Element)
  | unbind (now : Nat) (id : ElementId)
  | receive (b : Batch)
  | writeValue (now : Nat) (id : ElementId) (v : Json)
  | input (now : Nat) (id : ElementId)
  | trigger (now : Nat) (id : ElementId) (event : String) (payload : Json)
  | poll (now : Nat)
  /-- The live value of the element becomes another. -/
  | live (id : ElementId) (v : Json)

/-- What an action leaves behind. -/
def act (g : BindingEngine) : Action → BindingEngine
  | .bind now context e => (g.bind now context e).2
  | .unbind now id => (g.unbind now id).2
  | .receive b => (g.receive b).2
  | .writeValue now id v => (g.writeValue now id v).2
  | .input now id => (g.input now id).2
  | .trigger now id event payload => (g.trigger now id event payload).2
  | .poll now => { g with store := (g.store.poll now).2 }
  | .live id v =>
    { g with elements := g.elements.modify id fun b ↦
        { b with element := { b.element with live := v } } }

/-- What actions in order leave behind. -/
def run (g : BindingEngine) (as : List Action) : BindingEngine := as.foldl act g

/-! ## What is listed

The lists of the elements and the table that leads from a variable to its element are two records of
the same. `Indexed` says that they agree, `Whole` that what an element lists is there, and `Intact`
says this of all elements. -/

/-- The variables listed for an element. -/
def listed (g : BindingEngine) (id : ElementId) : List VarId :=
  ((g.elements.get? id).map BoundElement.ids).getD []

/-- Whether the listed variables, and no others, lead to the element that they are listed for. -/
def Indexed (g : BindingEngine) : Prop :=
  ∀ k id, g.byVariable.get? k = some id ↔ k ∈ g.listed id

/-- Whether the variables listed for an element are there. -/
def Whole (g : BindingEngine) (id : ElementId) : Prop :=
  ∀ k ∈ g.listed id, g.store.store.contains k = true

/-- Whether all listed variables are there. -/
def Intact (g : BindingEngine) : Prop := ∀ id, g.Whole id

/-- Whether no variable of another element is one of an element or below it. -/
def Alone (g : BindingEngine) (id : ElementId) : Prop :=
  ∀ id', id' ≠ id → ∀ k ∈ g.listed id', ∀ u ∈ g.store.store.lineage k, u.id ∉ g.listed id

theorem listed_of_get? (h : g.elements.get? id = some b) : g.listed id = b.ids := by
  rw [listed, h]
  rfl

theorem listed_of_get?_none (h : g.elements.get? id = none) : g.listed id = [] := by
  rw [listed, h]
  rfl

/-- An element changes what is listed for it alone. -/
theorem listed_modify (g : BindingEngine) (el : ElementId) {f : BoundElement → BoundElement}
    (change : List VarId → List VarId) (hf : ∀ b, (f b).ids = change b.ids)
    (hnil : change [] = []) (id : ElementId) :
    { g with elements := g.elements.modify el f }.listed id
      = if el = id then change (g.listed id) else g.listed id := by
  rw [listed, KeyMap.get?_modify, listed]
  split
  · rcases g.elements.get? id with _ | b
    · exact hnil.symm
    · exact hf b
  · rfl

/-- What a bound variable lists is listed once. -/
theorem Indexed.eq_of_listed (h : g.Indexed) {id' : ElementId} (hk : k ∈ g.listed id)
    (hk' : k ∈ g.listed id') : id = id' :=
  Option.some_inj.mp (((h k id).mpr hk).symm.trans ((h k id').mpr hk'))

/-! ## Steps that add no binding

A step sheds the bindings of some variables. If these are the variables that it takes away,
everything that is still listed is still there. -/

/-- Whether certain variables are no longer listed, and nothing else of the bindings has changed. -/
structure Sheds (gone : VarId → Prop) (g g' : BindingEngine) : Prop where
  listed : ∀ id k, k ∈ g'.listed id ↔ k ∈ g.listed id ∧ ¬ gone k
  byVariable : ∀ k id,
    g'.byVariable.get? k = some id ↔ g.byVariable.get? k = some id ∧ ¬ gone k
  nextElement : g.nextElement ≤ g'.nextElement

/-- What changes only the other data sheds nothing. -/
theorem sheds_nothing (hlisted : ∀ id, g'.listed id = g.listed id)
    (hby : g'.byVariable = g.byVariable) (hnext : g.nextElement ≤ g'.nextElement) :
    Sheds (fun _ ↦ False) g g' where
  listed id k := by rw [hlisted, not_false_eq_true, and_true]
  byVariable k id := by rw [hby, not_false_eq_true, and_true]
  nextElement := hnext

private theorem Sheds.of_iff (h : Sheds gone g g') (hgone : ∀ k, gone k ↔ gone' k) :
    Sheds gone' g g' := by
  have heq : gone = gone' := funext fun k ↦ propext (hgone k)
  rwa [← heq]

theorem Sheds.trans (h : Sheds gone g g') (h' : Sheds gone' g' g'') :
    Sheds (fun k ↦ gone k ∨ gone' k) g g'' where
  listed id k := by rw [h'.listed, h.listed, not_or, and_assoc]
  byVariable k id := by rw [h'.byVariable, h.byVariable, not_or, and_assoc]
  nextElement := Nat.le_trans h.nextElement h'.nextElement

theorem Sheds.indexed (h : Sheds gone g g') (hg : g.Indexed) : g'.Indexed := by
  intro k id
  rw [h.byVariable, h.listed, hg]

/-- Whether a step adds no binding, and no variable that it takes away is listed any longer. -/
def Tidies (g g' : BindingEngine) : Prop :=
  ∃ gone, Sheds gone g g' ∧ g.store.EditedTo g'.store ∧
    ∀ k, g.store.store.contains k = true → gone k ∨ g'.store.store.contains k = true

theorem Tidies.intact (h : g.Tidies g') (hg : g.Intact) : g'.Intact := by
  obtain ⟨gone, hsheds, -, hkept⟩ := h
  intro id k hk
  obtain ⟨hlisted, hstays⟩ := (hsheds.listed id k).mp hk
  exact (hkept k (hg id k hlisted)).resolve_left hstays

theorem tidies_of_kept (hsheds : Sheds (fun _ ↦ False) g g')
    (hedited : g.store.EditedTo g'.store)
    (hkept : ∀ k, g.store.store.contains k = true → g'.store.store.contains k = true) :
    g.Tidies g' :=
  ⟨_, hsheds, hedited, fun k hk ↦ .inr (hkept k hk)⟩

/-! ### Showing -/

private theorem sheds_modifyElementOf (g : BindingEngine) (k : VarId)
    {f : BoundElement → BoundElement}
    (hf : ∀ b, (f b).ids = b.ids) : Sheds (fun _ ↦ False) g (g.modifyElementOf k f) := by
  rw [modifyElementOf]
  split
  · next el _ =>
    refine sheds_nothing (fun id ↦ ?_) rfl (Nat.le_refl _)
    rw [g.listed_modify el (fun ids ↦ ids) hf rfl, ite_self]
  · exact sheds_nothing (fun _ ↦ rfl) rfl (Nat.le_refl _)

theorem ids_showOn (v : Json) (k : VarId) (b : BoundElement) : (showOn v k b).ids = b.ids := by
  have hclear : (clearError b k).ids = b.ids := by
    rw [clearError]
    split <;> rfl
  rw [showOn]
  rcases b.binding? k with _ | c
  · rfl
  · simp only
    split
    · rcases c.kind.show? v with _ | call
      · exact hclear
      · exact hclear
    · exact hclear

/-- A variable that is gone is no longer listed where it was. -/
theorem sheds_forgetBinding (h : g.Indexed) (k : VarId) :
    Sheds (fun j ↦ j = k) g (g.forgetBinding k) := by
  have hby (j : VarId) (id : ElementId) : (g.byVariable.erase k).get? j = some id ↔
      g.byVariable.get? j = some id ∧ ¬ j = k := by
    rw [KeyMap.get?_erase]
    by_cases hj : k = j
    · simp [hj]
    · simp [hj, Ne.symm hj]
  rw [forgetBinding, modifyElementOf]
  rcases hel : g.byVariable.get? k with _ | el
  · -- a variable that leads to no element is listed for none
    refine ⟨fun id j ↦ ⟨fun hj ↦ ⟨hj, ?_⟩, And.left⟩, hby, Nat.le_refl _⟩
    rintro rfl
    exact absurd ((h j id).mpr hj) (by simp [hel])
  · refine ⟨fun id j ↦ ?_, hby, Nat.le_refl _⟩
    have hfilter (b : BoundElement) :
        { b with bindings := b.bindings.filter fun c ↦ c.id ≠ k }.ids
          = b.ids.filter fun j ↦ j ≠ k := by
      rw [BoundElement.ids, BoundElement.ids, List.filter_map]
      rfl
    have hmodify := g.listed_modify el (fun ids ↦ ids.filter fun j ↦ j ≠ k) hfilter rfl id
    have hlisted : j ∈ { g with elements := g.elements.modify el fun b ↦
        { b with bindings := b.bindings.filter fun c ↦ c.id ≠ k } }.listed id ↔
          j ∈ g.listed id ∧ ¬ j = k := by
      rw [hmodify]
      by_cases hid : el = id
      · simp [hid]
      · rw [if_neg hid]
        -- it leads to one element only, so no other lists it
        refine ⟨fun hj ↦ ⟨hj, ?_⟩, And.left⟩
        rintro rfl
        exact hid (h.eq_of_listed ((h j el).mp hel) hj)
    exact hlisted

/-- An event takes a variable off its element, or it changes what an element shows at most. -/
theorem showEvent_cases (g : BindingEngine) (e : Inbound) :
    (∃ k, e = .destroyed k ∧ g.showEvent e = g.forgetBinding k) ∨
    (∀ k, e ≠ .destroyed k) ∧ (g.showEvent e = g ∨
      ∃ k f, (∀ b, (f b).ids = b.ids) ∧ g.showEvent e = g.modifyElementOf k f) := by
  rw [showEvent.eq_def]
  split
  · next k => exact .inr ⟨by simp, .inr ⟨k, _, ids_showOn _ k, rfl⟩⟩
  · next k description => exact .inr ⟨by simp, .inr ⟨k, _, fun _ ↦ by rfl, rfl⟩⟩
  · next k => exact .inl ⟨k, rfl, rfl⟩
  · next hne => exact .inr ⟨hne, .inl rfl⟩

theorem sheds_showEvent (h : g.Indexed) (e : Inbound) :
    Sheds (fun k ↦ e = .destroyed k) g (g.showEvent e) := by
  rcases g.showEvent_cases e with ⟨k, rfl, heq⟩ | ⟨hne, heq | ⟨k, f, hf, heq⟩⟩
  · rw [heq]
    refine (sheds_forgetBinding h k).of_iff fun j ↦ ?_
    rw [Inbound.destroyed.injEq, eq_comm]
  · rw [heq]
    exact (sheds_nothing (fun _ ↦ rfl) rfl (Nat.le_refl _)).of_iff fun k ↦ ⟨False.elim, hne k⟩
  · rw [heq]
    exact (g.sheds_modifyElementOf k hf).of_iff fun k ↦ ⟨False.elim, hne k⟩

theorem store_showEvent (g : BindingEngine) (e : Inbound) :
    (g.showEvent e).store = g.store := by
  have hmodify (k : VarId) (f : BoundElement → BoundElement) :
      (g.modifyElementOf k f).store = g.store := by
    rw [modifyElementOf]
    split <;> rfl
  rcases g.showEvent_cases e with ⟨k, -, heq⟩ | ⟨-, heq | ⟨k, f, -, heq⟩⟩
  · rw [heq]
    exact hmodify k _
  · rw [heq]
  · rw [heq]
    exact hmodify k f

theorem store_showEvents (g : BindingEngine) (es : List Inbound) :
    (es.foldl showEvent g).store = g.store := by
  induction es generalizing g with
  | nil => rfl
  | cons e es ih => exact (ih (g.showEvent e)).trans (g.store_showEvent e)

/-- To the copy a batch is one action. -/
theorem store_receive (g : BindingEngine) (batch : Batch) :
    (g.receive batch).2.store = g.store.act (.apply batch) := store_showEvents _ _

theorem sheds_showEvents (h : g.Indexed) (es : List Inbound) :
    Sheds (fun k ↦ .destroyed k ∈ es) g (es.foldl showEvent g) := by
  induction es generalizing g with
  | nil => exact (sheds_nothing (fun _ ↦ rfl) rfl (Nat.le_refl _)).of_iff (by simp)
  | cons e es ih =>
    have hfirst := sheds_showEvent h e
    refine (hfirst.trans (ih (hfirst.indexed h))).of_iff fun k ↦ ?_
    rw [List.mem_cons, eq_comm]

/-- **A batch takes variables off the elements as it takes them away.** -/
theorem tidies_receive (h : g.Indexed) (batch : Batch) : g.Tidies (g.receive batch).2 := by
  have hsheds := sheds_showEvents (g := { g with store := (g.store.apply batch).2 }) h
    (g.store.apply batch).1
  refine ⟨_, ⟨hsheds.listed, hsheds.byVariable, hsheds.nextElement⟩, ?_, fun k hk ↦ ?_⟩
  · rw [store_receive]
    exact g.store.act_edited (.apply batch)
  · rw [store_receive]
    exact contains_applyAll batch.ordered hk

/-! ### Sending -/

/-- Whether nothing but the copy has changed, and no variable has come or gone. -/
def Sends (g g' : BindingEngine) : Prop := ∃ l, g' = { g with store := l } ∧ g.store.Keeps l

theorem Sends.refl (g : BindingEngine) : g.Sends g := ⟨g.store, rfl, keeps_of_eq rfl⟩

theorem Sends.trans (h : g.Sends g') (h' : g'.Sends g'') : g.Sends g'' := by
  obtain ⟨l, rfl, hl⟩ := h
  obtain ⟨l', rfl, hl'⟩ := h'
  exact ⟨l', rfl, hl.trans hl'⟩

theorem Sends.tidies (h : g.Sends g') : g.Tidies g' := by
  obtain ⟨l, rfl, hl⟩ := h
  refine tidies_of_kept (sheds_nothing (fun _ ↦ rfl) rfl (Nat.le_refl _)) hl.edited fun k hk ↦ ?_
  rwa [hl.contains]

/-- Whether a relation of engines goes through all that is made of sending one value and of sending
what waits. -/
structure FollowsSending (R : BindingEngine → BindingEngine → Prop) : Prop where
  refl : ∀ g, R g g
  trans : ∀ {g g' g''}, R g g' → R g' g'' → R g g''
  send : ∀ g now c v, R g (g.send now c v).2
  flush : ∀ g, R g g.flushUserEvent

section FollowsSending

variable {R : BindingEngine → BindingEngine → Prop}

theorem FollowsSending.writeValue (h : FollowsSending R) (g : BindingEngine) (now : Nat)
    (id : ElementId) (v : Json) : R g (g.writeValue now id v).2 := by
  rw [BindingEngine.writeValue]
  split
  · exact h.send g now _ v
  · exact h.refl g

theorem FollowsSending.input (h : FollowsSending R) (g : BindingEngine) (now : Nat)
    (id : ElementId) : R g (g.input now id).2 := by
  rw [BindingEngine.input]
  split
  · exact h.refl g
  · next b _ =>
    have hwrite := h.writeValue g now id b.element.live
    split
    · next g' heq =>
      rw [heq] at hwrite
      exact h.trans hwrite (h.flush g')
    · exact hwrite

theorem FollowsSending.sendUnsent (h : FollowsSending R) (g : BindingEngine) (now : Nat)
    (b : BoundElement) : R g (g.sendUnsent now b).2 := by
  rw [BindingEngine.sendUnsent]
  split
  · exact h.send g now _ _
  · exact h.refl g

theorem FollowsSending.trigger (h : FollowsSending R) (g : BindingEngine) (now : Nat)
    (id : ElementId) (event : String) (payload : Json) :
    R g (g.trigger now id event payload).2 := by
  rw [BindingEngine.trigger]
  split
  · exact h.refl g
  split
  · exact h.refl g
  · next b _ _ c _ =>
    have hunsent := h.sendUnsent g now b
    split
    · next g' heq => rwa [heq] at hunsent
    · next g' heq =>
      rw [heq] at hunsent
      have hsend := h.send g' now c payload
      split
      · next g'' heq' =>
        rw [heq'] at hsend
        exact h.trans hunsent hsend
      · next g'' heq' =>
        rw [heq'] at hsend
        exact h.trans (h.trans hunsent hsend) (h.flush g'')

end FollowsSending

theorem followsSending_sends : FollowsSending Sends where
  refl := Sends.refl
  trans := Sends.trans
  send g now c v := by
    rw [BindingEngine.send]
    split
    · exact .refl g
    split
    · exact .refl g
    split
    · next l h => exact ⟨l, rfl, keeps_update h⟩
    · exact .refl g
  flush _ := ⟨_, rfl, keeps_of_eq rfl⟩

/-- A value is not refused if the variable is there. -/
theorem send_ok {c : Binding} (h : g.store.store.contains c.id = true) (now : Nat) (v : Json) :
    ∃ sent, (g.send now c v).1 = .ok sent := by
  obtain ⟨l, hl⟩ := update_ok h now (some v) .empty
  rw [send, hl]
  split
  · exact ⟨false, rfl⟩
  split
  · exact ⟨false, rfl⟩
  · exact ⟨true, rfl⟩

end BindingEngine

end ReactiveVars
