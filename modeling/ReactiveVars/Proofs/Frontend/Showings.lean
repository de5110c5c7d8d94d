import ReactiveVars.Proofs.Frontend.Histories
import ReactiveVars.Proofs.Wire.Orderings

/-!
# What a batch shows

A batch is applied to the copy as a whole before an element is told of any of it. So whatever an
element is shown is the value that the variable has in the end, however often the batch updates it,
and null if the batch has taken it away. Nothing is sent, and nothing is left to be sent.

An event reaches an element through the table that leads from a variable to its element. The table
agrees with the lists of the elements, so the event might as well be given to all of them: one that
does not list the variable makes nothing of it. What a batch does to an element then follows from
the events and from what the element was, whatever the other elements are.

## Main statements

* `get?_receive`: what an element makes of a batch.
* `receive_shows`: what is shown, on which elements, and that nothing else happens.
-/

namespace ReactiveVars

/-! ## Events and messages

An event is caused by a message, and a piece of a message causes nothing that the message would not.
So what a batch shows can be traced to the batch as it came in. -/

/-- Whether a message may have an event as its effect. -/
def Message.Causes : Message → Inbound → Prop
  | .create _ _ _ id _ _, .created k => id = some k
  | .update id _ _, .updated k => id = k
  | .destroy _, .destroyed _ => True
  | .error id code description, .failed k code' description' =>
    id = k ∧ code = code' ∧ description = description'
  | _, _ => False

theorem Message.causes_of_mem_pieces {m : Message} {p : Tier × Message} {e : Inbound}
    (hp : p ∈ m.pieces) (h : p.2.Causes e) : m.Causes e := by
  cases m with
  | update id value ps =>
    obtain ⟨carried, part, hpart⟩ := (splitInto_pieces id value ps).updates p hp
    rw [hpart] at h
    cases e <;> exact h
  | _ =>
    obtain rfl := List.mem_singleton.mp hp
    exact h

namespace LocalStore

variable {l : LocalStore} {e : Inbound} {m : Message} {ms : List Message} {batch : Batch}

theorem causes_of_mem_applyMessage (h : e ∈ (l.applyMessage m).1) : m.Causes e := by
  rw [applyMessage.eq_def] at h
  split at h
  · split at h
    · rw [List.mem_singleton.mp h]
      rfl
    · exact absurd h List.not_mem_nil
  · split at h
    · rw [List.mem_singleton.mp h]
      rfl
    · exact absurd h List.not_mem_nil
  · obtain ⟨k, -, rfl⟩ := List.mem_map.mp h
    trivial
  · rw [List.mem_singleton.mp h]
    exact ⟨rfl, rfl, rfl⟩
  · exact absurd h List.not_mem_nil

theorem exists_causes_of_mem_applyAll (h : e ∈ (l.applyAll ms).1) :
    ∃ m ∈ ms, m.Causes e := by
  induction ms generalizing l with
  | nil => exact absurd h List.not_mem_nil
  | cons m ms ih =>
    rcases List.mem_append.mp h with hm | hms
    · exact ⟨m, List.mem_cons_self, causes_of_mem_applyMessage hm⟩
    · obtain ⟨m', hm', hcauses⟩ := ih hms
      exact ⟨m', List.mem_cons_of_mem m hm', hcauses⟩

/-- Every event of a batch is an effect of a message of it. -/
theorem exists_causes_of_mem_apply (h : e ∈ (l.apply batch).1) :
    ∃ m ∈ batch.messages, m.Causes e := by
  obtain ⟨piece, hpiece, hcauses⟩ := exists_causes_of_mem_applyAll h
  obtain ⟨m, hm, hmem⟩ := List.mem_flatMap.mp (batch.ordered_perm.mem_iff.mp hpiece)
  obtain ⟨p, hp, rfl⟩ := List.mem_map.mp hmem
  exact ⟨m, hm, Message.causes_of_mem_pieces hp hcauses⟩

theorem outbox_act_apply (l : LocalStore) (batch : Batch) :
    (l.act (.apply batch)).outbox = l.outbox := by
  rw [act_apply]
  generalize batch.ordered = ms
  induction ms generalizing l with
  | nil => rfl
  | cons m ms ih => exact (ih _).trans (l.outbox_applyMessage m)

end LocalStore

/-- The failure of a path. -/
def Inbound.pathFailure (id : VarId) (description : String) : Inbound :=
  .failed id (some "path-failure") description

/-- Whether a call shows a value, and not whether there is an error. -/
def ElementCall.isOfValue : ElementCall → Bool
  | .setError _ => false
  | _ => true

private theorem BindingKind.isOfValue_of_show? {kind : BindingKind} {v : Json} {call : ElementCall}
    (h : kind.show? v = some call) : call.isOfValue = true := by
  cases kind <;> simp only [show?, Option.some.injEq, reduceCtorEq] at h <;> rw [← h] <;> rfl

/-! ## What an element makes of events -/

namespace BoundElement

open BindingEngine

variable {value : VarId → Json} {b : BoundElement} {k : VarId}

/-- What an element makes of an event, given the values that the variables have. -/
def see (value : VarId → Json) (b : BoundElement) : Inbound → BoundElement
  | .updated k => showOn (value k) k b
  | .failed k (some "path-failure") description =>
    if k ∈ b.ids then { b with failing := some k }.call (.setError (some description)) else b
  | .destroyed k => { b with bindings := b.bindings.filter fun c ↦ c.id ≠ k }
  | _ => b

theorem binding?_eq_none_iff : b.binding? k = none ↔ k ∉ b.ids := by
  simp [binding?, ids]

theorem showOn_of_not_mem (h : k ∉ b.ids) (v : Json) : showOn v k b = b := by
  rw [showOn, binding?_eq_none_iff.mpr h]

theorem filter_of_not_mem (h : k ∉ b.ids) : (b.bindings.filter fun c ↦ c.id ≠ k) = b.bindings := by
  refine List.filter_eq_self.mpr fun c hc ↦ decide_eq_true ?_
  rintro rfl
  exact h (List.mem_map_of_mem hc)

end BoundElement

namespace BindingEngine

variable {g : BindingEngine}

/-- The value that is shown for a variable. -/
def shown (g : BindingEngine) (k : VarId) : Json := (g.store.value? k).getD .null

/-- Exactly the element that lists a variable is changed by what is done to its element. -/
theorem get?_modifyElementOf (h : g.Indexed) (k : VarId) (f : BoundElement → BoundElement)
    (id : ElementId) : (g.modifyElementOf k f).elements.get? id
      = (g.elements.get? id).map fun b ↦ if k ∈ b.ids then f b else b := by
  have hlisted (b : BoundElement) (hb : g.elements.get? id = some b) :
      k ∈ b.ids ↔ g.byVariable.get? k = some id := by
    rw [h k id, listed_of_get? hb]
  rw [modifyElementOf]
  rcases hb : g.elements.get? id with _ | b
  · split
    · simp [KeyMap.get?_modify, hb]
    · exact hb
  · simp only [Option.map_some, hlisted b hb]
    split
    · next el hel =>
      simp only [KeyMap.get?_modify, hb, hel, Option.some_inj]
      split <;> rfl
    · next hnone => simp [hnone, hb]

theorem get?_showEvent (h : g.Indexed) (e : Inbound) (id : ElementId) :
    (g.showEvent e).elements.get? id = (g.elements.get? id).map fun b ↦ b.see g.shown e := by
  rw [showEvent.eq_def]
  split
  · next k =>
    rw [render, get?_modifyElementOf h]
    congr 1
    funext b
    split
    · rfl
    · next hk => exact (BoundElement.showOn_of_not_mem hk _).symm
  · next k description =>
    rw [markError, get?_modifyElementOf h]
    rfl
  · next k =>
    have hmodify := get?_modifyElementOf h k
      (fun b ↦ { b with bindings := b.bindings.filter fun c ↦ c.id ≠ k }) id
    rw [forgetBinding]
    refine hmodify.trans ?_
    congr 1
    funext b
    split
    · rfl
    · next hk => rw [BoundElement.see, BoundElement.filter_of_not_mem hk]
  · next hupdated hfailed hdestroyed =>
    -- other events are nothing to an element
    have hsee (b : BoundElement) : b.see g.shown e = b := by
      rw [BoundElement.see.eq_def]
      split
      · exact absurd rfl (hupdated _)
      · exact absurd rfl (hfailed _ _)
      · exact absurd rfl (hdestroyed _)
      · rfl
    simp only [hsee, Option.map_id']

theorem get?_showEvents (h : g.Indexed) (es : List Inbound) (id : ElementId) :
    (es.foldl showEvent g).elements.get? id
      = (g.elements.get? id).map fun b ↦ es.foldl (BoundElement.see g.shown) b := by
  induction es generalizing g with
  | nil => exact Option.map_id'.symm
  | cons e es ih =>
    have hshown : (g.showEvent e).shown = g.shown := by
      funext k
      rw [shown, store_showEvent, shown]
    rw [List.foldl_cons, ih ((sheds_showEvent h e).indexed h), get?_showEvent h, hshown,
      Option.map_map]
    rfl

/-- **What an element makes of a batch** is what it makes of the events of the batch, given the
values that the variables have behind it. -/
theorem get?_receive (h : g.Indexed) (batch : Batch) (id : ElementId) :
    (g.receive batch).2.elements.get? id = (g.elements.get? id).map fun b ↦
      (g.receive batch).1.foldl (BoundElement.see (g.receive batch).2.shown) b := by
  have hshown : (g.receive batch).2.shown
      = { g with store := (g.store.apply batch).2 }.shown := by
    funext k
    rw [shown, receive, store_showEvents, shown]
  rw [hshown]
  exact get?_showEvents (g := { g with store := (g.store.apply batch).2 }) h _ id

end BindingEngine

/-! ## What is shown

`Shows` says of a list of events what becomes of an element. It holds of no events, of one event by
its kind, and it composes; so it holds of all that a batch gives rise to. -/

namespace BoundElement

open BindingEngine

variable {value : VarId → Json} {es es' : List Inbound} {made made' : List ElementCall}
  {b b' b'' : BoundElement} {k : VarId} {c : Binding}

/-- What events make of a bound element, where `made` are the calls that are made to it. -/
structure Shows (value : VarId → Json) (es : List Inbound) (made : List ElementCall)
    (b b' : BoundElement) : Prop where
  element : b'.element = { b.element with calls := b.element.calls ++ made }
  place : b'.context = b.context ∧ b'.observer = b.observer
  /-- The bindings of variables that have been destroyed go. -/
  bindings : b'.bindings = b.bindings.filter fun c ↦ .destroyed c.id ∉ es
  /-- A value is shown only through a readable binding of a variable that has been updated. -/
  values : ∀ call ∈ made, call.isOfValue = true → ∃ c ∈ b.bindings,
    c.access.isReadable = true ∧ .updated c.id ∈ es ∧ c.kind.show? (value c.id) = some call
  /-- An error is shown only for a failure, and taken away only for an update. -/
  marks : ∀ text, .setError text ∈ made → ∃ c ∈ b.bindings, match text with
    | none => .updated c.id ∈ es
    | some description => .pathFailure c.id description ∈ es
  /-- Which variable an error stands for does not change unseen. -/
  failing : made = [] → b'.failing = b.failing
  /-- Every variable that has been updated and is still bound is shown. -/
  complete : ∀ c ∈ b.bindings, c.access.isReadable = true → .updated c.id ∈ es →
    .destroyed c.id ∉ es → ∀ call, c.kind.show? (value c.id) = some call → call ∈ made

theorem shows_nil (value : VarId → Json) (b : BoundElement) : Shows value [] [] b b where
  element := by rw [List.append_nil]
  place := ⟨rfl, rfl⟩
  bindings := by simp
  values _ h := absurd h List.not_mem_nil
  marks _ h := absurd h List.not_mem_nil
  failing _ := rfl
  complete _ _ _ h := absurd h List.not_mem_nil

theorem Shows.append (h : Shows value es made b b') (h' : Shows value es' made' b' b'') :
    Shows value (es ++ es') (made ++ made') b b'' := by
  have hkept {c : Binding} : c ∈ b'.bindings ↔ c ∈ b.bindings ∧ .destroyed c.id ∉ es := by
    rw [h.bindings, List.mem_filter, decide_eq_true_iff]
  constructor
  case element => rw [h'.element, h.element, List.append_assoc]
  case place => exact ⟨h'.place.1.trans h.place.1, h'.place.2.trans h.place.2⟩
  case bindings =>
    rw [h'.bindings, h.bindings, List.filter_filter]
    refine List.filter_congr fun c _ ↦ ?_
    simp only [List.mem_append, not_or, Bool.decide_and, Bool.and_comm]
  case values =>
    intro call hcall hvalue
    rcases List.mem_append.mp hcall with hfirst | hlast
    · obtain ⟨c, hc, hreadable, hupdated, hshow⟩ := h.values call hfirst hvalue
      exact ⟨c, hc, hreadable, List.mem_append_left _ hupdated, hshow⟩
    · obtain ⟨c, hc, hreadable, hupdated, hshow⟩ := h'.values call hlast hvalue
      exact ⟨c, (hkept.mp hc).1, hreadable, List.mem_append_right _ hupdated, hshow⟩
  case marks =>
    intro text hcall
    rcases List.mem_append.mp hcall with hfirst | hlast
    · obtain ⟨c, hc, hevent⟩ := h.marks text hfirst
      refine ⟨c, hc, ?_⟩
      cases text <;> exact List.mem_append_left _ hevent
    · obtain ⟨c, hc, hevent⟩ := h'.marks text hlast
      refine ⟨c, (hkept.mp hc).1, ?_⟩
      cases text <;> exact List.mem_append_right _ hevent
  case failing =>
    intro hnone
    obtain ⟨hfirst, hlast⟩ := List.append_eq_nil_iff.mp hnone
    exact (h'.failing hlast).trans (h.failing hfirst)
  -- what is updated first is bound then, and what is updated later is still bound
  case complete =>
    intro c hc hreadable hupdated hstays call hshow
    rw [List.mem_append, not_or] at hstays
    rcases List.mem_append.mp hupdated with hfirst | hlast
    · exact List.mem_append_left _ (h.complete c hc hreadable hfirst hstays.1 call hshow)
    · have hc' := hkept.mpr ⟨hc, hstays.1⟩
      exact List.mem_append_right _ (h'.complete c hc' hreadable hlast hstays.2 call hshow)

/-- An event that an element makes nothing of. -/
theorem shows_nothing {e : Inbound} (hupdated : ∀ c ∈ b.bindings, e ≠ .updated c.id)
    (hdestroyed : ∀ k, e ≠ .destroyed k) : Shows value [e] [] b b where
  element := by rw [List.append_nil]
  place := ⟨rfl, rfl⟩
  bindings := by
    refine (List.filter_eq_self.mpr fun c _ ↦ decide_eq_true ?_).symm
    exact fun h ↦ hdestroyed c.id (List.mem_singleton.mp h).symm
  values _ h := absurd h List.not_mem_nil
  marks _ h := absurd h List.not_mem_nil
  failing _ := rfl
  complete c hc _ h := absurd (List.mem_singleton.mp h).symm (hupdated c hc)

private theorem binding?_eq_some (hnodup : b.ids.Nodup) (hc : c ∈ b.bindings) :
    b.binding? c.id = some c := by
  rcases hfound : b.binding? c.id with _ | c'
  · exact absurd (List.mem_map_of_mem hc) (binding?_eq_none_iff.mp hfound)
  · have hid : c'.id = c.id := by simpa using List.find?_some hfound
    exact congrArg some
      (List.inj_on_of_nodup_map hnodup (List.mem_of_find?_eq_some hfound) hc hid)

/-- The calls that take away the error mark if it stands for a variable. -/
def clearing (b : BoundElement) (k : VarId) : List ElementCall :=
  if b.failing = some k then [.setError none] else []

/-- The calls that show a value through a binding. -/
def showing (v : Json) (c : Binding) : List ElementCall :=
  if c.access.isReadable then (c.kind.show? v).toList else []

private theorem eq_of_mem_clearing {call : ElementCall} (h : call ∈ b.clearing k) :
    call = .setError none := by
  rw [clearing] at h
  split at h
  · exact List.mem_singleton.mp h
  · exact absurd h List.not_mem_nil

private theorem mem_showing_iff {v : Json} {call : ElementCall} :
    call ∈ showing v c ↔ c.access.isReadable = true ∧ c.kind.show? v = some call := by
  rw [showing]
  split
  · next h => simp [h]
  · next h => simp [h]

private theorem clearError_eq (b : BoundElement) (k : VarId) : clearError b k = { b with
    element := { b.element with calls := b.element.calls ++ b.clearing k }
    failing := if b.failing = some k then none else b.failing } := by
  rw [clearError, clearing]
  split
  · rfl
  · rw [List.append_nil]

/-- An element that is shown a value first loses the error mark if it stands for the variable. -/
theorem showOn_eq (hc : b.binding? k = some c) (v : Json) : showOn v k b = { b with
    element := { b.element with calls := b.element.calls ++ (b.clearing k ++ showing v c) }
    failing := if b.failing = some k then none else b.failing } := by
  rw [showOn, hc, showing, clearError_eq]
  simp only
  split
  · rcases c.kind.show? v with _ | call
    · rw [Option.toList_none, List.append_nil]
    · rw [Option.toList_some, ← List.append_assoc]
      rfl
  · rw [List.append_nil]

theorem shows_updated (value : VarId → Json) (hnodup : b.ids.Nodup) (hc : c ∈ b.bindings) :
    Shows value [.updated c.id] (b.clearing c.id ++ showing (value c.id) c) b
      (b.see value (.updated c.id)) := by
  have hupdated : .updated c.id ∈ [Inbound.updated c.id] := List.mem_singleton_self _
  have hbinding := binding?_eq_some hnodup hc
  rw [see, showOn_eq hbinding]
  constructor
  case element => rfl
  case place => exact ⟨rfl, rfl⟩
  case bindings => simp
  case values =>
    intro call hcall hvalue
    rcases List.mem_append.mp hcall with hclearing | hshowing
    · rw [eq_of_mem_clearing hclearing] at hvalue
      exact absurd hvalue (by simp [ElementCall.isOfValue])
    · obtain ⟨hreadable, hshow⟩ := mem_showing_iff.mp hshowing
      exact ⟨c, hc, hreadable, hupdated, hshow⟩
  case marks =>
    intro text hcall
    rcases List.mem_append.mp hcall with hclearing | hshowing
    · obtain rfl := ElementCall.setError.inj (eq_of_mem_clearing hclearing)
      exact ⟨c, hc, hupdated⟩
    · have hvalue := BindingKind.isOfValue_of_show? (mem_showing_iff.mp hshowing).2
      exact absurd hvalue (by simp [ElementCall.isOfValue])
  -- the mark is not cleared, so it stands for another variable and stays
  case failing =>
    intro hnone
    rw [clearing] at hnone
    split at hnone
    · exact absurd hnone (List.cons_ne_nil _ _)
    · next hother => exact if_neg hother
  case complete =>
    intro c' hc' hreadable hupdated' _ call hshow
    have hid : c'.id = c.id := Inbound.updated.inj (List.mem_singleton.mp hupdated')
    obtain rfl := List.inj_on_of_nodup_map hnodup hc' hc hid
    exact List.mem_append_right _ (mem_showing_iff.mpr ⟨hreadable, hshow⟩)

theorem shows_failed (value : VarId → Json) (hk : k ∈ b.ids) (description : String) :
    Shows value [.pathFailure k description] [.setError (some description)] b
      (b.see value (.pathFailure k description)) := by
  obtain ⟨c, hc, rfl⟩ := List.mem_map.mp hk
  rw [Inbound.pathFailure, see, if_pos hk]
  constructor
  case element => rfl
  case place => exact ⟨rfl, rfl⟩
  case bindings => simp [BoundElement.call]
  case values =>
    intro call hcall hvalue
    rw [List.mem_singleton.mp hcall] at hvalue
    exact absurd hvalue (by simp [ElementCall.isOfValue])
  case marks =>
    intro text hcall
    obtain rfl := ElementCall.setError.inj (List.mem_singleton.mp hcall)
    exact ⟨c, hc, List.mem_singleton_self _⟩
  case failing => exact fun hnone ↦ absurd hnone (List.cons_ne_nil _ _)
  case complete =>
    intro c' _ _ hupdated
    simp at hupdated

theorem shows_destroyed (value : VarId → Json) (b : BoundElement) (k : VarId) :
    Shows value [.destroyed k] [] b (b.see value (.destroyed k)) where
  element := by rw [List.append_nil]; rfl
  place := ⟨rfl, rfl⟩
  bindings := by simp [see]
  values _ h := absurd h List.not_mem_nil
  marks _ h := absurd h List.not_mem_nil
  failing _ := rfl
  complete _ _ _ h := by simp at h

theorem shows_see (value : VarId → Json) (hnodup : b.ids.Nodup) (e : Inbound) :
    ∃ made, Shows value [e] made b (b.see value e) := by
  rw [see.eq_def]
  split
  · next k =>
    by_cases hk : k ∈ b.ids
    · obtain ⟨c, hc, rfl⟩ := List.mem_map.mp hk
      exact ⟨_, shows_updated value hnodup hc⟩
    · rw [showOn_of_not_mem hk]
      refine ⟨[], shows_nothing (fun c hc heq ↦ ?_) (by simp)⟩
      exact hk (Inbound.updated.inj heq ▸ List.mem_map_of_mem hc)
  · next k description =>
    split
    · next hk =>
      have h := shows_failed value hk description
      rw [Inbound.pathFailure, see, if_pos hk] at h
      exact ⟨_, h⟩
    · exact ⟨[], shows_nothing (by simp) (by simp)⟩
  · next k => exact ⟨[], shows_destroyed value b k⟩
  · next hupdated hfailed hdestroyed =>
    exact ⟨[], shows_nothing (fun c _ ↦ hupdated c.id) hdestroyed⟩

private theorem nodup_see (value : VarId → Json) (hnodup : b.ids.Nodup) (e : Inbound) :
    (b.see value e).ids.Nodup := by
  obtain ⟨made, hshows⟩ := shows_see value hnodup e
  rw [ids, hshows.bindings]
  exact hnodup.sublist (List.filter_sublist.map _)

/-- **What an element makes of events.** -/
theorem shows_foldl_see (value : VarId → Json) (hnodup : b.ids.Nodup) (es : List Inbound) :
    ∃ made, Shows value es made b (es.foldl (see value) b) := by
  induction es generalizing b with
  | nil => exact ⟨[], shows_nil value b⟩
  | cons e es ih =>
    obtain ⟨made, hfirst⟩ := shows_see value hnodup e
    obtain ⟨made', hlast⟩ := ih (nodup_see value hnodup e)
    exact ⟨made ++ made', hfirst.append hlast⟩

/-- An element is left alone if none of its variables is updated or fails, except that it loses the
bindings of the variables that have been destroyed. -/
theorem Shows.untouched (h : Shows value es made b b')
    (hnone : ∀ k ∈ b.ids, .updated k ∉ es ∧ ∀ description, .pathFailure k description ∉ es) :
    b' = { b with bindings := b.bindings.filter fun c ↦ .destroyed c.id ∉ es } := by
  -- a call would be for a variable that was updated or has failed
  have hmade : made = [] := by
    refine List.eq_nil_iff_forall_not_mem.mpr fun call hcall ↦ ?_
    cases hvalue : call.isOfValue with
    | true =>
      obtain ⟨c, hc, -, hupdated, -⟩ := h.values call hcall hvalue
      exact (hnone c.id (List.mem_map_of_mem hc)).1 hupdated
    | false =>
      cases call with
      | setError text =>
        obtain ⟨c, hc, hevent⟩ := h.marks text hcall
        have hnot := hnone c.id (List.mem_map_of_mem hc)
        cases text with
        | none => exact hnot.1 hevent
        | some description => exact hnot.2 description hevent
      | _ => exact absurd hvalue (by simp [ElementCall.isOfValue])
  have helement : b'.element = b.element := by rw [h.element, hmade, List.append_nil]
  have hfailing := h.failing hmade
  obtain ⟨hcontext, hobserver⟩ := h.place
  have hbindings := h.bindings
  cases b'
  simp only at helement hfailing hcontext hobserver hbindings
  rw [helement, hfailing, hcontext, hobserver, hbindings]

end BoundElement

namespace BindingEngine

open BoundElement

variable {g g' : BindingEngine}

/-- **A batch is shown and nothing else.** It leaves the outbox alone, and its events are effects of
its messages. No element comes or goes. Whatever an element is shown as a value is, through a
readable binding, the value that a variable updated by the batch has in the end, null if it is gone.
An element of whose variables none is updated and none fails is left alone, except that it loses the
bindings of the variables that are gone. -/
theorem receive_shows (h : g.Reached) {batch : Batch} {events : List Inbound}
    (hreceive : g.receive batch = (events, g')) :
    g'.store.outbox = g.store.outbox ∧
    (∀ e ∈ events, ∃ m ∈ batch.messages, m.Causes e) ∧
    ∀ id, Option.Rel (fun b b' ↦ (∃ made, Shows g'.shown events made b b') ∧
        ((∀ k ∈ b.ids, .updated k ∉ events ∧ ∀ description, .pathFailure k description ∉ events) →
          b' = { b with bindings := b.bindings.filter fun c ↦ .destroyed c.id ∉ events }))
      (g.elements.get? id) (g'.elements.get? id) := by
  obtain ⟨window, base, hsound⟩ := h.sound
  obtain ⟨_, _, hlived⟩ := h.lived
  obtain rfl : (g.receive batch).1 = events := congrArg Prod.fst hreceive
  obtain rfl : (g.receive batch).2 = g' := congrArg Prod.snd hreceive
  refine ⟨?_, fun e he ↦ LocalStore.exists_causes_of_mem_apply he, fun id ↦ ?_⟩
  · rw [store_receive]
    exact g.store.outbox_act_apply batch
  · rw [get?_receive hsound.indexed]
    rcases hb : g.elements.get? id with _ | b
    · exact .none
    · -- no element lists a variable twice, so the events can be taken one by one
      obtain ⟨made, hshows⟩ := shows_foldl_see (g.receive batch).2.shown
        (hlived.distinct.nodup_ids hb) (g.receive batch).1
      exact .some ⟨⟨made, hshows⟩, hshows.untouched⟩

/-- An element that shows a name and whether there is an address. -/
def card : Element :=
  ⟨"div", [("ui-attr-title", "name"), ("ui-class-known", "email")], .null, []⟩

/-- The element as the first that is bound; its variables are 2 and 3. -/
def withCard : BindingEngine := ((newOver 10 0 []).bind 0 rootId card).2

/-- The address is updated ahead of all else and goes, and the name is updated twice. -/
def overhaul : Batch := ⟨false, [.destroy 3, .update 3 none (.ofList [("note:high", "old")]),
  .ofValue 2 (.string "Homer"), .ofValue 2 (.string "Marge")]⟩

/-- The element is shown that there is no address and, twice, the last name. -/
theorem receive_shows_card : withCard.Reached ∧
    (withCard.receive overhaul).2.store.outbox = withCard.store.outbox ∧
    ∃ b b', withCard.elements.get? 1 = some b ∧
      (withCard.receive overhaul).2.elements.get? 1 = some b' ∧
      (∃ made, Shows (withCard.receive overhaul).2.shown (withCard.receive overhaul).1 made b b') ∧
      b'.element.calls = [.setClass "known" false, .setAttribute "title" (some "Marge"),
        .setAttribute "title" (some "Marge")] := by
  have hreached : withCard.Reached := ⟨10, 0, [], [.act (.bind 0 rootId card)], rfl⟩
  have hreceive : withCard.receive overhaul
      = ((withCard.receive overhaul).1, (withCard.receive overhaul).2) := rfl
  obtain ⟨houtbox, -, hrel⟩ := receive_shows hreached hreceive
  have hcalls : ((withCard.receive overhaul).2.elements.get? 1).map (fun b ↦ b.element.calls)
      = some [.setClass "known" false, .setAttribute "title" (some "Marge"),
        .setAttribute "title" (some "Marge")] := rfl
  obtain ⟨b', hb', hlast⟩ := Option.map_eq_some_iff.mp hcalls
  have hcard := hrel 1
  rw [hb'] at hcard
  rcases hb : withCard.elements.get? 1 with _ | b
  · rw [hb] at hcard
    cases hcard
  · rw [hb] at hcard
    cases hcard with
    | some hshown => exact ⟨hreached, houtbox, b, b', rfl, hb', hshown.1, hlast⟩

end BindingEngine

end ReactiveVars
