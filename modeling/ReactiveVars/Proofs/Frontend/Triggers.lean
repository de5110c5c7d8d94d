import ReactiveVars.Proofs.Frontend.Outboxes
import ReactiveVars.Proofs.Frontend.Writes

/-!
# An event sends the live value first

An event is reported together with all that waits, in one batch. If the live value of the element
has not been sent, it is sent ahead of the event. Both are reported in the medium tier, so nothing
comes between them, whatever waits. That the second report finds its variable as it was before the
first rests on the two being about different variables, since no element lists a variable twice.

## Main statement

* `trigger_exact`: what an event sends, and what that leaves behind.
-/

namespace ReactiveVars

/-! ## Several values -/

namespace Store

variable {s : Store} {k : VarId} {u : Variable} {values : List (VarId × Json)}

/-- The store with new values of variables. -/
def setValues (s : Store) (values : List (VarId × Json)) : Store :=
  values.foldl (fun s p ↦ s.setValue p.1 p.2) s

private theorem get?_setValues_of_not_mem (h : k ∉ values.map Prod.fst) :
    (s.setValues values).get? k = s.get? k := by
  induction values generalizing s with
  | nil => rfl
  | cons p values ih =>
    rw [List.map_cons, List.mem_cons, not_or] at h
    rw [setValues, List.foldl_cons, ← setValues, ih h.2, get?_setValue, if_neg (Ne.symm h.1)]

private theorem get?_setValues_of_mem (hnodup : (values.map Prod.fst).Nodup) {p : VarId × Json}
    (hp : p ∈ values) (h : s.get? p.1 = some u) :
    (s.setValues values).get? p.1 = some { u with value := p.2 } := by
  induction values generalizing s with
  | nil => exact absurd hp List.not_mem_nil
  | cons q values ih =>
    obtain ⟨hq, hnodup⟩ := List.nodup_cons.mp hnodup
    rw [setValues, List.foldl_cons, ← setValues]
    rcases List.mem_cons.mp hp with rfl | hmem
    · rw [get?_setValues_of_not_mem hq, get?_setValue, if_pos rfl, h, Option.map_some]
    · refine ih hnodup hmem ?_
      rw [get?_setValue, if_neg, h]
      exact fun heq ↦ hq (heq ▸ List.mem_map_of_mem hmem)

end Store

/-- Whatever waits leaves as one batch, in the order of its tiers. -/
theorem Outbox.flush_eq_toList (o : Outbox) (userEvent : Bool) : o.flush userEvent = { o with
    waiting := .empty
    deadline := none
    sent := o.sent ++ if o.waiting.toList.isEmpty then []
      else [⟨userEvent, o.waiting.toList⟩] } := by
  have hempty : o.pending = 0 ↔ o.waiting.toList.isEmpty = true := by
    rw [pending, TierQueue.size_eq_zero_iff, List.isEmpty_iff, TierQueue.toList_eq_nil_iff]
  rw [flush_eq]
  simp only [hempty]

private theorem LocalStore.get?_of_kind? {l : LocalStore} {k : VarId} {unbound : Bool}
    (h : l.store.kind? k = some unbound) : ∃ u, l.get? k = some u ∧ u.unbound = unbound :=
  Option.map_eq_some_iff.mp h

namespace BindingEngine

open LocalStore

variable {g : BindingEngine} {id : ElementId} {b : BoundElement} {c : Binding} {event : String}

/-! ## What is sent

Two lists are reported in order, each of one message at most, and their variables differ. So what
the second finds does not depend on the first. -/

/-- The live value of an element, with its variable, if it has not been sent and may be. -/
def unsentLive (g : BindingEngine) (b : BoundElement) : List (VarId × Json) :=
  match b.valueBinding? with
  | some c => if c.access ≠ .read ∧ g.store.value? c.id != some b.element.live
    then [(c.id, b.element.live)] else []
  | none => []

/-- The payload of an event, with its variable, if it is to be sent. -/
def fired (g : BindingEngine) (c : Binding) (payload : Json) : List (VarId × Json) :=
  if c.access = .action ∨ c.access = .write ∨
    c.access = .readWrite ∧ g.store.value? c.id != some payload
  then [(c.id, payload)] else []

/-- What an event sends. -/
def reported (g : BindingEngine) (b : BoundElement) (c : Binding) (payload : Json) :
    List (VarId × Json) := g.unsentLive b ++ g.fired c payload

/-- The reports of values at one time. -/
def reportsAt (now : Nat) (values : List (VarId × Json)) : List (Nat × VarId × Json) :=
  values.map fun p ↦ (now, p)

private theorem send_fired (h : g.store.store.kind? c.id = some false) (now : Nat)
    (payload : Json) : ∃ sent, g.send now c payload = (.ok sent,
      { g with store := g.store.putAll (reportsAt now (g.fired c payload)) }) := by
  obtain ⟨u, hu, hbound⟩ := get?_of_kind? h
  have hfired : g.fired c payload = if c.access.sends u.value payload then [(c.id, payload)]
      else [] := by
    rw [fired, value?_bne hu]
    cases hne : u.value != payload <;> cases c.access <;> simp [Access.sends, hne]
  rw [send_eq hu hbound, hfired]
  cases c.access.sends u.value payload
  · exact ⟨false, rfl⟩
  · exact ⟨true, rfl⟩

theorem sendUnsent_eq (h : ∀ c, b.valueBinding? = some c → g.store.store.kind? c.id = some false)
    (now : Nat) : ∃ sent, g.sendUnsent now b = (.ok sent,
      { g with store := g.store.putAll (reportsAt now (g.unsentLive b)) }) := by
  rw [sendUnsent, unsentValue?, unsentLive]
  rcases hc : b.valueBinding? with _ | c
  · exact ⟨false, rfl⟩
  obtain ⟨u, hu, hbound⟩ := get?_of_kind? (h c hc)
  simp only [Option.filter_some, value?_bne hu]
  rcases hne : u.value != b.element.live with _ | _
  · simp only [Bool.false_eq_true, if_false, and_false]
    exact ⟨false, rfl⟩
  · simp only [if_true, and_true, send_eq hu hbound]
    cases c.access
    case read => exact ⟨false, rfl⟩
    case readWrite => exact ⟨true, by simp [Access.sends, hne]; rfl⟩
    case write => exact ⟨true, rfl⟩
    case action => exact ⟨true, rfl⟩

theorem store_putAll (l : LocalStore) (now : Nat) (values : List (VarId × Json)) :
    (l.putAll (reportsAt now values)).store = l.store.setValues values := by
  rw [putAll_eq, reportsAt, List.foldl_map]
  rfl

theorem Distinct.id_ne (h : g.Distinct) (hb : g.elements.get? id = some b) {v : Binding}
    (hv : b.valueBinding? = some v) (hc : b.eventBinding? event = some c) : v.id ≠ c.id := by
  have hnodup : (b.bindings.map Binding.id).Nodup := h.nodup_ids hb
  rw [BoundElement.valueBinding?] at hv
  rw [BoundElement.eventBinding?] at hc
  intro heq
  have hsame := List.inj_on_of_nodup_map hnodup (List.mem_of_find?_eq_some hv)
    (List.mem_of_find?_eq_some hc) heq
  have hvalue : v.kind = .value := by simpa using List.find?_some hv
  have hevent : c.kind = .event event := by simpa using List.find?_some hc
  rw [hsame, hevent] at hvalue
  exact absurd hvalue (by simp)

/-- At most the variable of the value is in the first list, and that of the event in the second. -/
theorem mem_unsentLive {p : VarId × Json} (hp : p ∈ g.unsentLive b) :
    ∃ v, b.valueBinding? = some v ∧ p = (v.id, b.element.live) := by
  rw [unsentLive] at hp
  rcases hv : b.valueBinding? with _ | v
  · rw [hv] at hp
    exact absurd hp List.not_mem_nil
  · simp only [hv, List.mem_ite_nil_right, List.mem_singleton] at hp
    exact ⟨v, rfl, hp.2⟩

theorem mem_fired {p : VarId × Json} {payload : Json} (hp : p ∈ g.fired c payload) :
    p = (c.id, payload) := by
  rw [fired, List.mem_ite_nil_right, List.mem_singleton] at hp
  exact hp.2

private theorem not_mem_unsentLive (h : g.Distinct) (hb : g.elements.get? id = some b)
    (hc : b.eventBinding? event = some c) : c.id ∉ (g.unsentLive b).map Prod.fst := by
  intro hmem
  obtain ⟨p, hp, hid⟩ := List.mem_map.mp hmem
  obtain ⟨v, hv, rfl⟩ := mem_unsentLive hp
  exact h.id_ne hb hv hc hid

private theorem nodup_reported (h : g.Distinct) (hb : g.elements.get? id = some b)
    (hc : b.eventBinding? event = some c) (payload : Json) :
    ((g.reported b c payload).map Prod.fst).Nodup := by
  rw [reported, List.map_append, List.nodup_append]
  refine ⟨?_, ?_, fun k hk k' hk' heq ↦ ?_⟩
  · rw [unsentLive]
    split
    · split <;> simp
    · exact List.nodup_nil
  · rw [fired]
    split <;> simp
  · obtain ⟨p, hp, rfl⟩ := List.mem_map.mp hk'
    rw [heq, mem_fired hp] at hk
    exact not_mem_unsentLive h hb hc hk

/-- An event sends what it reports, and then all that waits. -/
theorem trigger_eq (h : g.Distinct) (hb : g.elements.get? id = some b)
    (hc : b.eventBinding? event = some c)
    (hvalue : ∀ v, b.valueBinding? = some v → g.store.store.kind? v.id = some false)
    (hevent : g.store.store.kind? c.id = some false) (now : Nat) (payload : Json) :
    g.trigger now id event payload = (.ok true, { g with
      store := (g.store.putAll (reportsAt now (g.reported b c payload))).flushUserEvent }) := by
  obtain ⟨_, hunsent⟩ := sendUnsent_eq hvalue now
  have hget : (g.store.putAll (reportsAt now (g.unsentLive b))).get? c.id = g.store.get? c.id := by
    rw [LocalStore.get?, store_putAll,
      Store.get?_setValues_of_not_mem (not_mem_unsentLive h hb hc)]
    rfl
  generalize hl : g.store.putAll (reportsAt now (g.unsentLive b)) = l at hunsent hget
  have hkind : l.store.kind? c.id = some false := by
    rw [← hevent]
    exact congrArg (Option.map Variable.unbound) hget
  have hfired : fired { g with store := l } c payload = g.fired c payload := by
    rw [fired, fired, value?, hget]
    rfl
  obtain ⟨_, hsend⟩ := send_fired (g := { g with store := l }) hkind now payload
  rw [hfired] at hsend
  have hboth : g.store.putAll (reportsAt now (g.reported b c payload))
      = l.putAll (reportsAt now (g.fired c payload)) := by
    rw [reported, reportsAt, List.map_append, putAll, List.foldl_append, ← hl]
    rfl
  rw [trigger, hb]
  simp only [hc, hunsent, hsend, hboth]
  rfl

/-- The messages that leave with an event, in the order of their tiers. -/
def leaving (g : BindingEngine) (b : BoundElement) (c : Binding) (payload : Json) : List Message :=
  g.store.outbox.waiting.high ++
    (g.store.outbox.waiting.medium
      ++ (g.reported b c payload).map fun p ↦ .ofValue p.1 p.2) ++
    g.store.outbox.waiting.low

/-- **An event sends the live value first.** Whatever waits, an event that an element is bound to
leaves nothing behind: all messages leave as one batch, the two reports of the event next to each
other behind what has waited in their tier, and what has been reported is what the frontend has. -/
theorem trigger_exact (hreached : g.Reached) (hb : g.elements.get? id = some b)
    (hc : b.eventBinding? event = some c)
    (hvalue : ∀ v, b.valueBinding? = some v → g.store.store.kind? v.id = some false)
    (hevent : g.store.store.kind? c.id = some false) (now : Nat) (payload : Json) :
    (g.trigger now id event payload).1 = .ok true ∧
    (g.trigger now id event payload).2 = { g with store := ⟨
      g.store.store.setValues (g.reported b c payload), g.store.tally,
      { g.store.outbox with
        waiting := .empty
        deadline := none
        sent := g.store.outbox.sent ++ if (g.leaving b c payload).isEmpty then []
          else [⟨true, g.leaving b c payload⟩] }⟩ } ∧
    ∀ p ∈ g.reported b c payload,
      (g.trigger now id event payload).2.store.value? p.1 = some p.2 := by
  obtain ⟨window, base, hlived⟩ := hreached.lived
  rw [trigger_eq hlived.distinct hb hc hvalue hevent]
  refine ⟨rfl, ?_, fun p hp ↦ ?_⟩
  · -- the two reports wait behind the others of the medium tier
    have hleaving : g.store.outbox.waiting.high ++ (g.store.outbox.waiting.medium
        ++ (reportsAt now (g.reported b c payload)).map fun r ↦ .ofValue r.2.1 r.2.2)
          ++ g.store.outbox.waiting.low = g.leaving b c payload := by
      rw [reportsAt, List.map_map]
      rfl
    rw [LocalStore.flushUserEvent, store_putAll, putAll_eq, Outbox.flush_eq_toList]
    simp only [TierQueue.toList, hleaving]
  · have hkind : g.store.store.kind? p.1 = some false := by
      rcases List.mem_append.mp hp with hlive | hfired
      · obtain ⟨v, hv, rfl⟩ := mem_unsentLive hlive
        exact hvalue v hv
      · rw [mem_fired hfired]
        exact hevent
    obtain ⟨u, hu, -⟩ := get?_of_kind? hkind
    have hget := Store.get?_setValues_of_mem (nodup_reported hlived.distinct hb hc payload) hp hu
    rw [← store_putAll] at hget
    exact congrArg (Option.map Variable.value) hget

/-- An input element that shows a name and tells when it is left. -/
def nameField : Element :=
  ⟨"input", [("ui-value", "name"), ("ui-event-blur", "left")], .string "Homer", []⟩

/-- The element as the first that is bound. -/
def withNameField : BindingEngine := (newOver 10 0 []).after [.act (.bind 0 rootId nameField)]

/-- The element as it is bound. -/
def boundNameField : BoundElement := (withNameField.elements.get? 1).get (by decide +kernel)

/-- The name that has been typed goes ahead of the event, and behind what waits. -/
theorem trigger_exact_nameField :
    (withNameField.trigger 5 1 "blur" .null).1 = .ok true ∧
    (withNameField.trigger 5 1 "blur" .null).2.store.outbox.sent.getLast?
      == some ⟨true, [.watch rootId, .ofValue 2 (.string "Homer"), .ofValue 3 .null]⟩ := by
  have hreached : withNameField.Reached := ⟨10, 0, [], _, rfl⟩
  have hb : withNameField.elements.get? 1 = some boundNameField := (Option.some_get _).symm
  have hc : boundNameField.eventBinding? "blur" = some ⟨.event "blur", 3, .action⟩ := by
    decide +kernel
  have hfound : boundNameField.valueBinding? = some ⟨.value, 2, .readWrite⟩ := by decide +kernel
  have hvalue (v : Binding) (hv : boundNameField.valueBinding? = some v) :
      withNameField.store.store.kind? v.id = some false := by
    rw [← Option.some_inj.mp (hfound.symm.trans hv)]
    decide +kernel
  have hevent : withNameField.store.store.kind? 3 = some false := by decide +kernel
  obtain ⟨htrue, heffect, -⟩ := trigger_exact hreached hb hc hvalue hevent 5 .null
  refine ⟨htrue, ?_⟩
  rw [heffect]
  decide +kernel

end BindingEngine

end ReactiveVars
