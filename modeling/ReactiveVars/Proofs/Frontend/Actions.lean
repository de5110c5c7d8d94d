import ReactiveVars.Frontend.LocalStore
import ReactiveVars.Proofs.Delivery.TierQueues
import ReactiveVars.Proofs.Variable.Stores
import ReactiveVars.Proofs.Variable.Tallies

/-!
# What is done with a frontend

A frontend is run by actions in any order: local changes, batches from the backend, and the passing
of time. A local change reports one message to the backend at most.

The outbox is known by its *log*, the messages handed to the transport and behind them those that
wait, in the order in which they would leave. Sending does not change the log. A create goes into
the log behind all that has been handed over and ahead of all that waits; any other message goes
behind what waits in the tiers of its pieces.
-/

namespace ReactiveVars

/-! ## The log of an outbox

There are two equations for queueing, one for creates and one for all else, and one for flushing.
What is proved of logs goes by these alone. -/

namespace Outbox

/-- The messages handed to the transport so far. -/
def handed (o : Outbox) : List Message := o.sent.flatMap Batch.messages

/-- The messages handed to the transport, and behind them those that wait in the order in which they
would leave. -/
def log (o : Outbox) : List Message := o.handed ++ o.waiting.toList

theorem handed_send (o : Outbox) (b : Batch) : (o.send b).handed = o.handed ++ b.messages := by
  simp [send, handed]

theorem handed_flush (o : Outbox) (userEvent : Bool) : (o.flush userEvent).handed = o.log := by
  rw [flush, log]
  split
  · next hempty =>
    rw [TierQueue.isEmpty_iff.mp hempty]
    exact (List.append_nil _).symm
  · exact handed_send _ _

theorem waiting_flush (o : Outbox) (userEvent : Bool) : (o.flush userEvent).waiting = .empty := by
  rw [flush]
  split
  · next hempty => exact TierQueue.isEmpty_iff.mp hempty
  · rfl

@[simp] theorem log_flush (o : Outbox) (userEvent : Bool) : (o.flush userEvent).log = o.log := by
  rw [log, handed_flush, waiting_flush]
  exact List.append_nil _

theorem queue_of_immediate {m : Message} (h : m.isImmediate = true) (o : Outbox) (now : Nat) :
    o.queue now m = o.send ⟨false, [m]⟩ := by
  cases m with
  | create parent value ps id noWatch unbound => rfl
  | _ => exact absurd h (by simp [Message.isImmediate])

private theorem addAll_of_not_immediate {ps : List (Tier × Message)}
    (h : ∀ p ∈ ps, p.2.isImmediate = false) (o : Outbox) (now : Nat) :
    ps.foldl (fun o p ↦ o.add now p.1 p.2) o = { o with
      waiting := o.waiting.pushAll ps
      deadline := if ps.isEmpty then o.deadline else some (now + o.window) } := by
  induction ps generalizing o with
  | nil => rfl
  | cons p ps ih =>
    rw [List.forall_mem_cons] at h
    rw [List.foldl_cons, add, if_neg (by simp [h.1]), ih h.2]
    cases ps <;> rfl

/-- The pieces of any other message wait, and put the deadline off. -/
theorem queue_eq_of_not_immediate {m : Message} (h : m.isImmediate = false) (o : Outbox)
    (now : Nat) : o.queue now m = { o with
      waiting := o.waiting.pushAll m.pieces, deadline := some (now + o.window) } := by
  have hpieces : ∀ p ∈ m.pieces, p.2.isImmediate = false :=
    fun p hp ↦ (Message.isImmediate_of_mem_pieces hp).trans h
  rw [queue, addAll_of_not_immediate hpieces, if_neg (by simp [m.pieces_ne_nil])]

/-- What waits does so behind what waited in the tier before. -/
theorem queue_of_not_immediate {m : Message} (h : m.isImmediate = false) (o : Outbox) (now : Nat) :
    (o.queue now m).handed = o.handed ∧
      ∀ t, (o.queue now m).waiting.tier t = o.waiting.tier t ++ Batch.inTier m.pieces t := by
  rw [queue_eq_of_not_immediate h]
  exact ⟨rfl, TierQueue.tier_pushAll _ _⟩

end Outbox

/-! ## Actions

Whoever holds a frontend changes variables, takes in batches and lets time pass. All of these are
actions, and one that is refused leaves the frontend as it was but for a number that it may have
spent. -/

/-- Counts an observer in if there is one. -/
def WatchTally.join (t : WatchTally) (id : VarId) : Option Observer → WatchTally
  | some o => (t.watch id o).2
  | none => t

theorem WatchTally.hasWatcher_join (t : WatchTally) (id : VarId) (o : Option Observer)
    (k : VarId) : (t.join id o).hasWatcher k = (o.isSome && decide (id = k) || t.hasWatcher k) := by
  cases o with
  | none => rfl
  | some o => exact hasWatcher_watch t id o k

namespace LocalStore

/-- Something that is done with the variables of a frontend. -/
inductive Action where
  | create (now : Nat) (parent : VarId) (value : Option Json) (ps : Properties)
    (observer : Option Observer) (unbound : Bool)
  | update (now : Nat) (id : VarId) (value : Option Json) (ps : Properties)
  | watch (now : Nat) (id : VarId) (o : Observer)
  | unwatch (now : Nat) (id : VarId) (o : Observer)
  | destroy (now : Nat) (id : VarId)
  | apply (b : Batch)
  | poll (now : Nat)
  | flushUserEvent

/-- What an action leaves behind; one that is refused may have spent a number. -/
def act (l : LocalStore) : Action → LocalStore
  | .create now parent value ps o unbound => (l.create now parent value ps o unbound).2
  | .update now id value ps => match l.update now id value ps with
    | .ok l' => l'
    | .error _ => l
  | .watch now id o => match l.watch now id o with
    | .ok (_, l') => l'
    | .error _ => l
  | .unwatch now id o => l.unwatch now id o
  | .destroy now id => (l.destroy now id).2
  | .apply b => (l.apply b).2
  | .poll now => (l.poll now).2
  | .flushUserEvent => l.flushUserEvent

/-- What actions in order leave behind. -/
def run (l : LocalStore) (as : List Action) : LocalStore := as.foldl act l

variable {l : LocalStore}

theorem ids_withBase (window : Nat) (base : VarId) :
    (withBase window base).store.ids = .frontendFrom base := by
  have hlt : ¬ max base (rootId + 1) ≤ rootId :=
    Int.not_le.mpr (Int.lt_of_lt_of_le (by decide) (Int.le_max_right _ _))
  exact if_neg hlt

theorem lt_next_withBase {window : Nat} {base k : VarId}
    (hk : (withBase window base).store.contains k = true) :
    k < (withBase window base).store.ids.next := by
  obtain ⟨v, hv⟩ := Store.contains_iff.mp hk
  have hroot : v = .new rootId noParent := List.mem_singleton.mp (Store.mem_of_get? hv)
  rw [← Store.id_of_get? hv, hroot, ids_withBase]
  exact Int.lt_of_lt_of_le (by decide) (Int.le_max_right _ _)

/-! ### What each action does -/

theorem act_create_of_ok {parent : VarId}
    (h : l.store.checkNew l.store.ids.next parent = .ok ()) (now : Nat) (value : Option Json)
    (ps : Properties) (o : Option Observer) (unbound : Bool) :
    l.act (.create now parent value ps o unbound) = ⟨
      ⟨Store.newVariable l.store.ids.next ⟨none, parent, value.getD .null, ps, unbound⟩
        :: l.store.entries, l.store.ids.vend.2⟩,
      l.tally.join l.store.ids.next o,
      if unbound then l.outbox
      else l.outbox.queue now
        (.create parent value ps (some l.store.ids.next) o.isNone false)⟩ := by
  rw [act, create, Store.insert_vended, h]
  cases o <;> cases unbound <;> rfl

theorem act_create_of_error {parent : VarId} {e : SyncError}
    (h : l.store.checkNew l.store.ids.next parent = .error e) (now : Nat) (value : Option Json)
    (ps : Properties) (o : Option Observer) (unbound : Bool) :
    l.act (.create now parent value ps o unbound) = { l with store := l.store.vend.2 } := by
  rw [act, create, Store.insert_vended, h]

theorem act_update_of_contains {id : VarId} (h : l.store.contains id = true) (now : Nat)
    (value : Option Json) (ps : Properties) :
    l.act (.update now id value ps) = ⟨l.store.modify id fun v ↦ v.update value ps, l.tally,
      if l.isUnbound id then l.outbox else l.outbox.queue now (.update id value ps)⟩ := by
  rw [act, update, Store.update, if_pos h]
  cases hu : l.isUnbound id <;> simp [Except.map, report]

theorem act_update_of_not_contains {id : VarId} (h : l.store.contains id = false) (now : Nat)
    (value : Option Json) (ps : Properties) : l.act (.update now id value ps) = l := by
  rw [act, update, Store.update, if_neg (by simp [h])]
  rfl

theorem act_watch_of_contains {id : VarId} (h : l.store.contains id = true) (now : Nat)
    (o : Observer) : l.act (.watch now id o) = ⟨l.store, (l.tally.watch id o).2,
      if (l.tally.watch id o).1.edge && !l.isUnbound id then l.outbox.queue now (.watch id)
      else l.outbox⟩ := by
  obtain ⟨v, hv⟩ := Store.contains_iff.mp h
  rw [act, watch, get?, hv]
  simp only
  cases (l.tally.watch id o).1.edge && !l.isUnbound id <;> rfl

theorem act_watch_of_not_contains {id : VarId} (h : l.store.contains id = false) (now : Nat)
    (o : Observer) : l.act (.watch now id o) = l := by
  rw [act, watch, get?, Store.contains_eq_false_iff.mp h]

theorem act_unwatch (now : Nat) (id : VarId) (o : Observer) :
    l.act (.unwatch now id o) = ⟨l.store, (l.tally.unwatch id o).2,
      if (l.tally.unwatch id o).1.edge && !l.isUnbound id then l.outbox.queue now (.unwatch id)
      else l.outbox⟩ := by
  rw [act, unwatch]
  simp only
  cases (l.tally.unwatch id o).1.edge && !l.isUnbound id <;> rfl

theorem act_destroy (now : Nat) (id : VarId) :
    l.act (.destroy now id) = ⟨(l.store.destroy id).2, l.tally.forgetAll (l.store.destroy id).1,
      if l.store.contains id && !l.isUnbound id then l.outbox.queue now (.destroy id)
      else l.outbox⟩ := by
  have hempty : (l.store.destroy id).1.isEmpty = !l.store.contains id := by
    cases h : l.store.contains id with
    | true => simp [Store.destroy_of_contains h]
    | false => simp [Store.destroy_of_not_contains h]
  rw [act, destroy]
  simp only [hempty, Bool.not_not]
  cases l.store.contains id && !l.isUnbound id <;> rfl

theorem act_apply (b : Batch) :
    l.act (.apply b) = b.ordered.foldl (fun l m ↦ (l.applyMessage m).2) l := by
  rw [act, apply]
  generalize b.ordered = ms
  induction ms generalizing l with
  | nil => rfl
  | cons m ms ih => exact ih

theorem act_poll (now : Nat) : l.act (.poll now) = { l with
    outbox := if l.outbox.isDue now then l.outbox.flush false else l.outbox } := by
  rw [act, poll, Outbox.poll]
  cases l.outbox.isDue now <;> rfl

end LocalStore

end ReactiveVars
