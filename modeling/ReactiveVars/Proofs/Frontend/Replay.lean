import ReactiveVars.Proofs.Frontend.Actions
import ReactiveVars.Proofs.Variable.Replays

/-!
# What a frontend reports reproduces its variables

The messages of a frontend do not leave in the order in which they are reported: a create overtakes
everything that waits, and an update is taken apart into pieces that leave with their tiers. This
module shows that replaying the messages in the order in which they leave still leads to the
variables of the frontend.

Two facts carry the argument. Pieces outside the medium tier have no value, so they change neither
the tree nor the values, and the medium tier keeps its order. And a create may be moved ahead of the
updates and destroys that wait: they were reported before the new number was given out, and the
parent was there after them.

## Main statement

* `replay_log`: replaying the log of a frontend from the root alone accepts every create and leads
  to the variables that the frontend has, with the same parents and values.
-/

namespace ReactiveVars

open Store

/-- The store with the root alone, which has no value. -/
def Store.placeholder (ids : IdSource) : Store :=
  ((withIds ids).insert ⟨some rootId, noParent, .null, .empty, false⟩).2

/-! ## What may wait

A message that waits was reported before the numbers to come were given out, so it cannot be about
them. Outside the medium tier it carries no value either. -/

/-- Whether a message may wait in a tier while numbers from `next` on are free: it is not a create,
it does not change a variable to come, and only in the medium tier does it change the outline. -/
def Message.mayWait (next : VarId) (t : Tier) : Message → Prop
  | .create .. => False
  | .update id value _ => id < next ∧ (t ≠ .medium → value = none)
  | .destroy id => id < next ∧ t = .medium
  | _ => True

namespace Message

variable {next next' k : VarId} {t : Tier} {m : Message}

private theorem mayWait.isImmediate (h : m.mayWait next t) : m.isImmediate = false := by
  cases m with
  | create => exact h.elim
  | _ => rfl

private theorem mayWait.changed?_ne (h : m.mayWait next t) (hk : next ≤ k) :
    m.changed? ≠ some k := by
  intro hm
  cases m with
  | create => exact h.elim
  | update id value ps =>
    have hid : id < next := h.1
    rw [Option.some_inj.mp hm] at hid
    exact absurd hid (Int.not_lt.mpr hk)
  | destroy id =>
    have hid : id < next := h.1
    rw [Option.some_inj.mp hm] at hid
    exact absurd hid (Int.not_lt.mpr hk)
  | _ => exact absurd hm (by simp [changed?])

private theorem mayWait.mono (h : m.mayWait next t) (hle : next ≤ next') : m.mayWait next' t := by
  cases m with
  | update id value ps => exact ⟨Int.lt_of_lt_of_le h.1 hle, h.2⟩
  | destroy id => exact ⟨Int.lt_of_lt_of_le h.1 hle, h.2⟩
  | _ => exact h

/-- Outside the medium tier nothing that waits changes the outline. -/
private theorem mayWait.outline_change (h : m.mayWait next t) (ht : t ≠ .medium) (s : Store) :
    (s.change m).outline = s.outline := by
  cases m with
  | update id value ps =>
    have hvalue : value = none := h.2 ht
    subst hvalue
    exact s.outline_change_update_none id ps
  | destroy id => exact absurd h.2 ht
  | _ => rfl

private theorem outline_changeAll_of_mayWait {ms : List Message} (h : ∀ m ∈ ms, m.mayWait next t)
    (ht : t ≠ .medium) (s : Store) : (s.changeAll ms).outline = s.outline := by
  induction ms generalizing s with
  | nil => rfl
  | cons m ms ih =>
    rw [List.forall_mem_cons] at h
    exact (ih h.2 _).trans (h.1.outline_change ht s)

/-- The pieces of a message may wait in their tiers if it changes no variable to come. -/
theorem mayWait_of_mem_inTier_pieces {piece : Message} (hm : m.isImmediate = false)
    (hnext : ∀ k, m.changed? = some k → k < next) (hpiece : piece ∈ Batch.inTier m.pieces t) :
    piece.mayWait next t := by
  cases m with
  | create => exact absurd hm (by simp [Message.isImmediate])
  | update id value ps =>
    rcases inTier_pieces_update id value ps t with ⟨part, hin⟩ | ⟨hin, -⟩
    · rw [hin, List.mem_singleton] at hpiece
      rw [hpiece]
      exact ⟨hnext id rfl, fun ht ↦ if_neg ht⟩
    · exact absurd hpiece (by simp [hin])
  | destroy id =>
    simp only [pieces, Batch.inTier_singleton, List.mem_ite_nil_right, List.mem_singleton] at hpiece
    rw [hpiece.2]
    exact ⟨hnext id rfl, hpiece.1.symm⟩
  | _ =>
    simp only [pieces, Batch.inTier_singleton, List.mem_ite_nil_right, List.mem_singleton] at hpiece
    rw [hpiece.2]
    trivial

theorem outline_changeAll_pieces (hm : m.isImmediate = false) (s : Store) :
    (s.changeAll (Batch.inTier m.pieces .medium)).outline = (s.change m).outline := by
  cases m with
  | create => exact absurd hm (by simp [Message.isImmediate])
  | update id value ps =>
    rcases inTier_pieces_update id value ps .medium with ⟨part, hin⟩ | ⟨hin, hvalue⟩
    · rw [hin, if_pos rfl]
      exact (s.outline_change_update id value part).trans (s.outline_change_update id value ps).symm
    · rw [hin, hvalue rfl]
      exact (s.outline_change_update_none id ps).symm
  | _ => rfl

end Message

/-! ## The trail of a frontend

A trail is the store that the messages handed over have led to. The invariant is that those that
wait in the medium tier lead on from it to the variables of the frontend; it moves on only when
something is sent. -/

namespace LocalStore

/-- The messages handed over have led to a store, and those that wait in the medium tier lead on
from it to the variables of the frontend. -/
structure Trails (l : LocalStore) (s : Store) : Prop where
  bound : ∀ v ∈ l.store.entries, v.unbound = false
  ascending : l.store.ids.ascending = true
  grown : Grown s.entries
  fresh : ∀ k, s.contains k = true → k < l.store.ids.next
  waiting : ∀ t, ∀ m ∈ l.outbox.waiting.tier t, m.mayWait l.store.ids.next t
  outline : (s.changeAll (l.outbox.waiting.tier .medium)).outline = l.store.outline

variable {l : LocalStore} {s : Store} {id : VarId}

theorem Trails.isUnbound (h : l.Trails s) (id : VarId) : l.isUnbound id = false := by
  rw [LocalStore.isUnbound, get?]
  cases hv : l.store.get? id with
  | none => rfl
  | some v => exact h.bound v (mem_of_get? hv)

theorem Trails.lt_next (h : l.Trails s) (hc : l.store.contains id = true) :
    id < l.store.ids.next := by
  rw [← contains_eq_of_outline_eq h.outline] at hc
  exact h.fresh id (contains_of_contains_changeAll hc)

/-- What waits outside the medium tier does not show in the outline. -/
theorem Trails.outline_waiting (h : l.Trails s) :
    (s.changeAll l.outbox.waiting.toList).outline = l.store.outline := by
  have hsplit : s.changeAll l.outbox.waiting.toList
      = ((s.changeAll (l.outbox.waiting.tier .high)).changeAll
        (l.outbox.waiting.tier .medium)).changeAll (l.outbox.waiting.tier .low) := by
    rw [changeAll, changeAll, changeAll, changeAll, ← List.foldl_append, ← List.foldl_append,
      ← List.append_assoc]
    rfl
  rw [hsplit, Message.outline_changeAll_of_mayWait (h.waiting .low) (by simp), ← h.outline]
  exact outline_changeAll (Message.outline_changeAll_of_mayWait (h.waiting .high) (by simp) s) _

/-- The messages that wait are replayed as changes. -/
theorem Trails.replay_waiting (h : l.Trails s) :
    s.replay l.outbox.waiting.toList = .ok (s.changeAll l.outbox.waiting.toList) := by
  refine replay_of_not_immediate (fun m hm ↦ ?_) s
  rw [TierQueue.toList_eq] at hm
  obtain ⟨t, -, hm⟩ := List.mem_flatMap.mp hm
  exact (h.waiting t m hm).isImmediate

/-! ### What an action does to the trail -/

theorem Trails.report {m : Message} (h : l.Trails s) (hm : m.isImmediate = false)
    (hnext : ∀ k, m.changed? = some k → k < l.store.ids.next) (now : Nat) (tally : WatchTally) :
    Trails ⟨l.store.change m, tally, l.outbox.queue now m⟩ s := by
  obtain ⟨-, htier⟩ := Outbox.queue_of_not_immediate hm l.outbox now
  refine ⟨fun v hv ↦ unbound_of_mem_change h.bound hv, ?_, h.grown, ?_, fun t m' hm' ↦ ?_, ?_⟩
  · rw [ids_change]
    exact h.ascending
  · rw [ids_change]
    exact h.fresh
  · rw [ids_change]
    rw [htier, List.mem_append] at hm'
    rcases hm' with hold | hpiece
    · exact h.waiting t m' hold
    · exact Message.mayWait_of_mem_inTier_pieces hm hnext hpiece
  · rw [htier, changeAll, List.foldl_append, ← changeAll, ← changeAll,
      Message.outline_changeAll_pieces hm, outline_change, h.outline, ← outline_change]

theorem Trails.spend (h : l.Trails s) : Trails { l with store := l.store.vend.2 } s := by
  obtain ⟨hascending, hlt⟩ := IdSource.vend_of_ascending h.ascending
  have hle : l.store.ids.next ≤ l.store.vend.2.ids.next := Int.le_of_lt hlt
  exact ⟨h.bound, hascending, h.grown, fun k hk ↦ Int.lt_of_lt_of_le (h.fresh k hk) hle,
    fun t m hm ↦ (h.waiting t m hm).mono hle, h.outline⟩

/-- A create that the frontend accepts is accepted ahead of what waits. -/
private theorem Trails.checkNew_ahead {parent : VarId} (h : l.Trails s)
    (hcheck : l.store.checkNew l.store.ids.next parent = .ok ()) :
    s.checkNew l.store.ids.next parent = .ok () := by
  obtain ⟨hnonzero, -, hparent⟩ := checkNew_eq_ok_iff.mp hcheck
  refine checkNew_eq_ok_iff.mpr ⟨hnonzero, ?_, hparent.imp_right fun hc ↦ ?_⟩
  · rw [← Bool.not_eq_true]
    exact fun hc ↦ Int.lt_irrefl _ (h.fresh _ hc)
  · -- the parent is still there after all that waits, so it was there before
    exact contains_of_contains_changeAll ((contains_eq_of_outline_eq h.outline parent).trans hc)

theorem Trails.create {parent : VarId} (h : l.Trails s)
    (hcheck : l.store.checkNew l.store.ids.next parent = .ok ()) (now : Nat) (value : Option Json)
    (ps : Properties) (noWatch : Bool) (tally : WatchTally) :
    ∃ s', s.replay [.create parent value ps (some l.store.ids.next) noWatch false] = .ok s' ∧
      Trails ⟨⟨newVariable l.store.ids.next ⟨none, parent, value.getD .null, ps, false⟩
        :: l.store.entries, l.store.ids.vend.2⟩, tally,
        l.outbox.queue now (.create parent value ps (some l.store.ids.next) noWatch false)⟩ s' := by
  have hspend := h.spend
  have hahead := h.checkNew_ahead hcheck
  generalize hnext : l.store.ids.next = next at hcheck hahead
  obtain ⟨hnonzero, hfree, hroot⟩ := checkNew_eq_ok_iff.mp hahead
  -- the parent is there after what waits, so nothing that waits takes it away
  have hlater : parent = noParent ∨
      (s.changeAll (l.outbox.waiting.tier .medium)).contains parent = true :=
    (checkNew_eq_ok_iff.mp hcheck).2.2.imp_right
      fun hc ↦ (contains_eq_of_outline_eq h.outline parent).trans hc
  refine ⟨⟨newVariable next ⟨none, parent, value.getD .null, ps, false⟩ :: s.entries,
    s.ids.observe next⟩, replay_create hahead value ps noWatch, ?_⟩
  refine ⟨List.forall_mem_cons.mpr ⟨rfl, h.bound⟩, h.ascending,
    .cons h.grown hnonzero (contains_eq_false_iff.mp hfree) hroot, fun k hk ↦ ?_,
    hspend.waiting, ?_⟩
  · rw [contains, get?_eq_findIn, findIn_cons] at hk
    split at hk
    · next hid =>
      rw [← hid, newVariable, ← hnext]
      exact (IdSource.vend_of_ascending h.ascending).2
    · exact hspend.fresh k hk
  · have hcons := changeAll_cons h.grown
      (v := newVariable next ⟨none, parent, value.getD .null, ps, false⟩)
      (contains_eq_false_iff.mp hfree)
      (fun m hm ↦ (h.waiting .medium m hm).changed?_ne (hnext ▸ Int.le_refl _)) hlater
      (s.ids.observe next)
    rw [Outbox.queue_of_immediate rfl, Outbox.send]
    exact (congrArg Store.outline hcons).trans (outline_cons h.outline rfl)

theorem Trails.flush (h : l.Trails s) (userEvent : Bool) :
    Trails { l with outbox := l.outbox.flush userEvent }
      (s.changeAll l.outbox.waiting.toList) := by
  have htier (t : Tier) : (l.outbox.flush userEvent).waiting.tier t = [] := by
    rw [Outbox.waiting_flush, TierQueue.tier_empty]
  refine ⟨h.bound, h.ascending, h.grown.changeAll _, ?_, fun t m hm ↦ ?_, ?_⟩
  · exact fun k hk ↦ h.fresh k (contains_of_contains_changeAll hk)
  · exact absurd hm (by simp [htier])
  · simp only [htier]
    exact h.outline_waiting

/-- Local creates, updates, destroys, watches and unwatches, and the passing of time. A create makes
a variable that is bound. -/
def Action.isOwn : Action → Prop
  | .create _ _ _ _ _ unbound => unbound = false
  | .apply _ => False
  | _ => True

theorem Trails.withTally (h : l.Trails s) (tally : WatchTally) :
    Trails ⟨l.store, tally, l.outbox⟩ s :=
  ⟨h.bound, h.ascending, h.grown, h.fresh, h.waiting, h.outline⟩

/-- A step to another frontend hands over messages that are accepted, and they lead to where the
trail goes on. -/
def Continues (l l' : LocalStore) (s : Store) : Prop :=
  ∃ ms s', l'.outbox.handed = l.outbox.handed ++ ms ∧ s.replay ms = .ok s' ∧ l'.Trails s'

/-- A step that hands nothing over. -/
theorem Trails.still {l' : LocalStore} (h : l'.Trails s)
    (hhanded : l'.outbox.handed = l.outbox.handed) : l.Continues l' s :=
  ⟨[], s, by rw [hhanded, List.append_nil], rfl, h⟩

theorem Trails.continues_report {m : Message} (h : l.Trails s) (hm : m.isImmediate = false)
    (hnext : ∀ k, m.changed? = some k → k < l.store.ids.next) (now : Nat) (tally : WatchTally) :
    l.Continues ⟨l.store.change m, tally, l.outbox.queue now m⟩ s :=
  (h.report hm hnext now tally).still (Outbox.queue_of_not_immediate hm l.outbox now).1

theorem Trails.continues_flush (h : l.Trails s) (userEvent : Bool) :
    l.Continues { l with outbox := l.outbox.flush userEvent } s :=
  ⟨_, _, Outbox.handed_flush l.outbox userEvent, h.replay_waiting, h.flush userEvent⟩

theorem Trails.continues_create (h : l.Trails s) (now : Nat) (parent : VarId)
    (value : Option Json) (ps : Properties) (o : Option Observer) :
    l.Continues (l.act (.create now parent value ps o false)) s := by
  cases hcheck : l.store.checkNew l.store.ids.next parent with
  | error e =>
    rw [act_create_of_error hcheck]
    exact h.spend.still rfl
  | ok _ =>
    rw [act_create_of_ok hcheck]
    obtain ⟨s', hreplay, htrails⟩ := h.create hcheck now value ps o.isNone
      (l.tally.join l.store.ids.next o)
    refine ⟨_, s', ?_, hreplay, htrails⟩
    exact (congrArg Outbox.handed (Outbox.queue_of_immediate rfl l.outbox now)).trans
      (Outbox.handed_send _ _)

theorem Trails.continues_update (h : l.Trails s) (now : Nat) (id : VarId) (value : Option Json)
    (ps : Properties) : l.Continues (l.act (.update now id value ps)) s := by
  cases hc : l.store.contains id with
  | false =>
    rw [act_update_of_not_contains hc]
    exact h.still rfl
  | true =>
    have hreport := h.continues_report (m := .update id value ps) rfl
      (fun k hk ↦ by rw [← Option.some_inj.mp hk]; exact h.lt_next hc) now l.tally
    rw [change_update, if_pos hc] at hreport
    rw [act_update_of_contains hc, h.isUnbound]
    exact hreport

theorem Trails.continues_watch (h : l.Trails s) (now : Nat) (id : VarId) (o : Observer) :
    l.Continues (l.act (.watch now id o)) s := by
  cases hc : l.store.contains id with
  | false =>
    rw [act_watch_of_not_contains hc]
    exact h.still rfl
  | true =>
    rw [act_watch_of_contains hc]
    split
    · exact h.continues_report (m := .watch id) rfl (by simp [Message.changed?]) now _
    · exact (h.withTally _).still rfl

theorem Trails.continues_unwatch (h : l.Trails s) (now : Nat) (id : VarId) (o : Observer) :
    l.Continues (l.act (.unwatch now id o)) s := by
  rw [act_unwatch]
  split
  · exact h.continues_report (m := .unwatch id) rfl (by simp [Message.changed?]) now _
  · exact (h.withTally _).still rfl

theorem Trails.continues_destroy (h : l.Trails s) (now : Nat) (id : VarId) :
    l.Continues (l.act (.destroy now id)) s := by
  rw [act_destroy, h.isUnbound]
  cases hc : l.store.contains id with
  | false =>
    rw [destroy_of_not_contains hc]
    exact (h.withTally _).still rfl
  | true =>
    exact h.continues_report (m := .destroy id) rfl
      (fun k hk ↦ by rw [← Option.some_inj.mp hk]; exact h.lt_next hc) now _

/-- **What an action hands over is accepted**, and leads to the variables of the frontend again. -/
theorem Trails.act (h : l.Trails s) {a : Action} (ha : a.isOwn) : l.Continues (l.act a) s := by
  cases a with
  | create now parent value ps o unbound =>
    subst ha
    exact h.continues_create now parent value ps o
  | update now id value ps => exact h.continues_update now id value ps
  | watch now id o => exact h.continues_watch now id o
  | unwatch now id o => exact h.continues_unwatch now id o
  | destroy now id => exact h.continues_destroy now id
  | apply b => exact ha.elim
  | poll now =>
    rw [act_poll]
    split
    · exact h.continues_flush false
    · exact h.still rfl
  | flushUserEvent => exact h.continues_flush true

theorem Trails.run {start : Store} {as : List Action}
    (hstart : start.replay l.outbox.handed = .ok s) (h : l.Trails s) (has : ∀ a ∈ as, a.isOwn) :
    ∃ s', start.replay (l.run as).outbox.handed = .ok s' ∧ (l.run as).Trails s' := by
  induction as generalizing l s with
  | nil => exact ⟨s, hstart, h⟩
  | cons a as ih =>
    rw [List.forall_mem_cons] at has
    obtain ⟨ms, s', hhanded, hreplay, htrails⟩ := h.act has.1
    refine ih ?_ htrails has.2
    rw [hhanded, replay_append hstart, hreplay]

private theorem trails_withBase (window : Nat) (base : VarId) (ids : IdSource) :
    (withBase window base).Trails (placeholder ids) := by
  have hentries (ids : IdSource) : (placeholder ids).entries = [.new rootId noParent] := rfl
  refine ⟨fun v hv ↦ ?_, ?_, ?_, fun k hk ↦ lt_next_withBase hk, fun t m hm ↦ ?_, rfl⟩
  · rw [List.mem_singleton.mp hv]
  · rw [ids_withBase, IdSource.frontendFrom]
  · rw [hentries]
    exact .cons .nil (by decide) rfl (.inl rfl)
  · exact absurd hm (by simp [withBase, Outbox.new])

/-- **The log of a frontend reproduces its variables**: replayed from the root alone, every create
is accepted, and the same variables come out with the same parents and values. -/
theorem replay_log (window : Nat) (base : VarId) (ids : IdSource) {as : List Action}
    (has : ∀ a ∈ as, a.isOwn) :
    ∃ s, (placeholder ids).replay ((withBase window base).run as).outbox.log = .ok s ∧
      ∀ id, (s.get? id).map (fun v ↦ (v.parent, v.value))
        = (((withBase window base).run as).get? id).map fun v ↦ (v.parent, v.value) := by
  obtain ⟨s, hreplay, h⟩ := (trails_withBase window base ids).run rfl has
  refine ⟨s.changeAll ((withBase window base).run as).outbox.waiting.toList, ?_, ?_⟩
  · rw [Outbox.log, replay_append hreplay, h.replay_waiting]
  · exact parent_value_eq_of_outline_eq h.outline_waiting

/-- A variable that is updated in two tiers, gets a child and is destroyed with it, before another
is created below the root and updated. -/
def overtaking : List Action := [
  .create 0 rootId none .empty none false,
  .update 1 2 (some (.string "old")) (KeyMap.empty.insert "path:low" "name"),
  .create 2 2 none .empty (some "a") false,
  .destroy 3 2,
  .create 4 rootId none .empty none false,
  .update 5 4 (some (.string "new")) (KeyMap.empty.insert "path:high" "name"),
  .poll 100,
  .unwatch 101 3 "a"]

/-- The log of that run has every create ahead of the destroy, and pieces of updates on both sides
of it. -/
theorem replay_log_overtaking : (∀ a ∈ overtaking, a.isOwn) ∧
    ((withBase 10 0).run overtaking).outbox.log.map (fun m ↦ (m.kind, m.id?))
      = [("create", some 2), ("create", some 3), ("create", some 4), ("update", some 4),
        ("update", some 2), ("destroy", some 2), ("update", some 4), ("update", some 2)] ∧
    ∃ s, (placeholder .backend).replay ((withBase 10 0).run overtaking).outbox.log = .ok s ∧
      ∀ id, (s.get? id).map (fun v ↦ (v.parent, v.value))
        = (((withBase 10 0).run overtaking).get? id).map fun v ↦ (v.parent, v.value) := by
  have hown : ∀ a ∈ overtaking, a.isOwn := by simp [overtaking, Action.isOwn]
  exact ⟨hown, by decide +kernel, replay_log 10 0 .backend hown⟩

end LocalStore

end ReactiveVars
