import Mathlib.Data.List.Chain
import ReactiveVars.Proofs.Frontend.Signals

/-!
# Subscriptions are forwarded once per edge

A *chronicle* is a frontend with the messages it has reported, in the order in which they were
reported, and with the signals about each variable since it entered the store. A variable that
leaves the store takes its signals with it, also within a batch that destroys a variable and brings
another in under the same number.

The signals about a variable are handed over in the order in which they were emitted, although a
create leaves at once and the others wait: a create comes under a number that no message before it
names, and all other signals wait in one tier.

## Main statement

* `subscriptions_alternate`: the signals about a bound variable alternate, and the last one tells
  whether the variable is watched; about an unbound variable there is none.
-/

namespace ReactiveVars

private theorem filterMap_toList {α β : Type} (o : Option α) (f : α → Option β) :
    o.toList.filterMap f = (o.bind f).toList := by
  cases o with
  | none => rfl
  | some a =>
    rw [Option.toList_some, List.filterMap_cons, Option.bind_some]
    cases f a <;> rfl

namespace LocalStore

/-- Signals that alternate, the first of which is to begin. -/
def Alternates (signals : List Bool) : Prop := (false :: signals).IsChain (· ≠ ·)

private theorem Alternates.append {signals : List Bool} (h : Alternates signals) {b : Bool}
    (hb : signals.getLast?.getD false ≠ b) : Alternates (signals ++ [b]) := by
  rw [Alternates, ← List.cons_append, List.isChain_append]
  refine ⟨h, List.isChain_singleton b, ?_⟩
  rw [List.getLast?_cons]
  simpa using hb

/-- A frontend with what has been reported so far, and the signals about each variable since it
entered the store. -/
structure Chronicle where
  frontend : LocalStore
  /-- The messages reported, the oldest first. -/
  emitted : List Message
  /-- The signals about a variable since it entered the store, none if it is not there. -/
  signals : VarId → List Bool

namespace Chronicle

/-- Follows a step to another frontend that emits signals. -/
def follow (c : Chronicle) (l : LocalStore) (e : VarId → Option Bool) (id : VarId) : List Bool :=
  if l.store.contains id then c.signals id ++ (e id).toList else []

/-- Takes a message from the backend. -/
def take (c : Chronicle) (m : Message) : Chronicle :=
  ⟨(c.frontend.applyMessage m).2, c.emitted, c.follow (c.frontend.applyMessage m).2 fun _ ↦ none⟩

/-- Takes an action; a batch is taken message by message. -/
def act (c : Chronicle) : Action → Chronicle
  | .apply b => b.ordered.foldl take c
  | a => ⟨c.frontend.act a, c.emitted ++ (a.report? c.frontend).toList,
    c.follow (c.frontend.act a) fun id ↦ (a.report? c.frontend).bind (Message.signal? id)⟩

/-- Takes actions in order, from the root alone on. -/
def run (window : Nat) (base : VarId) (as : List Action) : Chronicle :=
  as.foldl act ⟨withBase window base, [], fun _ ↦ []⟩

variable {c : Chronicle} {id : VarId}

theorem frontend_act (c : Chronicle) (a : Action) :
    (c.act a).frontend = c.frontend.act a := by
  cases a with
  | apply b =>
    have htake (c : Chronicle) (m : Message) :
        (c.frontend.applyMessage m).2 = (c.take m).frontend := rfl
    rw [act_apply]
    exact (List.foldl_hom frontend htake).symm
  | _ => rfl

theorem frontend_run (window : Nat) (base : VarId) (as : List Action) :
    (run window base as).frontend = (withBase window base).run as :=
  (List.foldl_hom frontend fun c a ↦ (frontend_act c a).symm).symm

/-! ## The signals about one variable

An effect either adds a signal, which differs from the last one, or none. A variable that leaves the
store begins anew, and then what has been emitted about it is longer than what counts. -/

/-- The signals about a variable tell whether it is watched. -/
structure Subscribed (c : Chronicle) (id : VarId) : Prop where
  absent : c.frontend.store.kind? id = none → c.signals id = []
  unbound : c.frontend.store.kind? id = some true → c.signals id = []
  alternates : c.frontend.store.kind? id = some false → Alternates (c.signals id)
  watched : c.frontend.store.kind? id = some false →
    (c.signals id).getLast?.getD false = c.frontend.tally.hasWatcher id
  suffix : c.signals id <:+ c.emitted.filterMap (Message.signal? id)

theorem Subscribed.follow (h : c.Subscribed id) (htidy : c.frontend.Tidy) {l : LocalStore}
    {e : VarId → Option Bool} (heffect : Effect c.frontend l id (e id)) {ms : List Message}
    (hms : ms.filterMap (Message.signal? id) = (e id).toList) :
    Subscribed ⟨l, c.emitted ++ ms, c.follow l e⟩ id := by
  have hstays {u : Bool} (hu : l.store.kind? id = some u) :
      c.follow l e id = c.signals id ++ (e id).toList := by
    rw [Chronicle.follow, Store.contains_eq_isSome_kind?, hu]
    exact if_pos rfl
  have hbound (hl : l.store.kind? id = some false) : Alternates (c.signals id) ∧
      (c.signals id).getLast?.getD false = c.frontend.tally.hasWatcher id := by
    cases hc : c.frontend.store.kind? id with
    | none =>
      -- the variable has just entered, and nobody watched it before
      rw [h.absent hc, htidy.hasWatcher_eq_false hc]
      exact ⟨List.isChain_singleton false, rfl⟩
    | some u =>
      rw [← heffect.kept u false hc hl] at hc
      exact ⟨h.alternates hc, h.watched hc⟩
  have hfollowed (hl : l.store.kind? id = some false) : Alternates (c.follow l e id) ∧
      (c.follow l e id).getLast?.getD false = l.tally.hasWatcher id := by
    obtain ⟨halternates, hwatched⟩ := hbound hl
    rw [hstays hl, heffect.edge hl]
    split
    · next hsame =>
      rw [Option.toList_none, List.append_nil, hsame]
      exact ⟨halternates, hwatched⟩
    · next hedge =>
      rw [← hwatched] at hedge
      exact ⟨halternates.append (Ne.symm hedge), by simp⟩
  refine ⟨fun hl ↦ if_neg ?_, fun hl ↦ (hstays hl).trans ?_, fun hl ↦ (hfollowed hl).1,
    fun hl ↦ (hfollowed hl).2, ?_⟩
  · rw [Store.contains_eq_isSome_kind?, hl]
    simp
  · rw [heffect.silent hl, Option.toList_none, List.append_nil]
    cases hc : c.frontend.store.kind? id with
    | none => exact h.absent hc
    | some u =>
      rw [← heffect.kept u true hc hl] at hc
      exact h.unbound hc
  · simp only [Chronicle.follow, List.filterMap_append, hms]
    split
    · obtain ⟨before, hbefore⟩ := h.suffix
      exact ⟨before, by rw [← hbefore, List.append_assoc]⟩
    · exact List.nil_suffix

end Chronicle

end LocalStore

/-! ## The order in which signals are handed over

That the signals wait in a single tier keeps their order among each other. A create overtakes them,
but all that wait are about earlier numbers. -/

namespace Outbox

variable {o o' : Outbox} {next next' id : VarId} {m : Message}

/-- The signals about a variable in the order in which they leave. -/
def signals (o : Outbox) (id : VarId) : List Bool := o.log.filterMap (Message.signal? id)

/-- The signals that wait do so in the medium tier, and are about variables with earlier numbers. -/
def Orderly (o : Outbox) (next : VarId) : Prop :=
  ∀ t, ∀ m ∈ o.waiting.tier t, ∀ id b, m.signal? id = some b → t = .medium ∧ id < next

theorem Orderly.mono (h : o.Orderly next) (hle : next ≤ next') : o.Orderly next' :=
  fun t m hm id b hb ↦ (h t m hm id b hb).imp_right fun hlt ↦ Int.lt_of_lt_of_le hlt hle

theorem Orderly.signals_eq (h : o.Orderly next) (id : VarId) :
    o.signals id = o.handed.filterMap (Message.signal? id)
      ++ (o.waiting.tier .medium).filterMap (Message.signal? id) := by
  have hnone {t : Tier} (ht : t ≠ .medium) :
      (o.waiting.tier t).filterMap (Message.signal? id) = [] := by
    refine List.filterMap_eq_nil_iff.mpr fun m hm ↦ ?_
    cases hb : m.signal? id with
    | none => rfl
    | some b => exact absurd (h t m hm id b hb).1 ht
  have htiers : o.waiting.toList
      = o.waiting.tier .high ++ o.waiting.tier .medium ++ o.waiting.tier .low := rfl
  rw [signals, log, htiers, List.filterMap_append, List.filterMap_append, List.filterMap_append,
    hnone (t := .high) (by simp), hnone (t := .low) (by simp), List.nil_append, List.append_nil]

private theorem signals_pieces (hm : m.isImmediate = false) (id : VarId) (t : Tier) :
    (Batch.inTier m.pieces t).filterMap (Message.signal? id)
      = if t = .medium then (m.signal? id).toList else [] := by
  have hsingle {m : Message} (hm : m.pieces = [(.medium, m)]) :
      (Batch.inTier m.pieces t).filterMap (Message.signal? id)
        = if t = .medium then (m.signal? id).toList else [] := by
    rw [hm, Batch.inTier_singleton]
    by_cases ht : t = .medium
    · rw [if_pos ht.symm, if_pos ht]
      exact filterMap_toList (some m) _
    · rw [if_neg (Ne.symm ht), if_neg ht, List.filterMap_nil]
  cases m with
  | create => exact absurd hm (by simp [Message.isImmediate])
  | update k value ps =>
    have hnone : (Batch.inTier (Message.update k value ps).pieces t).filterMap
        (Message.signal? id) = [] := by
      rcases Message.inTier_pieces_update k value ps t with ⟨part, hin⟩ | ⟨hin, -⟩
      · rw [hin]
        rfl
      · rw [hin]
        rfl
    rw [hnone]
    split <;> rfl
  | _ => exact hsingle rfl

theorem Orderly.queue_of_not_immediate (h : o.Orderly next) (hm : m.isImmediate = false)
    (hnext : ∀ id b, m.signal? id = some b → id < next) (now : Nat) :
    (o.queue now m).Orderly next ∧
      ∀ id, (o.queue now m).signals id = o.signals id ++ (m.signal? id).toList := by
  obtain ⟨hhanded, htier⟩ := Outbox.queue_of_not_immediate hm o now
  have horderly : (o.queue now m).Orderly next := by
    intro t piece hpiece id b hb
    rw [htier, List.mem_append] at hpiece
    rcases hpiece with hold | hnew
    · exact h t piece hold id b hb
    · have hmem := List.mem_filterMap.mpr ⟨piece, hnew, hb⟩
      rw [signals_pieces hm] at hmem
      split at hmem
      · next ht => exact ⟨ht, hnext id b (Option.mem_toList.mp hmem)⟩
      · exact absurd hmem (by simp)
  refine ⟨horderly, fun id ↦ ?_⟩
  rw [horderly.signals_eq, h.signals_eq, hhanded, htier, List.filterMap_append,
    signals_pieces hm, if_pos rfl, List.append_assoc]

theorem Orderly.queue_of_immediate (h : o.Orderly next) (hm : m.isImmediate = true)
    (hnext : ∀ id b, m.signal? id = some b → id = next) (now : Nat) :
    (o.queue now m).Orderly next ∧
      ∀ id, (o.queue now m).signals id = o.signals id ++ (m.signal? id).toList := by
  rw [Outbox.queue_of_immediate hm]
  have horderly : (o.send ⟨false, [m]⟩).Orderly next := h
  have hwaiting : (o.send ⟨false, [m]⟩).waiting = o.waiting := rfl
  refine ⟨horderly, fun id ↦ ?_⟩
  rw [horderly.signals_eq, h.signals_eq, handed_send, hwaiting, List.filterMap_append,
    List.append_assoc, List.append_assoc]
  refine congrArg _ ?_
  cases hb : m.signal? id with
  | none => simp [hb]
  | some b =>
    -- nothing waits that is about the new variable
    have hnone : (o.waiting.tier .medium).filterMap (Message.signal? id) = [] := by
      refine List.filterMap_eq_nil_iff.mpr fun m' hm' ↦ ?_
      cases hb' : m'.signal? id with
      | none => rfl
      | some b' =>
        have hlt := (h .medium m' hm' id b' hb').2
        rw [hnext id b hb] at hlt
        exact absurd hlt (Int.lt_irrefl next)
    rw [hnone]
    simp [hb]

theorem Orderly.flush (o : Outbox) (userEvent : Bool) (next : VarId) :
    (o.flush userEvent).Orderly next := by
  intro t m hm
  rw [waiting_flush, TierQueue.tier_empty] at hm
  exact absurd hm (by simp)

end Outbox

namespace LocalStore

namespace Chronicle

variable {c : Chronicle}

/-- Tidy, with signals about each variable that tell whether it is watched and that leave in the
order in which they were emitted. -/
structure Sound (c : Chronicle) : Prop where
  tidy : c.frontend.Tidy
  subscribed : ∀ id, c.Subscribed id
  orderly : c.frontend.outbox.Orderly c.frontend.store.ids.next
  signals : ∀ id, c.frontend.outbox.signals id = c.emitted.filterMap (Message.signal? id)

theorem Sound.take (h : c.Sound) (m : Message) : (c.take m).Sound := by
  have hstep := h.tidy.applyMessage m
  have houtbox : (c.take m).frontend.outbox = c.frontend.outbox := outbox_applyMessage _ _
  refine ⟨hstep.tidy, fun id ↦ ?_, ?_, ?_⟩
  · have hsilent : ([] : List Message).filterMap (Message.signal? id) = Option.toList none := rfl
    have hsubscribed := (h.subscribed id).follow h.tidy (e := fun _ ↦ none) (hstep.effect id)
      hsilent
    rwa [List.append_nil] at hsubscribed
  · rw [houtbox]
    exact h.orderly.mono hstep.next_le
  · rw [houtbox]
    exact h.signals

theorem Sound.outbox_act (h : c.Sound) (a : Action) :
    (c.frontend.act a).outbox.Orderly c.frontend.store.ids.next ∧
      ∀ id, (c.frontend.act a).outbox.signals id
        = c.frontend.outbox.signals id
          ++ ((a.report? c.frontend).bind (Message.signal? id)).toList := by
  have htakes := LocalStore.outbox_act c.frontend a
  cases hm : a.report? c.frontend with
  | some m =>
    rw [hm] at htakes
    obtain ⟨now, hqueue⟩ := htakes
    rw [hqueue]
    have hsignal {id : VarId} {b : Bool} (hb : m.signal? id = some b) :=
      h.tidy.signal_of_report? hm hb
    cases himmediate : m.isImmediate with
    | true =>
      refine h.orderly.queue_of_immediate himmediate (fun id b hb ↦ ?_) now
      simpa only [himmediate, if_true] using hsignal hb
    | false =>
      refine h.orderly.queue_of_not_immediate himmediate (fun id b hb ↦ ?_) now
      simpa only [himmediate, Bool.false_eq_true, if_false] using hsignal hb
  | none =>
    rw [hm] at htakes
    rcases htakes with hsame | ⟨userEvent, hflush⟩
    · rw [hsame]
      exact ⟨h.orderly, fun _ ↦ (List.append_nil _).symm⟩
    · rw [hflush]
      refine ⟨Outbox.Orderly.flush _ _ _, fun id ↦ ?_⟩
      rw [Outbox.signals, Outbox.log_flush]
      exact (List.append_nil _).symm

theorem Sound.act (h : c.Sound) (a : Action) : (c.act a).Sound := by
  by_cases ha : ∃ b, a = .apply b
  · obtain ⟨b, rfl⟩ := ha
    rw [Chronicle.act]
    generalize b.ordered = ms
    induction ms generalizing c with
    | nil => exact h
    | cons m ms ih => exact ih (h.take m)
  · have hstep := h.tidy.act fun b hb ↦ ha ⟨b, hb⟩
    obtain ⟨horderly, hsignals⟩ := h.outbox_act a
    have hsound : Sound ⟨c.frontend.act a, c.emitted ++ (a.report? c.frontend).toList,
        c.follow (c.frontend.act a) fun id ↦
          (a.report? c.frontend).bind (Message.signal? id)⟩ := by
      refine ⟨hstep.tidy, fun id ↦ (h.subscribed id).follow h.tidy (hstep.effect id)
        (filterMap_toList _ _), horderly.mono hstep.next_le, fun id ↦ ?_⟩
      rw [hsignals, h.signals, List.filterMap_append, filterMap_toList]
    cases a with
    | apply b => exact absurd ⟨b, rfl⟩ ha
    | _ => exact hsound

theorem sound_run (window : Nat) (base : VarId) (as : List Action) :
    (run window base as).Sound := by
  have hstart : Sound ⟨withBase window base, [], fun _ ↦ []⟩ := by
    refine ⟨⟨fun id hid ↦ ?_, ?_, fun _ hk ↦ lt_next_withBase hk⟩, fun id ↦ ?_, fun t m hm ↦ ?_,
      fun _ ↦ rfl⟩
    · exact absurd hid Bool.false_ne_true
    · rw [ids_withBase, IdSource.frontendFrom]
    · exact ⟨fun _ ↦ rfl, fun _ ↦ rfl, fun _ ↦ List.isChain_singleton false, fun _ ↦ rfl,
        List.nil_suffix⟩
    · exact absurd hm (by simp [withBase, Outbox.new])
  rw [run]
  generalize (⟨withBase window base, [], fun _ ↦ []⟩ : Chronicle) = c at hstart
  induction as generalizing c with
  | nil => exact hstart
  | cons a as ih => exact ih (c.act a) (hstart.act a)

end Chronicle

/-- **Subscriptions are forwarded once per edge.** The signals about a bound variable since it
entered the store alternate, beginning with one to watch it, and it has a watcher exactly if the
last one is to watch it; about an unbound variable there is none. All signals about a variable are
handed over, or wait to be, in the order in which they were emitted. -/
theorem subscriptions_alternate (window : Nat) (base : VarId) (as : List Action) (id : VarId) :
    (((withBase window base).run as).store.contains id = true →
      ((withBase window base).run as).isUnbound id = false →
      Alternates ((Chronicle.run window base as).signals id) ∧
        (((withBase window base).run as).watcherCount id ≠ 0 ↔
          ((Chronicle.run window base as).signals id).getLast? = some true)) ∧
    (((withBase window base).run as).isUnbound id = true →
      (Chronicle.run window base as).signals id = []) ∧
    (Chronicle.run window base as).signals id
      <:+ (Chronicle.run window base as).emitted.filterMap (Message.signal? id) ∧
    ((withBase window base).run as).outbox.log.filterMap (Message.signal? id)
      = (Chronicle.run window base as).emitted.filterMap (Message.signal? id) := by
  have hsound := Chronicle.sound_run window base as
  have hsubscribed := hsound.subscribed id
  rw [← Chronicle.frontend_run]
  generalize Chronicle.run window base as = c at *
  refine ⟨fun hc hbound ↦ ?_, fun hunbound ↦ ?_, hsubscribed.suffix, hsound.signals id⟩
  · have hkind := kind?_eq_some_false_iff.mpr ⟨hc, hbound⟩
    have hlast : (c.signals id).getLast? = some true
        ↔ (c.signals id).getLast?.getD false = true := by
      cases (c.signals id).getLast? <;> simp
    rw [hlast, hsubscribed.watched hkind]
    exact ⟨hsubscribed.alternates hkind, bne_iff_ne.symm⟩
  · exact hsubscribed.unbound (kind?_eq_some_true_iff.mpr hunbound)

/-- Watchers that come and go while the backend brings in a variable, destroys it and brings it in
again. -/
def comingAndGoing : List Action := [
  .create 0 rootId none .empty (some "a") false,
  .unwatch 1 2 "a",
  .apply ⟨false, [.create rootId none .empty (some 7) false false]⟩,
  .watch 2 7 "a",
  .watch 3 7 "b",
  .watch 4 2 "b",
  .apply ⟨false, [.destroy 7, .create rootId none .empty (some 7) false false]⟩,
  .poll 100,
  .watch 101 7 "b",
  .unwatch 102 7 "b",
  .create 103 7 none .empty (some "a") true]

/-- The second variable is watched again, the seventh is as new, and the eighth is unbound. -/
theorem subscriptions_alternate_comingAndGoing :
    (Chronicle.run 10 0 comingAndGoing).signals 2 = [true, false, true] ∧
    (Chronicle.run 10 0 comingAndGoing).signals 7 = [true, false] ∧
    ((withBase 10 0).run comingAndGoing).outbox.log.filterMap (Message.signal? 7)
      = [true, true, false] ∧
    ((withBase 10 0).run comingAndGoing).watcherCount 2 ≠ 0 ∧
    (Chronicle.run 10 0 comingAndGoing).signals 8 = [] := by
  have h := subscriptions_alternate 10 0 comingAndGoing
  refine ⟨by decide +kernel, by decide +kernel, by decide +kernel, ?_, ?_⟩
  · exact ((h 2).1 (by decide +kernel) (by decide +kernel)).2.mpr (by decide +kernel)
  · exact (h 8).2.1 (by decide +kernel)

end LocalStore

end ReactiveVars
