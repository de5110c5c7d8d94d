import ReactiveVars.Proofs.Frontend.Actions
import ReactiveVars.Proofs.Wire.Orderings

/-!
# The outbox and the order of the receiver

An outbox takes messages apart as they are queued, and fills its tiers piece by piece. The receiver
of a batch takes whole messages apart and sorts the pieces by tier. The two agree on every batch:
what an outbox sends is what the receiver would make of the whole messages queued since the outbox
was last flushed.

`Holds` relates an outbox to these messages. It is the one invariant of calls at any times, and
tells both what waits and when it leaves. `Accounts` goes on to the messages that have left: each of
them is in just one group, and a group has left as one batch.

## Main statement

* `Outbox.run_batches_exact`: when an outbox sends, and what.
-/

namespace ReactiveVars

namespace Outbox

/-! ## What is done with an outbox -/

/-- Something that is done with an outbox. -/
inductive Call where
  | queue (now : Nat) (m : Message)
  | poll (now : Nat)
  | flush (userEvent : Bool)

/-- The outbox after a call. -/
def call (o : Outbox) : Call → Outbox
  | .queue now m => o.queue now m
  | .poll now => (o.poll now).2
  | .flush userEvent => o.flush userEvent

/-- An outbox after calls in order. -/
def run (window : Nat) (cs : List Call) : Outbox := cs.foldl call (new window)

/-- Whether a call flushes an outbox; a poll tells. -/
def flushes (o : Outbox) : Call → Bool
  | .queue .. => false
  | .poll now => (o.poll now).1
  | .flush _ => true

/-- The message that a call queues. -/
def Call.queued? : Call → Option Message
  | .queue _ m => some m
  | _ => none

/-- The message that a call queues to wait, with the time of the call. -/
def Call.kept? : Call → Option (Nat × Message)
  | .queue now m => if m.isImmediate then none else some (now, m)
  | _ => none

/-- The messages that have to wait among those queued since the last flush, after one more call. -/
def keptAfter (o : Outbox) (kept : List (Nat × Message)) (c : Call) : List (Nat × Message) :=
  if o.flushes c then [] else kept ++ c.kept?.toList

/-- The messages that have to wait among those queued since the last flush, after more calls. -/
def keptThrough (o : Outbox) (kept : List (Nat × Message)) : List Call → List (Nat × Message)
  | [] => kept
  | c :: cs => (o.call c).keptThrough (o.keptAfter kept c) cs

/-- The messages that have to wait among those queued since the last flush of a run, in the order in
which they were queued and with the times. -/
def kept (window : Nat) (cs : List Call) : List (Nat × Message) := (new window).keptThrough [] cs

variable {o o' : Outbox} {ms ms' : List (Nat × Message)} {queued : List Message}
  {groups : List Batch} {q : Option Message} {m : Message} {d : Nat}

private theorem filterMap_cons_toList {α β : Type} (f : α → Option β) (a : α) (as : List α) :
    (a :: as).filterMap f = (f a).toList ++ as.filterMap f := by
  cases h : f a <;> simp [h]

private theorem keptThrough_isSuffix (o : Outbox) (ms : List (Nat × Message)) (cs : List Call) :
    o.keptThrough ms cs <:+ ms ++ cs.filterMap Call.kept? := by
  induction cs generalizing o ms with
  | nil => simp [keptThrough]
  | cons c cs ih =>
    have hafter : o.keptAfter ms c <:+ ms ++ c.kept?.toList := by
      rw [keptAfter]
      split
      · exact List.nil_suffix
      · exact List.suffix_rfl
    obtain ⟨flushed, hflushed⟩ := hafter
    rw [keptThrough, filterMap_cons_toList, ← List.append_assoc, ← hflushed, List.append_assoc]
    exact (ih _ _).trans (List.suffix_append _ _)

/-! ## Calls one by one

Whatever is called, the outbox takes in a message, or sends all that waits, or does nothing.
`Effect` lists these outcomes with what each leaves, so that an invariant has one case for each of
them. -/

theorem poll_of_deadline (h : o.deadline = some d) (now : Nat) :
    o.poll now = if d ≤ now then (true, o.flush false) else (false, o) := by
  rw [poll, isDue, h]
  simp only [decide_eq_true_eq]

theorem poll_of_idle (h : o.deadline = none) (now : Nat) : o.poll now = (false, o) := by
  rw [poll, isDue, h]
  rfl

theorem flush_eq (o : Outbox) (userEvent : Bool) : o.flush userEvent = { o with
    waiting := .empty
    deadline := none
    sent := o.sent ++ if o.pending = 0 then [] else [⟨userEvent, o.waiting.toList⟩] } := by
  rw [flush, pending]
  by_cases hempty : o.waiting = .empty
  · rw [if_pos (TierQueue.isEmpty_iff.mpr hempty), if_pos (TierQueue.size_eq_zero_iff.mpr hempty),
      List.append_nil, hempty]
  · rw [if_neg (hempty ∘ TierQueue.isEmpty_iff.mp), if_neg (hempty ∘ TierQueue.size_eq_zero_iff.mp)]
    rfl

/-- What a call may do to an outbox and to the messages that have to wait in it, and which message
it queues. -/
inductive Effect (o : Outbox) (ms : List (Nat × Message)) :
    Outbox → List (Nat × Message) → Option Message → Prop
  | create {m : Message} (hm : m.isImmediate = true) :
    Effect o ms (o.send ⟨false, [m]⟩) ms (some m)
  | wait {m : Message} (hm : m.isImmediate = false) (now : Nat) :
    Effect o ms { o with
      waiting := o.waiting.pushAll m.pieces, deadline := some (now + o.window) }
      (ms ++ [(now, m)]) (some m)
  | flush (userEvent : Bool) : Effect o ms (o.flush userEvent) [] none
  | idle : Effect o ms o ms none

theorem effect_call (o : Outbox) (ms : List (Nat × Message)) (c : Call) :
    Effect o ms (o.call c) (o.keptAfter ms c) c.queued? := by
  cases c with
  | queue now m =>
    rw [keptAfter, flushes, if_neg Bool.false_ne_true, call, Call.queued?, Call.kept?]
    cases hm : m.isImmediate with
    | true =>
      rw [if_pos rfl, Option.toList_none, List.append_nil, queue_of_immediate hm]
      exact .create hm
    | false =>
      rw [if_neg Bool.false_ne_true, Option.toList_some, queue_eq_of_not_immediate hm]
      exact .wait hm now
  | poll now =>
    simp only [keptAfter, flushes, call, Call.queued?, Call.kept?, Option.toList_none,
      List.append_nil, poll]
    cases o.isDue now with
    | true => exact .flush false
    | false => exact .idle
  | flush userEvent => exact .flush userEvent

/-! ## What waits -/

/-- The pieces of some messages wait, and the deadline is the window behind the last of these. -/
structure Holds (o : Outbox) (ms : List (Nat × Message)) : Prop where
  tier_eq : ∀ t, o.waiting.tier t = Batch.inTier (ms.flatMap fun e ↦ e.2.pieces) t
  deadline_eq : o.deadline = ms.getLast?.map fun e ↦ e.1 + o.window

theorem holds_new (window : Nat) : (new window).Holds [] :=
  ⟨TierQueue.tier_empty, rfl⟩

theorem holds_flush (o : Outbox) (userEvent : Bool) : (o.flush userEvent).Holds [] := by
  rw [flush_eq]
  exact ⟨TierQueue.tier_empty, rfl⟩

/-- What waits is in the order in which the receiver would deal with the whole messages. -/
theorem Holds.toList_eq (h : o.Holds ms) (userEvent : Bool) :
    o.waiting.toList = Batch.ordered ⟨userEvent, ms.map Prod.snd⟩ := by
  rw [TierQueue.toList_eq, Batch.ordered, List.flatMap_map, funext h.tier_eq]

theorem Holds.pending_eq_zero_iff (h : o.Holds ms) : o.pending = 0 ↔ ms = [] := by
  rw [pending, TierQueue.size_eq_zero_iff, ← TierQueue.toList_eq_nil_iff, h.toList_eq false,
    Batch.ordered_eq_nil_iff, List.map_eq_nil_iff]

theorem Holds.effect (h : o.Holds ms) (he : Effect o ms o' ms' q) : o'.Holds ms' := by
  cases he with
  | create hm => exact ⟨h.tier_eq, h.deadline_eq⟩
  | wait hm now =>
    refine ⟨fun t ↦ ?_, ?_⟩
    · rw [TierQueue.tier_pushAll, h.tier_eq, List.flatMap_append, List.flatMap_singleton,
        Batch.inTier_append]
    · rw [List.getLast?_concat]
      rfl
  | flush userEvent => exact o.holds_flush userEvent
  | idle => exact h

theorem Holds.foldl_call (h : o.Holds ms) (cs : List Call) :
    (cs.foldl Outbox.call o).Holds (o.keptThrough ms cs) := by
  induction cs generalizing o ms with
  | nil => exact h
  | cons c cs ih => exact ih (h.effect (o.effect_call ms c))

/-! ## What has left

The messages of the groups, together with those that wait, are all that were queued, so none is in
two groups. A create is a group of its own. -/

/-- Every message that was queued is in just one group or waits, and each group has left as one
batch. -/
structure Accounts (o : Outbox) (queued : List Message) (ms : List (Nat × Message))
    (groups : List Batch) : Prop where
  sent_eq : o.sent = groups.map fun g ↦ ⟨g.userEvent, g.ordered⟩
  perm : (groups.flatMap Batch.messages ++ ms.map Prod.snd).Perm queued

theorem Accounts.effect (h : o.Accounts queued ms groups) (hms : o.Holds ms)
    (he : Effect o ms o' ms' q) : ∃ groups', o'.Accounts (queued ++ q.toList) ms' groups' := by
  cases he with
  | @create m hm =>
    -- a create leaves ahead of what waits, so only the order changes
    have hahead : ((groups.flatMap Batch.messages ++ [m]) ++ ms.map Prod.snd).Perm
        ((groups.flatMap Batch.messages ++ ms.map Prod.snd) ++ [m]) := by
      rw [List.append_assoc, List.append_assoc]
      exact List.perm_append_comm.append_left _
    refine ⟨groups ++ [⟨false, [m]⟩], ?_, ?_⟩
    · rw [send, h.sent_eq, List.map_append, List.map_singleton, Batch.ordered_of_immediate hm]
    · rw [List.flatMap_append, List.flatMap_singleton]
      exact hahead.trans (h.perm.append_right [m])
  | @wait m hm now =>
    refine ⟨groups, h.sent_eq, ?_⟩
    rw [List.map_append, ← List.append_assoc]
    exact h.perm.append_right [m]
  | flush userEvent =>
    refine ⟨groups ++ if ms = [] then [] else [⟨userEvent, ms.map Prod.snd⟩], ?_, ?_⟩
    · rw [flush_eq, h.sent_eq, hms.toList_eq userEvent]
      by_cases hempty : ms = [] <;> simp [hms.pending_eq_zero_iff, hempty]
    · by_cases hempty : ms = [] <;> simpa [hempty] using h.perm
  | idle => exact ⟨groups, by rwa [Option.toList_none, List.append_nil]⟩

theorem Accounts.foldl_call (h : o.Accounts queued ms groups) (hms : o.Holds ms)
    (cs : List Call) : ∃ groups', (cs.foldl Outbox.call o).Accounts
      (queued ++ cs.filterMap Call.queued?) (o.keptThrough ms cs) groups' := by
  induction cs generalizing o queued ms groups with
  | nil => exact ⟨groups, by rwa [List.filterMap_nil, List.append_nil]⟩
  | cons c cs ih =>
    have heffect := o.effect_call ms c
    obtain ⟨groups', h'⟩ := h.effect hms heffect
    rw [filterMap_cons_toList, ← List.append_assoc]
    exact ih h' (hms.effect heffect)

/-- The pieces of all messages have been sent or wait. -/
theorem Accounts.perm_pieces (h : o.Accounts queued ms groups) (hms : o.Holds ms) :
    (o.sent.flatMap Batch.messages ++ o.waiting.toList).Perm
      (queued.flatMap fun m ↦ m.pieces.map Prod.snd) := by
  have hsent : (o.sent.flatMap Batch.messages).Perm
      ((groups.flatMap Batch.messages).flatMap fun m ↦ m.pieces.map Prod.snd) := by
    rw [h.sent_eq, List.flatMap_map, List.flatMap_assoc]
    exact List.Perm.flatMap_left _ fun g _ ↦ g.ordered_perm
  have hwaiting : o.waiting.toList.Perm
      ((ms.map Prod.snd).flatMap fun m ↦ m.pieces.map Prod.snd) := by
    rw [hms.toList_eq false]
    exact Batch.ordered_perm _
  have hall := hsent.append hwaiting
  rw [← List.flatMap_append] at hall
  exact hall.trans (h.perm.flatMap_right _)

/-! ## Whole runs -/

private theorem Effect.window_eq (he : Effect o ms o' ms' q) : o'.window = o.window := by
  cases he with
  | flush userEvent => rw [flush_eq]
  | _ => rfl

theorem window_run (window : Nat) (cs : List Call) : (run window cs).window = window := by
  have hfoldl (o : Outbox) : (cs.foldl call o).window = o.window := by
    induction cs generalizing o with
    | nil => rfl
    | cons c cs ih => rw [List.foldl_cons, ih, (o.effect_call [] c).window_eq]
  exact hfoldl (new window)

private theorem Effect.sent_isPrefix (he : Effect o ms o' ms' q) : o.sent <+: o'.sent := by
  cases he with
  | create hm => exact List.prefix_append _ _
  | flush userEvent =>
    rw [flush_eq]
    exact List.prefix_append _ _
  | _ => exact List.prefix_rfl

private theorem sent_foldl_call (o : Outbox) (cs : List Call) :
    o.sent <+: (cs.foldl call o).sent := by
  induction cs generalizing o with
  | nil => exact List.prefix_rfl
  | cons c cs ih => exact (o.effect_call [] c).sent_isPrefix.trans (ih _)

theorem holds_run (window : Nat) (cs : List Call) : (run window cs).Holds (kept window cs) :=
  (holds_new window).foldl_call cs

theorem accounts_run (window : Nat) (cs : List Call) : ∃ groups,
    (run window cs).Accounts (cs.filterMap Call.queued?) (kept window cs) groups := by
  have hnew : (new window).Accounts [] [] [] := ⟨rfl, List.Perm.refl _⟩
  exact hnew.foldl_call (holds_new window) cs

/-- **An outbox sends what the receiver would make of whole messages, and strands nothing.** After
any calls at any times: a deadline is set just if something waits, and is the window behind the
latest message that had to wait; a poll flushes just if the deadline has been reached; a create is
sent at once and alone, and of any other message all pieces wait; a flush sends what waits, if
anything does, as one batch, in the order of the receiver on the messages that had to wait since the
last flush. Of every message that was queued, all pieces have been sent once in one batch or all
wait, and a flush leaves none of them behind. -/
theorem run_batches_exact (window : Nat) (cs : List Call) :
    ((run window cs).deadline.isSome = true ↔ (run window cs).pending ≠ 0) ∧
    (∀ d, (run window cs).deadline = some d →
      ∃ e, (cs.filterMap Call.kept?).getLast? = some e ∧ d = e.1 + window) ∧
    (∀ d now, (run window cs).deadline = some d → (run window cs).poll now
      = if d ≤ now then (true, (run window cs).flush false) else (false, run window cs)) ∧
    (∀ now, (run window cs).deadline = none → (run window cs).poll now = (false, run window cs)) ∧
    (∀ now parent value ps id noWatch unbound,
      (run window cs).queue now (.create parent value ps id noWatch unbound)
        = (run window cs).send ⟨false, [.create parent value ps id noWatch unbound]⟩) ∧
    (∀ now m, (∀ parent value ps id noWatch unbound,
        m ≠ .create parent value ps id noWatch unbound) →
      (run window cs).queue now m = { run window cs with
        waiting := (run window cs).waiting.pushAll m.pieces, deadline := some (now + window) }) ∧
    (∀ userEvent, ((run window cs).flush userEvent).pending = 0 ∧
      ((run window cs).flush userEvent).sent = (run window cs).sent ++
        (if (run window cs).pending = 0 then []
        else [⟨userEvent, Batch.ordered ⟨userEvent, (kept window cs).map Prod.snd⟩⟩]) ∧
      (((run window cs).flush userEvent).sent.flatMap Batch.messages).Perm
        ((cs.filterMap Call.queued?).flatMap fun m ↦ m.pieces.map Prod.snd)) ∧
    (∀ more, (run window cs).sent <+: (run window (cs ++ more)).sent) ∧
    ((run window cs).sent.flatMap Batch.messages ++ (run window cs).waiting.toList).Perm
      ((cs.filterMap Call.queued?).flatMap fun m ↦ m.pieces.map Prod.snd) ∧
    ∃ groups, (run window cs).Accounts (cs.filterMap Call.queued?) (kept window cs) groups := by
  have hholds := holds_run window cs
  obtain ⟨groups, haccounts⟩ := accounts_run window cs
  have hperm := haccounts.perm_pieces hholds
  refine ⟨?_, fun d hd ↦ ?_, fun d now hd ↦ poll_of_deadline hd now,
    fun now hidle ↦ poll_of_idle hidle now, fun now _ _ _ _ _ _ ↦ queue_of_immediate rfl _ now,
    fun now m hm ↦ ?_, fun userEvent ↦ ⟨?_, ?_, ?_⟩, fun more ↦ ?_, hperm,
    groups, haccounts⟩
  · rw [hholds.deadline_eq, Ne, hholds.pending_eq_zero_iff]
    simp
  · rw [hholds.deadline_eq, window_run] at hd
    obtain ⟨e, he, rfl⟩ := Option.map_eq_some_iff.mp hd
    -- the latest of those that wait is the latest of all, since a flush drops a front
    obtain ⟨flushed, hflushed⟩ := (new window).keptThrough_isSuffix [] cs
    rw [List.nil_append] at hflushed
    exact ⟨e, by rw [← hflushed, List.getLast?_append, ← kept, he]; rfl, rfl⟩
  · simp only [queue_eq_of_not_immediate (Message.isImmediate_of_ne_create hm), window_run]
  · rw [flush_eq]
    rfl
  · rw [flush_eq, hholds.toList_eq userEvent]
  · -- a flush hands over all of the log
    have hhanded := (run window cs).handed_flush userEvent
    rw [handed] at hhanded
    rw [hhanded]
    exact hperm
  · rw [run, run, List.foldl_append]
    exact sent_foldl_call _ more

/-- A watch, and then an update that is taken apart. -/
def watchAndUpdate : List Call :=
  [.queue 0 (.watch 3), .queue 3 (.update 2 (some (.int 7)) (.ofList [("viewdefs:high", "v")]))]

/-- They leave 5 behind the update, in the order of the receiver, and a create ahead of them. -/
theorem run_batches_watchAndUpdate :
    (run 5 watchAndUpdate).deadline = some 8 ∧
    (run 5 watchAndUpdate).poll 7 = (false, run 5 watchAndUpdate) ∧
    ((run 5 watchAndUpdate).queue 4 (.create 1 none .empty (some 9) false false)).sent
      = [⟨false, [.create 1 none .empty (some 9) false false]⟩] ∧
    ((run 5 watchAndUpdate).poll 8).2.sent = [⟨false, [.update 2 none (.ofList [("viewdefs", "v")]),
      .watch 3, .update 2 (some (.int 7)) .empty]⟩] := by
  have hdeadline : (run 5 watchAndUpdate).deadline = some 8 := rfl
  obtain ⟨-, -, hpoll, -, hcreate, -, hflush, -⟩ := run_batches_exact 5 watchAndUpdate
  refine ⟨hdeadline, hpoll 8 7 hdeadline, ?_, ?_⟩
  · rw [hcreate]
    rfl
  · rw [hpoll 8 8 hdeadline, if_pos (Nat.le_refl 8), (hflush false).2.1]
    rfl

end Outbox

end ReactiveVars
