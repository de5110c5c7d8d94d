import Mathlib.Data.List.Induction
import ReactiveVars.Delivery.Batcher
import ReactiveVars.Proofs.Delivery.TierQueues

/-!
# The deadline of a batcher

A deadline is set in two ways. A message that has to wait sets it anew each time, so that it keeps
being put off while messages come; traffic that is about to be answered pins it, and then messages
leave it where it is. Both share one field, which is taken back by everything that empties the
batcher.

`Timed` is what holds of the field after any calls at any times: whatever waits has a deadline, and
one that is not pinned is the window behind the latest message that had to wait. A pinned deadline
is described by what follows the call that has set it.

## Main statement

* `run_deadline_exact`: nothing waits without a deadline, and where each deadline comes from.
-/

namespace ReactiveVars.Batcher

/-! ## What is done with a batcher -/

/-- Something that is done with a batcher. -/
inductive Call where
  | enqueue (now : Nat) (tier : Tier) (m : Message)
  | arm (now : Nat)
  | flush (userEvent : Bool)
  | clear
  /-- The timer compares the deadline with the time. -/
  | expire (now : Nat)

/-- The batcher after a call. -/
def call (b : Batcher) : Call → Batcher
  | .enqueue now tier m => b.enqueue now tier m
  | .arm now => b.arm now
  | .flush userEvent => b.flush userEvent
  | .clear => b.clear
  | .expire now => b.expire now

/-- A batcher after calls in order. -/
def run (window : Nat) (cs : List Call) : Batcher := cs.foldl call (new window)

/-- The time at which a call adds a message that has to wait, if it does. -/
def Call.added? : Call → Option Nat
  | .enqueue now _ m => if m.isImmediate then none else some now
  | _ => none

/-- The time at which the latest message came that had to wait. -/
def lastAdded? (cs : List Call) : Option Nat := (cs.filterMap Call.added?).getLast?

variable {b : Batcher} {cs : List Call} {c : Call} {m : Message} {d now : Nat} {last : Option Nat}

private theorem run_append_singleton (window : Nat) (cs : List Call) (c : Call) :
    run window (cs ++ [c]) = (run window cs).call c := by
  rw [run, List.foldl_append, ← run]
  rfl

private theorem lastAdded?_append_singleton (cs : List Call) (c : Call) :
    lastAdded? (cs ++ [c]) = c.added?.or (lastAdded? cs) := by
  rw [lastAdded?, lastAdded?, List.filterMap_append, List.getLast?_append]
  cases hc : c.added? <;> simp [hc]

/-! ## Calls one by one

For each call there is an equation for each of the two ways that it can go, with the guard that
decides as its hypothesis. What follows argues by these and opens no call again. -/

theorem enqueue_of_immediate (hm : m.isImmediate = true) (b : Batcher) (now : Nat) (tier : Tier) :
    b.enqueue now tier m = b.send ⟨false, [m]⟩ := if_pos hm

theorem enqueue_of_not_immediate (hm : m.isImmediate = false) (b : Batcher) (now : Nat)
    (tier : Tier) :
    b.enqueue now tier m = { b with
      waiting := b.waiting.push tier m
      deadline := if b.pinned then b.deadline else some (now + b.window) } := by
  rw [enqueue, hm]
  rfl

theorem arm_of_idle (h : b.deadline = none) (now : Nat) :
    b.arm now = { b with deadline := some (now + b.window), pinned := true } := by
  rw [arm, h]
  rfl

/-- A deadline that is set is not moved by setting one ahead. -/
theorem arm_of_armed (h : b.deadline = some d) (now : Nat) : b.arm now = b := by
  rw [arm, h]
  rfl

theorem flush_eq (b : Batcher) (userEvent : Bool) :
    b.flush userEvent = { b.clear with
      sent := b.sent ++ if b.pending = 0 then [] else [⟨userEvent, b.waiting.toList⟩] } := by
  rw [flush, pending]
  by_cases hempty : b.waiting = .empty
  · rw [if_pos (TierQueue.isEmpty_iff.mpr hempty), if_pos (TierQueue.size_eq_zero_iff.mpr hempty),
      List.append_nil]
    rfl
  · rw [if_neg (hempty ∘ TierQueue.isEmpty_iff.mp), if_neg (hempty ∘ TierQueue.size_eq_zero_iff.mp)]
    rfl

theorem isDue_iff : b.isDue now = true ↔ ∃ d, b.deadline = some d ∧ d ≤ now := by
  rw [isDue]
  cases b.deadline <;> simp

/-- The timer sends what waits once the deadline has been reached. -/
theorem expire_of_due (h : b.deadline = some d) (hd : d ≤ now) :
    b.expire now = b.flush false := by
  rw [expire, if_pos (isDue_iff.mpr ⟨d, h, hd⟩)]

theorem expire_of_not_due (h : ∀ d, b.deadline = some d → now < d) : b.expire now = b := by
  rw [expire, if_neg]
  rintro hdue
  obtain ⟨d, hd, hle⟩ := isDue_iff.mp hdue
  exact absurd (h d hd) (Nat.not_lt.mpr hle)

theorem expire_cases (b : Batcher) (now : Nat) :
    b.expire now = b.flush false ∨ b.expire now = b := by
  rw [expire]
  split
  · exact .inl rfl
  · exact .inr rfl

theorem window_call (b : Batcher) (c : Call) : (b.call c).window = b.window := by
  have hflush (userEvent : Bool) : (b.flush userEvent).window = b.window := by
    rw [flush_eq]
    rfl
  cases c with
  | enqueue now tier m =>
    cases hm : m.isImmediate with
    | true => rw [call, enqueue_of_immediate hm, send]
    | false => rw [call, enqueue_of_not_immediate hm]
  | arm now =>
    cases hd : b.deadline with
    | none => rw [call, arm_of_idle hd]
    | some d => rw [call, arm_of_armed hd]
  | flush userEvent => exact hflush userEvent
  | clear => rfl
  | expire now =>
    rcases b.expire_cases now with hsent | hsame
    · rw [call, hsent, hflush]
    · rw [call, hsame]

theorem window_run (window : Nat) (cs : List Call) : (run window cs).window = window := by
  induction cs using List.reverseRecOn with
  | nil => rfl
  | append_singleton cs c ih => rw [run_append_singleton, window_call, ih]

/-! ## Where deadlines come from -/

/-- What waits has a deadline, and one that is not pinned is the window behind the latest message
that had to wait. -/
structure Timed (b : Batcher) (last : Option Nat) : Prop where
  /-- Nothing waits without a deadline. -/
  armed : b.pending ≠ 0 → b.deadline.isSome = true
  /-- What is pinned is a deadline. -/
  pinned : b.pinned = true → b.deadline.isSome = true
  unpinned : b.pinned = false → ∀ d, b.deadline = some d → last.map (· + b.window) = some d

/-- Nothing waits and no deadline is set. -/
theorem timed_clear (b : Batcher) (last : Option Nat) : b.clear.Timed last := by
  refine ⟨fun h ↦ absurd rfl h, fun h ↦ ?_, fun _ d hd ↦ ?_⟩
  · exact absurd h (by simp [clear])
  · exact absurd hd (by simp [clear])

theorem timed_flush (b : Batcher) (userEvent : Bool) (last : Option Nat) :
    (b.flush userEvent).Timed last := by
  rw [flush_eq]
  obtain ⟨harmed, hpinned, hunpinned⟩ := b.timed_clear last
  exact ⟨harmed, hpinned, hunpinned⟩

theorem Timed.call (h : b.Timed last) (c : Call) : (b.call c).Timed (c.added?.or last) := by
  cases c with
  | enqueue now tier m =>
    cases hm : m.isImmediate with
    | true =>
      rw [Batcher.call, enqueue_of_immediate hm, Call.added?, hm]
      exact ⟨h.armed, h.pinned, h.unpinned⟩
    | false =>
      rw [Batcher.call, enqueue_of_not_immediate hm, Call.added?, hm]
      cases hp : b.pinned with
      | true =>
        -- the message finds the pinned deadline, and leaves it
        have hsome := h.pinned hp
        exact ⟨fun _ ↦ hsome, fun _ ↦ hsome, fun hnot ↦ absurd hnot.symm Bool.false_ne_true⟩
      | false => exact ⟨fun _ ↦ rfl, fun _ ↦ rfl, fun _ d hd ↦ hd⟩
  | arm now =>
    cases hd : b.deadline with
    | none =>
      rw [Batcher.call, arm_of_idle hd]
      exact ⟨fun _ ↦ rfl, fun _ ↦ rfl, fun hnot ↦ absurd hnot.symm Bool.false_ne_true⟩
    | some d =>
      rw [Batcher.call, arm_of_armed hd]
      exact h
  | flush userEvent => exact b.timed_flush userEvent _
  | clear => exact b.timed_clear _
  | expire now =>
    rcases b.expire_cases now with hsent | hsame
    · rw [Batcher.call, hsent]
      exact b.timed_flush false _
    · rw [Batcher.call, hsame]
      exact h

theorem timed_run (window : Nat) (cs : List Call) : (run window cs).Timed (lastAdded? cs) := by
  induction cs using List.reverseRecOn with
  | nil => exact (new window).timed_clear none
  | append_singleton cs c ih =>
    rw [run_append_singleton, lastAdded?_append_singleton]
    exact ih.call c

/-! ## Pinned deadlines

Nothing but a call that empties the batcher takes a pin back. `Call.Spares` are the calls that do
not, given where the pin is: the timer is among them as long as the deadline has not been
reached. -/

/-- Whether a call neither empties a batcher nor lets the timer reach its deadline. -/
def Call.Spares (d : Nat) : Call → Prop
  | .enqueue .. | .arm _ => True
  | .flush _ | .clear => False
  | .expire now => now < d

theorem call_of_pinned (hd : b.deadline = some d) (hp : b.pinned = true) (hc : c.Spares d) :
    (b.call c).deadline = some d ∧ (b.call c).pinned = true := by
  cases c with
  | enqueue now tier m =>
    cases hm : m.isImmediate with
    | true =>
      rw [call, enqueue_of_immediate hm]
      exact ⟨hd, hp⟩
    | false =>
      rw [call, enqueue_of_not_immediate hm, if_pos hp]
      exact ⟨hd, hp⟩
  | arm now =>
    rw [call, arm_of_armed hd]
    exact ⟨hd, hp⟩
  | flush userEvent => exact hc.elim
  | clear => exact hc.elim
  | expire now =>
    -- the deadline is still ahead, so the timer does nothing
    have hwait : b.expire now = b := expire_of_not_due fun d' hd' ↦ by
      rw [hd, Option.some_inj] at hd'
      exact hd' ▸ hc
    rw [call, hwait]
    exact ⟨hd, hp⟩

private theorem foldl_call_of_pinned (hd : b.deadline = some d) (hp : b.pinned = true)
    (hcs : ∀ c ∈ cs, c.Spares d) :
    (cs.foldl call b).deadline = some d ∧ (cs.foldl call b).pinned = true := by
  induction cs generalizing b with
  | nil => exact ⟨hd, hp⟩
  | cons c cs ih =>
    rw [List.forall_mem_cons] at hcs
    obtain ⟨hd', hp'⟩ := call_of_pinned hd hp hcs.1
    exact ih hd' hp' hcs.2

/-- **Nothing waits without a deadline, and a pinned deadline does not move.** After any calls at
any times: a message waits unless it is a create, which is sent at once and alone; what waits has a
deadline, and the timer sends it as soon as the deadline is reached and not before; what is pinned
is a deadline; one that is not pinned is the window behind the latest message that had to wait, and
the next such message puts it off; one that is set ahead on an idle batcher is the window behind
that call, and stays until the batcher is emptied; setting one ahead moves no deadline; and nothing
is sent if nothing waits. -/
theorem run_deadline_exact (window : Nat) (cs : List Call) :
    ((run window cs).pending ≠ 0 → (run window cs).deadline.isSome = true) ∧
    (∀ d now, (run window cs).deadline = some d → (run window cs).expire now
      = if d ≤ now then (run window cs).flush false else run window cs) ∧
    ((run window cs).pinned = true → (run window cs).deadline.isSome = true) ∧
    (∀ d, (run window cs).pinned = false → (run window cs).deadline = some d →
      ∃ now, lastAdded? cs = some now ∧ d = now + window) ∧
    (∀ now tier m, (∀ parent value ps id noWatch unbound,
        m ≠ .create parent value ps id noWatch unbound) →
      ((run window cs).enqueue now tier m).waiting = (run window cs).waiting.push tier m ∧
      ((run window cs).enqueue now tier m).sent = (run window cs).sent ∧
      ((run window cs).pinned = false →
        ((run window cs).enqueue now tier m).deadline = some (now + window))) ∧
    (∀ now tier parent value ps id noWatch unbound,
      (run window cs).enqueue now tier (.create parent value ps id noWatch unbound)
        = (run window cs).send ⟨false, [.create parent value ps id noWatch unbound]⟩) ∧
    (∀ now more, (run window cs).deadline = none → (∀ c ∈ more, Call.Spares (now + window) c) →
      (run window (cs ++ .arm now :: more)).deadline = some (now + window) ∧
        (run window (cs ++ .arm now :: more)).pinned = true) ∧
    (∀ d now, (run window cs).deadline = some d → (run window cs).arm now = run window cs) ∧
    ∀ userEvent, ((run window cs).flush userEvent).pending = 0 ∧
      ((run window cs).flush userEvent).sent = (run window cs).sent ++
        if (run window cs).pending = 0 then []
        else [⟨userEvent, (run window cs).waiting.toList⟩] := by
  have htimed := timed_run window cs
  have hwindow := window_run window cs
  refine ⟨htimed.armed, fun d now hd ↦ ?_, htimed.pinned, fun d hnot hd ↦ ?_,
    fun now tier m hm ↦ ?_, fun now tier _ _ _ _ _ _ ↦ enqueue_of_immediate rfl _ now tier,
    fun now more hidle hmore ↦ ?_, fun d now hd ↦ arm_of_armed hd now, fun userEvent ↦ ?_⟩
  · split
    · next hle => exact expire_of_due hd hle
    · next hlt =>
      refine expire_of_not_due fun d' hd' ↦ ?_
      rw [hd, Option.some_inj] at hd'
      exact hd' ▸ Nat.not_le.mp hlt
  · obtain ⟨now, hlast, heq⟩ := Option.map_eq_some_iff.mp (htimed.unpinned hnot d hd)
    exact ⟨now, hlast, by rw [← heq, hwindow]⟩
  · rw [enqueue_of_not_immediate (Message.isImmediate_of_ne_create hm), hwindow]
    exact ⟨rfl, rfl, fun hnot ↦ by rw [hnot]; rfl⟩
  · -- the deadline is set ahead once, and what follows finds it pinned
    have hafter : run window (cs ++ .arm now :: more)
        = more.foldl call ((run window cs).arm now) := by
      rw [run, List.foldl_append, List.foldl_cons, ← run, call]
    have harm : ((run window cs).arm now).deadline = some (now + window) ∧
        ((run window cs).arm now).pinned = true := by
      rw [arm_of_idle hidle, hwindow]
      exact ⟨rfl, rfl⟩
    rw [hafter]
    exact foldl_call_of_pinned harm.1 harm.2 hmore
  · rw [flush_eq]
    exact ⟨rfl, rfl⟩

/-- A message puts off the deadline of another, but not one that has been set ahead, where the timer
sends both. -/
theorem run_deadline_put_off :
    (run 50 [.enqueue 0 .medium (.watch 3), .enqueue 30 .high (.watch 4)]).deadline = some 80 ∧
    (run 50 [.arm 0, .enqueue 10 .medium (.watch 3), .enqueue 30 .high (.watch 4)]).deadline
      = some 50 ∧
    ((run 50 [.arm 0, .enqueue 10 .medium (.watch 3), .enqueue 30 .high (.watch 4)]).expire 50).sent
      = [⟨false, [.watch 4, .watch 3]⟩] := by
  obtain ⟨-, -, -, -, hwaits, -⟩ := run_deadline_exact 50 [.enqueue 0 .medium (.watch 3)]
  obtain ⟨-, -, hunpinned⟩ := hwaits 30 .high (.watch 4) (by simp)
  obtain ⟨-, -, -, -, -, -, hstays, -⟩ := run_deadline_exact 50 []
  obtain ⟨hahead, -⟩ := hstays 0 [.enqueue 10 .medium (.watch 3), .enqueue 30 .high (.watch 4)] rfl
    (by simp [Call.Spares])
  obtain ⟨-, hdue, -⟩ := run_deadline_exact 50
    [.arm 0, .enqueue 10 .medium (.watch 3), .enqueue 30 .high (.watch 4)]
  refine ⟨hunpinned rfl, hahead, ?_⟩
  rw [hdue 50 50 hahead]
  rfl

end ReactiveVars.Batcher
