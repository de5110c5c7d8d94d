import ReactiveVars.Delivery.Batcher
import ReactiveVars.Proofs.Delivery.TierQueues

/-!
# What a batcher sends and keeps

A batch does not tell the tiers of its messages. A *parcel* is a batch whose pieces still have them,
so that order within a tier can be spoken of; the tiers are erased only where a parcel is compared
with a batch.

An account of a batcher lists parcels for all that it has sent, and relates them, together with what
still waits, to the pieces that it was handed: none is lost and none is sent twice, a create leaves
at once and alone, and the other pieces of a tier leave in the order in which they came.

## Main statement

* `Fed.accounts`: a batcher that was handed some messages, while it was armed, flushed and expired
  at any times, accounts for all their pieces.
-/

namespace ReactiveVars

/-! ## Queues with the tiers of what waits

A queue served as a list forgets the tiers. `tagged` is the same list with the tiers left on. -/

namespace TierQueue

variable {α : Type}

/-- The items with their tiers, in the order in which they are served. -/
def tagged (q : TierQueue α) : List (Tier × α) :=
  Tier.all.flatMap fun t ↦ (q.tier t).map (Prod.mk t)

theorem map_snd_tagged (q : TierQueue α) : q.tagged.map Prod.snd = q.toList := by
  simp [tagged, toList_eq, List.map_flatMap, Function.comp_def]

private theorem mem_tagged_iff {q : TierQueue α} {p : Tier × α} :
    p ∈ q.tagged ↔ p.2 ∈ q.tier p.1 := by
  obtain ⟨t, a⟩ := p
  cases t <;> simp [tagged, Tier.all]

/-- What is served first is of the sooner tier. -/
private theorem pairwise_tagged (q : TierQueue α) :
    q.tagged.Pairwise fun p p' ↦ p.1.rank ≤ p'.1.rank := by
  have htiers : Tier.all.Pairwise fun t t' ↦ t.rank ≤ t'.rank := by decide
  rw [tagged, List.pairwise_flatMap]
  refine ⟨fun t _ ↦ ?_, htiers.imp fun {t t'} hle p hp p' hp' ↦ ?_⟩
  · rw [List.pairwise_map]
    exact List.pairwise_of_forall fun _ _ ↦ Nat.le_refl _
  · obtain ⟨_, -, rfl⟩ := List.mem_map.mp hp
    obtain ⟨_, -, rfl⟩ := List.mem_map.mp hp'
    exact hle

private theorem filter_tagged_push (q : TierQueue α) (t : Tier) (a : α) (t' : Tier) :
    ((q.push t a).tagged.filter fun p ↦ p.1 = t')
      = (q.tagged.filter fun p ↦ p.1 = t') ++ [(t, a)].filter fun p ↦ p.1 = t' := by
  have htier (q : TierQueue α) :
      (q.tagged.filter fun p ↦ p.1 = t') = (q.tier t').map (Prod.mk t') := by
    have hpart (t : Tier) : ((q.tier t).map (Prod.mk t)).filter (fun p ↦ p.1 = t')
        = if t = t' then (q.tier t).map (Prod.mk t) else [] := by
      by_cases h : t = t' <;> simp [h]
    cases t' <;> simp [tagged, Tier.all, hpart]
  rw [htier, htier, tier_push]
  by_cases h : t = t' <;> simp [h]

end TierQueue

/-! ## Parcels -/

/-- A batch whose pieces still have their tiers. -/
structure Parcel where
  userEvent : Bool
  pieces : List (Tier × Message)

namespace Parcel

/-- The batch without the tiers. -/
def batch (p : Parcel) : Batch := ⟨p.userEvent, p.pieces.map Prod.snd⟩

/-- Whether a parcel is a single create, or has no create and the sooner tiers first. -/
def WellPacked (p : Parcel) : Prop :=
  (∃ q : Tier × Message, q.2.isImmediate = true ∧ p = ⟨false, [q]⟩) ∨
    (∀ q ∈ p.pieces, q.2.isImmediate = false) ∧
      p.pieces.Pairwise fun q q' ↦ q.1.rank ≤ q'.1.rank

end Parcel

/-- The creates among pieces. -/
def creates (ps : List (Tier × Message)) : List (Tier × Message) :=
  ps.filter fun q ↦ q.2.isImmediate

/-- The pieces of one tier that are not creates. -/
def ordinary (t : Tier) (ps : List (Tier × Message)) : List (Tier × Message) :=
  (ps.filter fun q ↦ q.1 = t).filter fun q ↦ !q.2.isImmediate

theorem creates_append (ps ps' : List (Tier × Message)) :
    creates (ps ++ ps') = creates ps ++ creates ps' := List.filter_append ..

theorem ordinary_append (t : Tier) (ps ps' : List (Tier × Message)) :
    ordinary t (ps ++ ps') = ordinary t ps ++ ordinary t ps' := by
  rw [ordinary, List.filter_append, List.filter_append, ordinary, ordinary]

private theorem perm_of_filter_eq {α : Type} {as as' : List α}
    (h : ∀ a, ∃ p : α → Bool, p a = true ∧ as.filter p = as'.filter p) : as.Perm as' := by
  classical
  rw [List.perm_iff_count]
  intro a
  obtain ⟨p, ha, hp⟩ := h a
  rw [← List.count_filter ha, hp, List.count_filter ha]

theorem perm_of_creates_of_ordinary {ps ps' : List (Tier × Message)}
    (hcreates : creates ps = creates ps') (hordinary : ∀ t, ordinary t ps = ordinary t ps') :
    ps.Perm ps' := by
  refine perm_of_filter_eq fun q ↦ ?_
  cases hq : q.2.isImmediate with
  | true => exact ⟨fun q ↦ q.2.isImmediate, hq, hcreates⟩
  | false =>
    have htier := hordinary q.1
    rw [ordinary, ordinary, List.filter_filter, List.filter_filter] at htier
    exact ⟨_, by simp [hq], htier⟩

private theorem append_singleton_split {α : Type} {ps before after : List α} {p q : α}
    (h : ps ++ [p] = before ++ q :: after) :
    ps = before ∧ p = q ∨ ∃ after', ps = before ++ q :: after' := by
  rcases List.eq_nil_or_concat after with rfl | ⟨after', last, rfl⟩
  · exact .inl (List.append_singleton_inj.mp h)
  · rw [List.concat_eq_append, ← List.cons_append, ← List.append_assoc,
      List.append_singleton_inj] at h
    exact .inr ⟨after', h.1⟩

/-! ## Accounts

Each call either moves what waits into a parcel, or adds a piece to what waits, or sends a create in
a parcel of its own. There is one lemma for each of the three, and the calls are put together from
them. -/

/-- A piece has left alone, with nothing ahead of it but some of the pieces that came before it. -/
def LeftAtOnce (parcels : List Parcel) (before : List (Tier × Message)) (q : Tier × Message) :
    Prop :=
  ∃ early late overtaken, parcels = early ++ ⟨false, [q]⟩ :: late ∧
    (early.flatMap Parcel.pieces ++ overtaken).Perm before

private theorem LeftAtOnce.append {parcels : List Parcel} {before : List (Tier × Message)}
    {q : Tier × Message} (h : LeftAtOnce parcels before q) (more : List Parcel) :
    LeftAtOnce (parcels ++ more) before q := by
  obtain ⟨early, late, overtaken, rfl, hperm⟩ := h
  exact ⟨early, late ++ more, overtaken, by rw [List.append_assoc, List.cons_append], hperm⟩

namespace Batcher

/-- Parcels account for what a batcher has sent of the pieces that it was handed. -/
structure Accounts (b : Batcher) (handed : List (Tier × Message)) (parcels : List Parcel) :
    Prop where
  /-- The parcels are what has been sent. -/
  sent : b.sent = parcels.map Parcel.batch
  packed : ∀ p ∈ parcels, p.WellPacked
  /-- No create waits. -/
  waiting : ∀ q ∈ b.waiting.tagged, q.2.isImmediate = false
  /-- The creates have left in the order in which they came. -/
  creates_eq : creates (parcels.flatMap Parcel.pieces) = creates handed
  /-- The other pieces of a tier leave in the order in which they came. -/
  ordinary_eq : ∀ t, ordinary t (parcels.flatMap Parcel.pieces ++ b.waiting.tagged)
    = ordinary t handed
  /-- A create has left at once. -/
  prompt : ∀ before q after, handed = before ++ q :: after → q.2.isImmediate = true →
    LeftAtOnce parcels before q

variable {b : Batcher} {handed : List (Tier × Message)} {parcels : List Parcel}

theorem Accounts.creates_waiting (h : b.Accounts handed parcels) :
    creates b.waiting.tagged = [] := by
  refine List.filter_eq_nil_iff.mpr fun q hq ↦ ?_
  rw [h.waiting q hq]
  exact Bool.false_ne_true

/-- **Nothing is lost and nothing is sent twice.** -/
theorem Accounts.perm (h : b.Accounts handed parcels) :
    (parcels.flatMap Parcel.pieces ++ b.waiting.tagged).Perm handed := by
  refine perm_of_creates_of_ordinary ?_ h.ordinary_eq
  rw [creates_append, h.creates_waiting, List.append_nil, h.creates_eq]

theorem accounts_new (window : Nat) : (new window).Accounts [] [] := by
  refine ⟨rfl, by simp, ?_, rfl, fun _ ↦ rfl, ?_⟩
  · intro q hq
    rw [TierQueue.mem_tagged_iff] at hq
    exact absurd hq (by simp [new])
  · intro before q after hsplit
    exact absurd hsplit.symm (by simp)

theorem Accounts.enqueue_ordinary (h : b.Accounts handed parcels) (now : Nat) {p : Tier × Message}
    (hp : p.2.isImmediate = false) :
    (b.enqueue now p.1 p.2).Accounts (handed ++ [p]) parcels := by
  have hcreates : creates [p] = [] := by simp [creates, hp]
  have hwaiting : (b.enqueue now p.1 p.2).waiting = b.waiting.push p.1 p.2 := by
    rw [enqueue, if_neg (by simp [hp])]
  refine ⟨?_, h.packed, fun q hq ↦ ?_, ?_, fun t ↦ ?_, fun before q after hsplit hq ↦ ?_⟩
  · rw [enqueue, if_neg (by simp [hp])]
    exact h.sent
  · rw [hwaiting, TierQueue.mem_tagged_iff, TierQueue.tier_push, List.mem_append] at hq
    rcases hq with hold | hnew
    · exact h.waiting q (TierQueue.mem_tagged_iff.mpr hold)
    · rw [List.mem_ite_nil_right, List.mem_singleton] at hnew
      rw [hnew.2, hp]
  · rw [creates_append, hcreates, List.append_nil, h.creates_eq]
  · have hpush : ordinary t (b.waiting.push p.1 p.2).tagged
        = ordinary t b.waiting.tagged ++ ordinary t [p] := by
      rw [ordinary, TierQueue.filter_tagged_push, List.filter_append]
      rfl
    rw [hwaiting, ordinary_append, hpush, ← List.append_assoc, ← ordinary_append, h.ordinary_eq,
      ordinary_append]
  · -- the create came before, for this piece is none
    rcases append_singleton_split hsplit with ⟨-, rfl⟩ | ⟨after', hsplit⟩
    · rw [hp] at hq
      exact absurd hq Bool.false_ne_true
    · exact h.prompt before q after' hsplit hq

theorem Accounts.enqueue_create (h : b.Accounts handed parcels) (now : Nat) {p : Tier × Message}
    (hp : p.2.isImmediate = true) :
    (b.enqueue now p.1 p.2).Accounts (handed ++ [p]) (parcels ++ [⟨false, [p]⟩]) := by
  have hordinary (t : Tier) : ordinary t [p] = [] := by
    by_cases ht : p.1 = t <;> simp [ordinary, hp, ht]
  have henqueue : b.enqueue now p.1 p.2 = b.send ⟨false, [p.2]⟩ := by rw [enqueue, if_pos hp]
  rw [henqueue]
  refine ⟨?_, fun q hq ↦ ?_, h.waiting, ?_, fun t ↦ ?_, fun before q after hsplit hq ↦ ?_⟩
  · rw [send, List.map_append, h.sent]
    rfl
  · rcases List.mem_append.mp hq with hold | hnew
    · exact h.packed q hold
    · rw [List.mem_singleton.mp hnew]
      exact .inl ⟨p, hp, rfl⟩
  · rw [List.flatMap_append, creates_append, creates_append, h.creates_eq]
    rfl
  · rw [List.flatMap_append, ordinary_append, ordinary_append, ordinary_append, hordinary,
      List.append_nil, ← h.ordinary_eq, ordinary_append]
    simp [hordinary, send]
  · rcases append_singleton_split hsplit with ⟨rfl, rfl⟩ | ⟨after', hsplit⟩
    · -- the new create: all parcels before it have left, and what waits stays
      exact ⟨parcels, [], b.waiting.tagged, rfl, h.perm⟩
    · exact (h.prompt before q after' hsplit hq).append _

theorem Accounts.flush (h : b.Accounts handed parcels) (userEvent : Bool) :
    ∃ parcels', (b.flush userEvent).Accounts handed parcels' := by
  rw [Batcher.flush]
  split
  · next hempty =>
    have hnone : b.waiting = .empty := TierQueue.isEmpty_iff.mp hempty
    refine ⟨parcels, h.sent, h.packed, ?_, h.creates_eq, ?_, h.prompt⟩
    · rw [← hnone]
      exact h.waiting
    · rw [← hnone]
      exact h.ordinary_eq
  · have hnone : (TierQueue.empty : TierQueue Message).tagged = [] := rfl
    refine ⟨parcels ++ [⟨userEvent, b.waiting.tagged⟩], ?_, fun p hp ↦ ?_, ?_, ?_, fun t ↦ ?_,
      fun before q after hsplit hq ↦ (h.prompt before q after hsplit hq).append _⟩
    · rw [send, List.map_append, h.sent, ← TierQueue.map_snd_tagged]
      rfl
    · rcases List.mem_append.mp hp with hold | hnew
      · exact h.packed p hold
      · rw [List.mem_singleton.mp hnew]
        exact .inr ⟨h.waiting, b.waiting.pairwise_tagged⟩
    · rw [send, hnone]
      simp
    · rw [List.flatMap_append, List.flatMap_singleton, creates_append, h.creates_waiting,
        List.append_nil, h.creates_eq]
    · rw [send, hnone, List.append_nil, List.flatMap_append, List.flatMap_singleton,
        h.ordinary_eq]

theorem Accounts.arm (h : b.Accounts handed parcels) (now : Nat) :
    (b.arm now).Accounts handed parcels := by
  rw [Batcher.arm]
  split
  · exact ⟨h.sent, h.packed, h.waiting, h.creates_eq, h.ordinary_eq, h.prompt⟩
  · exact h

theorem Accounts.expire (h : b.Accounts handed parcels) (now : Nat) :
    ∃ parcels', (b.expire now).Accounts handed parcels' := by
  rw [Batcher.expire]
  split
  · exact h.flush false
  · exact ⟨parcels, h⟩

theorem Accounts.queue (h : b.Accounts handed parcels) (now : Nat) (m : Message) :
    ∃ parcels', (b.queue now m).Accounts (handed ++ m.pieces) parcels' := by
  rw [Batcher.queue]
  induction m.pieces generalizing b handed parcels with
  | nil => exact ⟨parcels, by rwa [List.append_nil]⟩
  | cons p ps ih =>
    rw [List.foldl_cons, List.append_cons]
    cases hp : p.2.isImmediate with
    | true => exact ih (h.enqueue_create now hp)
    | false => exact ih (h.enqueue_ordinary now hp)

/-! ## What is done with a batcher -/

/-- A batcher that was handed messages, while it was armed, flushed and expired at any times. -/
inductive Fed : Batcher → List Message → Prop
  | new (window : Nat) : Fed (new window) []
  | queue {b : Batcher} {ms : List Message} (h : Fed b ms) (now : Nat) (m : Message) :
    Fed (b.queue now m) (ms ++ [m])
  | arm {b : Batcher} {ms : List Message} (h : Fed b ms) (now : Nat) : Fed (b.arm now) ms
  | flush {b : Batcher} {ms : List Message} (h : Fed b ms) (userEvent : Bool) :
    Fed (b.flush userEvent) ms
  | expire {b : Batcher} {ms : List Message} (h : Fed b ms) (now : Nat) : Fed (b.expire now) ms

/-- **A batcher accounts for the pieces of all messages that it was handed.** -/
theorem Fed.accounts {ms : List Message} (h : Fed b ms) :
    ∃ parcels, b.Accounts (ms.flatMap Message.pieces) parcels := by
  induction h with
  | new window => exact ⟨[], accounts_new window⟩
  | queue _ now m ih =>
    obtain ⟨parcels, haccounts⟩ := ih
    rw [List.flatMap_append, List.flatMap_singleton]
    exact haccounts.queue now m
  | arm _ now ih =>
    obtain ⟨parcels, haccounts⟩ := ih
    exact ⟨parcels, haccounts.arm now⟩
  | flush _ userEvent ih =>
    obtain ⟨parcels, haccounts⟩ := ih
    exact haccounts.flush userEvent
  | expire _ now ih =>
    obtain ⟨parcels, haccounts⟩ := ih
    exact haccounts.expire now

/-- Whatever has been sent is a piece of a message that was handed over. -/
theorem Fed.exists_piece {ms : List Message} (h : Fed b ms) {batch : Batch}
    (hbatch : batch ∈ b.sent) {m : Message} (hm : m ∈ batch.messages) :
    ∃ m' ∈ ms, ∃ p ∈ m'.pieces, p.2 = m := by
  obtain ⟨parcels, haccounts⟩ := h.accounts
  rw [haccounts.sent] at hbatch
  obtain ⟨parcel, hparcel, rfl⟩ := List.mem_map.mp hbatch
  obtain ⟨p, hp, rfl⟩ := List.mem_map.mp hm
  have hsent : p ∈ parcels.flatMap Parcel.pieces ++ b.waiting.tagged :=
    List.mem_append_left _ (List.mem_flatMap.mpr ⟨parcel, hparcel, hp⟩)
  obtain ⟨m', hm', hpieces⟩ := List.mem_flatMap.mp (haccounts.perm.mem_iff.mp hsent)
  exact ⟨m', hm', p, hpieces, rfl⟩

end Batcher

end ReactiveVars
