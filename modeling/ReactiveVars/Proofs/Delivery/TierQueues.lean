import ReactiveVars.Delivery.TierQueue
import ReactiveVars.Wire.Message

/-!
# Pieces of messages in tiered queues

A queue is known by what waits in each tier. Adding the pieces of a message adds to each tier the
pieces of that tier, in order, behind what waits there already.

An update is the only message that comes in several pieces. They are updates of the same variable;
the value goes with the medium piece, and every other piece has none.
-/

namespace ReactiveVars

theorem Batch.inTier_cons (p : Tier × Message) (ps : List (Tier × Message)) (t : Tier) :
    inTier (p :: ps) t = (if p.1 = t then [p.2] else []) ++ inTier ps t := by
  by_cases h : p.1 = t <;> simp [inTier, h]

theorem Batch.inTier_append (ps ps' : List (Tier × Message)) (t : Tier) :
    inTier (ps ++ ps') t = inTier ps t ++ inTier ps' t := by
  rw [inTier, List.filter_append, List.map_append, inTier, inTier]

theorem Batch.inTier_singleton (t t' : Tier) (m : Message) :
    inTier [(t, m)] t' = if t = t' then [m] else [] := by
  rw [inTier_cons]
  exact List.append_nil _

namespace TierQueue

variable {α : Type}

/-- What waits in one tier. -/
def tier (q : TierQueue α) : Tier → List α
  | .high => q.high
  | .medium => q.medium
  | .low => q.low

theorem toList_eq (q : TierQueue α) : q.toList = Tier.all.flatMap q.tier := by
  simp [toList, Tier.all, tier]

@[simp] theorem tier_empty (t : Tier) : (empty : TierQueue α).tier t = [] := by
  cases t <;> rfl

theorem isEmpty_iff {q : TierQueue α} : q.isEmpty = true ↔ q = empty := by
  obtain ⟨high, medium, low⟩ := q
  simp [isEmpty, empty, and_assoc]

theorem size_eq_zero_iff {q : TierQueue α} : q.size = 0 ↔ q = empty := by
  obtain ⟨high, medium, low⟩ := q
  simp [size, empty, and_assoc]

theorem toList_eq_nil_iff {q : TierQueue α} : q.toList = [] ↔ q = empty := by
  obtain ⟨high, medium, low⟩ := q
  simp [toList, empty]

theorem tier_push (q : TierQueue α) (t : Tier) (a : α) (t' : Tier) :
    (q.push t a).tier t' = q.tier t' ++ if t = t' then [a] else [] := by
  cases t <;> cases t' <;> simp [push, tier]

/-- Adds items, each to its tier. -/
def pushAll (q : TierQueue α) (ps : List (Tier × α)) : TierQueue α :=
  ps.foldl (fun q p ↦ q.push p.1 p.2) q

theorem tier_pushAll (ps : List (Tier × Message)) (q : TierQueue Message) (t : Tier) :
    (q.pushAll ps).tier t = q.tier t ++ Batch.inTier ps t := by
  induction ps generalizing q with
  | nil => simp [pushAll, Batch.inTier]
  | cons p ps ih =>
    rw [pushAll, List.foldl_cons, ← pushAll, ih, tier_push, List.append_assoc, Batch.inTier_cons]

end TierQueue

theorem Batch.inTier_filterMap {f : Tier → Option (Tier × Message)}
    (hf : ∀ t p, f t = some p → p.1 = t) (t : Tier) :
    inTier (Tier.all.filterMap f) t = (f t).toList.map Prod.snd := by
  have hall (ts : List Tier) : inTier (ts.filterMap f) t
      = ts.flatMap fun t' ↦ if t' = t then (f t).toList.map Prod.snd else [] := by
    induction ts with
    | nil => rfl
    | cons t' ts ih =>
      rw [List.filterMap_cons, List.flatMap_cons, ← ih]
      by_cases ht : t' = t
      · subst ht
        rcases h : f t' with _ | p
        · simp
        · simp [inTier_cons, hf t' p h]
      · rcases h : f t' with _ | p
        · simp [ht]
        · simp [inTier_cons, hf t' p h, ht]
  rw [hall]
  cases t <;> simp [Tier.all]

namespace Message

variable {id : VarId} {value : Option Json} {ps : Properties} {m : Message} {p : Tier × Message}

theorem updatePiece?_eq_none_iff {t : Tier} : updatePiece? id value ps t = none ↔
    (t = .medium → value = none) ∧ (ps.ofTier t).isEmpty = true := by
  rw [updatePiece?]
  by_cases ht : t = .medium <;> simp [ht]

theorem updatePiece?_eq_some {t : Tier} (h : updatePiece? id value ps t = some p) :
    p = (t, update id (if t = .medium then value else none) (ps.ofTier t)) := by
  rw [updatePiece?] at h
  exact (Option.some_inj.mp (Option.ite_none_right_eq_some.mp h).2).symm

/-- An update has one piece in a tier at most, which is an update of the same variable. The value
goes with the medium one, which is missing only if there is no value. -/
theorem inTier_pieces_update (id : VarId) (value : Option Json) (ps : Properties) (t : Tier) :
    (∃ part, Batch.inTier (update id value ps).pieces t
      = [update id (if t = .medium then value else none) part]) ∨
    Batch.inTier (update id value ps).pieces t = [] ∧ (t = .medium → value = none) := by
  rw [pieces]
  split
  · next hnone =>
    have hvalue : value = none :=
      (updatePiece?_eq_none_iff.mp
        (List.filterMap_eq_nil_iff.mp hnone .medium (by simp [Tier.all]))).1 rfl
    by_cases ht : t = .medium
    · subst ht
      exact .inl ⟨.empty, by simp [Batch.inTier, hvalue]⟩
    · exact .inr ⟨by simp [Batch.inTier, Ne.symm ht], fun h ↦ absurd h ht⟩
  · rw [Batch.inTier_filterMap fun t p h ↦ by rw [updatePiece?_eq_some h]]
    rcases hp : updatePiece? id value ps t with _ | p
    · exact .inr ⟨rfl, (updatePiece?_eq_none_iff.mp hp).1⟩
    · rw [updatePiece?_eq_some hp]
      exact .inl ⟨_, rfl⟩

theorem pieces_ne_nil (m : Message) : m.pieces ≠ [] := by
  cases m with
  | update id value ps =>
    rw [pieces]
    split
    · exact List.cons_ne_nil _ _
    · next h => exact h
  | _ => exact List.cons_ne_nil _ _

theorem isImmediate_of_ne_create (h : ∀ parent value ps id noWatch unbound,
    m ≠ .create parent value ps id noWatch unbound) : m.isImmediate = false := by
  cases m with
  | create parent value ps id noWatch unbound => exact absurd rfl (h _ _ _ _ _ _)
  | _ => rfl

/-- The pieces of a create are creates, and those of another message are not. -/
theorem isImmediate_of_mem_pieces (h : p ∈ m.pieces) : p.2.isImmediate = m.isImmediate := by
  cases m with
  | update id value ps =>
    rw [pieces] at h
    split at h
    · rw [List.mem_singleton.mp h]
      rfl
    · obtain ⟨t, -, ht⟩ := List.mem_filterMap.mp h
      rw [updatePiece?_eq_some ht]
      rfl
  | _ =>
    rw [List.mem_singleton.mp h]

end Message

end ReactiveVars
