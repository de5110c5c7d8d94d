import ReactiveVars.Proofs.Frontend.Edits
import ReactiveVars.Proofs.Variable.Removals

/-!
# Which destructions the backend is told of

A local destruction removes a whole subtree, and the backend is told of its root alone, which takes
the subtree along there as well. Whether it is told depends on the root: nothing is reported about a
variable that is unbound. So bound variables below an unbound one are removed without a word, and
the backend keeps them.

## Main statement

* `destroy_reported`: what a destruction reports, and which of the removed variables that covers.
-/

namespace ReactiveVars

/-! ## What an outbox has taken -/

namespace Outbox

/-- The messages that are in an outbox later and have not been in it before, if nothing has been
sent in between but creates. -/
def taken (o o' : Outbox) : List Message :=
  o'.handed.drop o.handed.length ++
    Tier.all.flatMap fun t ↦ (o'.waiting.tier t).drop (o.waiting.tier t).length

private theorem taken_self (o : Outbox) : o.taken o = [] := by
  simp [taken]

private theorem taken_queue {m : Message} (h : m.isImmediate = false) (o : Outbox) (now : Nat) :
    o.taken (o.queue now m) = Tier.all.flatMap (Batch.inTier m.pieces) := by
  obtain ⟨hhanded, htier⟩ := queue_of_not_immediate h o now
  simp only [taken, hhanded, htier, List.drop_length, List.drop_left, List.nil_append]

end Outbox

namespace LocalStore

open Store

variable {l : LocalStore} {now : Nat} {id k : VarId}

/-! ## What a destruction reports

The numbers that are removed are returned to the caller, whoever is told. So what the backend does
not learn can be read off the result. -/

theorem taken_destroy (l : LocalStore) (now : Nat) (id : VarId) :
    l.outbox.taken (l.destroy now id).2.outbox
      = if l.store.contains id && !l.isUnbound id then [.destroy id] else [] := by
  have hdestroy : (l.destroy now id).2 = l.act (.destroy now id) := rfl
  rw [hdestroy, act_destroy]
  split
  · exact Outbox.taken_queue rfl l.outbox now
  · exact Outbox.taken_self l.outbox

private theorem fst_destroy (l : LocalStore) (now : Nat) (id : VarId) :
    (l.destroy now id).1 = (l.store.destroy id).1 := rfl

/-- Whether the reports of a destruction name a variable or one of its ancestors. -/
def Reported (l : LocalStore) (now : Nat) (id k : VarId) : Prop :=
  ∃ u ∈ l.store.lineage k, Message.destroy u.id ∈ l.outbox.taken (l.destroy now id).2.outbox

/-- A removed variable is covered exactly if the destroyed one is bound. -/
theorem reported_iff (h : Grown l.store.entries) (hk : k ∈ (l.destroy now id).1) :
    l.Reported now id k ↔ l.isUnbound id = false := by
  rw [fst_destroy] at hk
  obtain ⟨u, hu, rfl⟩ := List.mem_map.mp (h.mem_destroy_iff.mp hk)
  have hc : l.store.contains u.id = true := by
    by_contra hnot
    rw [destroy_of_not_contains (by simpa using hnot)] at hk
    exact absurd hk (by simp)
  rw [Reported, taken_destroy, hc, Bool.true_and]
  rcases l.isUnbound u.id with _ | _
  · exact iff_of_true ⟨u, hu, List.mem_singleton_self _⟩ rfl
  · refine iff_of_false ?_ (by simp)
    rintro ⟨v, -, hv⟩
    exact absurd hv (by simp)

/-- **What a destruction tells the backend.** -/
structure DestroyReported (l : LocalStore) (now : Nat) (id : VarId) : Prop where
  /-- The destroyed variable is reported if it is there and bound, and nothing else is. -/
  queued : l.outbox.taken (l.destroy now id).2.outbox
    = if l.store.contains id && !l.isUnbound id then [.destroy id] else []
  /-- Of the removed variables that are bound, the report covers all or none. -/
  covers_iff : ∀ k ∈ (l.destroy now id).1, l.isUnbound k = false →
    (l.Reported now id k ↔ l.isUnbound id = false)
  /-- It covers all of them if the destroyed variable is bound, and else only if there are none. -/
  covers_all_iff : (∀ k ∈ (l.destroy now id).1, l.isUnbound k = false → l.Reported now id k) ↔
    l.isUnbound id = false ∨ ∀ k ∈ (l.destroy now id).1, l.isUnbound k = true

/-- **The backend is told of the bound variables that a destruction removes, exactly if the
destroyed variable is bound itself**, whatever has been done with the frontend before. -/
theorem destroy_reported (window : Nat) (base : VarId) (as : List Action) (now : Nat)
    (id : VarId) : ((withBase window base).run as).DestroyReported now id := by
  have hgrown := (run_editedTo (withBase window base) as).grown
  constructor
  case queued => exact taken_destroy _ now id
  case covers_iff => exact fun k hk _ ↦ reported_iff hgrown hk
  case covers_all_iff =>
    constructor
    · intro hall
      by_cases hbound : ((withBase window base).run as).isUnbound id = false
      · exact .inl hbound
      · refine .inr fun k hk ↦ ?_
        by_contra hnot
        exact hbound ((reported_iff hgrown hk).mp (hall k hk (by simpa using hnot)))
    · rintro (hbound | hnone) k hk hkbound
      · exact (reported_iff hgrown hk).mpr hbound
      · rw [hnone k hk] at hkbound
        exact absurd hkbound (by simp)

/-- The backend tells of an unbound variable, below which the frontend creates a bound one. -/
def mixed : List Action := [
  .apply ⟨false, [.create rootId none .empty (some (-1)) false true]⟩,
  .create 0 (-1) none .empty (some "a") false]

/-- The bound variable is removed with the unbound one, and the backend is not told. -/
theorem destroy_not_reported :
    2 ∈ (((new 10).run mixed).destroy 0 (-1)).1 ∧ ((new 10).run mixed).isUnbound 2 = false ∧
      ¬ ((new 10).run mixed).Reported 0 (-1) 2 := by
  have hremoved : 2 ∈ (((new 10).run mixed).destroy 0 (-1)).1 := by decide +kernel
  refine ⟨hremoved, by decide +kernel, ?_⟩
  have hunbound : ((new 10).run mixed).isUnbound (-1) = true := by decide +kernel
  have hgrown : Grown ((new 10).run mixed).store.entries :=
    (run_editedTo (withBase 10 (rootId + 1)) mixed).grown
  rw [reported_iff hgrown hremoved, hunbound]
  simp

end LocalStore

end ReactiveVars
