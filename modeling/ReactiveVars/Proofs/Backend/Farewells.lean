import ReactiveVars.Proofs.Backend.Operations
import ReactiveVars.Proofs.Variable.Forest

/-!
# Who is told of a destruction

A destruction removes a variable with all its descendants, and one message tells of it: the one for
the variable itself, which goes to the watchers of this variable. Of the descendants nobody is told.
Since the destroyed variable is in the lineage of everything that is removed, a watcher of a removed
variable learns of its end exactly if it also watched the variable that was destroyed.
-/

namespace ReactiveVars

open TurnM

variable {s s' : SessionState}

/-! ## The variables of a session form a forest

The moves change a store as edits do, or not at all as far as numbers and parents go. -/

theorem Store.Grown.keep {s : Store} (h : Grown s.entries) (id : VarId) (v : Json) :
    Grown (s.keep id v).entries := by
  refine h.modify id (fun u ↦ ?_) (fun u ↦ ?_) <;> split <;> rfl

theorem Store.Grown.showStep (h : Grown s.store.entries) {id : VarId}
    (hs : ShowStep id s s') : Grown s'.store.entries := by
  rcases hs with v | o | ⟨o, v⟩
  · exact h.keep id v
  · exact h
  · rw [SessionState.watched]
    split
    · exact (h.keep id v).modify id (fun _ ↦ rfl) fun _ ↦ rfl
    · exact h.keep id v

theorem Store.Grown.released (h : Grown s.store.entries) (id : VarId) :
    Grown (s.released id).store.entries :=
  h.modify id (fun _ ↦ rfl) fun _ ↦ rfl

theorem Store.Grown.releasedAll (ids : List VarId) (h : Grown s.store.entries) :
    Grown (s.releasedAll ids).store.entries := by
  induction ids generalizing s with
  | nil => exact h
  | cons id ids ih => exact ih (h.released id)

theorem Store.Grown.move (hm : Move s s') (h : Grown s.store.entries) :
    Grown s'.store.entries := by
  cases hm with
  | spend ids => exact h
  | register request value ps check params =>
    obtain ⟨hid, -, hparent⟩ := Store.checkNew_eq_ok_iff.mp check
    refine .cons h hid (Store.contains_eq_false_iff.mp (request.fresh check)) ?_
    rwa [Store.contains, Store.get?_eq_findIn, request.entries_chosen] at hparent
  | «show» id found step => exact h.showStep step
  | assign parent value found literal => exact h.modify _ (fun _ ↦ rfl) fun _ ↦ rfl
  | update id value ps found => exact h.modify _ (fun _ ↦ rfl) fun _ ↦ rfl
  | unwatch o id =>
    rw [SessionState.unwatched]
    split
    · exact Store.Grown.released (s := { s with tally := (s.tally.unwatch id o).2 }) h id
    · exact h
  | unwatchAll o =>
    exact Store.Grown.releasedAll (s := { s with tally := (s.tally.unwatchAll o).2 }) _ h
  | destroy id => exact h.destroy id
  | note step =>
    obtain ⟨id, v, -⟩ := step
    exact h.keep id v

section Runs

variable {σ : Type} [Application σ] {w : WrapperRegistry} {t : Turn σ}
variable {requester : Option Observer} {id r a : VarId} {o : Observer}

/-- The variables of every reachable session form a forest. -/
theorem Turn.Reachable.grown (h : t.Reachable w) : Store.Grown t.session.store.entries := by
  refine h.induct (P := fun s ↦ Store.Grown s.store.entries) (fun root ↦ ?_) .move
  rw [SessionState.entries_withRoot]
  exact .cons .nil (show rootId ≠ noParent by decide) rfl (.inl rfl)

/-! ## Farewells

There is one message for each watcher of the destroyed variable, but for the one who has asked.
Watchers of its descendants are not looked for. -/

theorem mem_farewells_iff {m : Message} : (o, m) ∈ farewells s requester id ↔
    m = .destroy id ∧ s.store.contains id = true ∧ s.tally.isWatching id o = true ∧
      some o ≠ requester := by
  rw [farewells]
  by_cases hc : s.store.contains id = true
  · rw [if_pos hc, List.mem_map]
    simp only [List.mem_filter, WatchTally.mem_watchers_iff, decide_eq_true_eq, Prod.mk.injEq]
    constructor
    · rintro ⟨o', ⟨hw, hne⟩, rfl, rfl⟩
      exact ⟨rfl, hc, hw, hne⟩
    · rintro ⟨rfl, -, hw, hne⟩
      exact ⟨o, ⟨hw, hne⟩, rfl, rfl⟩
  · rw [if_neg hc]
    simp [hc]

/-- **A watcher of a removed variable is told of its end, or of the end of a removed ancestor,
exactly if it watches the variable that is destroyed.** -/
theorem destroy_told_iff (h : t.Reachable w) (hr : r ∈ (t.session.store.destroy id).1)
    (ho : some o ≠ requester) :
    ∃ sent, ((destroy requester id).after t).dispatch = t.dispatch ++ sent ∧
      ((∃ u ∈ t.session.store.lineage r, u.id ∈ (t.session.store.destroy id).1 ∧
        (o, .destroy u.id) ∈ sent) ↔ t.session.tally.isWatching id o = true) := by
  refine ⟨farewells t.session requester id, by rw [after_of_ok (destroy_run requester id t)], ?_⟩
  constructor
  · rintro ⟨u, -, -, hsent⟩
    exact (mem_farewells_iff.mp hsent).2.2.1
  · intro hwatch
    -- the destroyed variable itself is the removed ancestor that is announced
    obtain ⟨u, hu, rfl⟩ := h.grown.mem_lineage_of_mem_destroy hr
    have hc := Store.contains_of_mem_destroy hr
    exact ⟨u, hu, Store.mem_destroy_self hc, mem_farewells_iff.mpr ⟨rfl, hc, hwatch, ho⟩⟩

/-- A variable with a child that somebody watches. -/
def ContactBook.watchedChild : Turn ObjectSpace :=
  turn.run .standard [.handle "a" (.create rootId none .empty (some 2) true false),
    .handle "a" (.create 2 none .empty (some 3) true false), .handle "b" (.watch 3)]

theorem destroy_watchedChild_told_iff :
    ∃ sent, ((destroy (some "a") 2).after ContactBook.watchedChild).dispatch
        = ContactBook.watchedChild.dispatch ++ sent ∧
      ((∃ u ∈ ContactBook.watchedChild.session.store.lineage 3,
        u.id ∈ (ContactBook.watchedChild.session.store.destroy 2).1 ∧
          ("b", .destroy u.id) ∈ sent) ↔
        ContactBook.watchedChild.session.tally.isWatching 2 "b" = true) :=
  destroy_told_iff (w := .standard) ((Turn.Reachable.fresh _ _).run _) (by decide +kernel)
    (by decide)

/-- The end of the child is told to nobody. -/
theorem watchedChild_untold :
    ContactBook.watchedChild.Reachable .standard ∧
      3 ∈ (ContactBook.watchedChild.session.store.destroy 2).1 ∧
      ContactBook.watchedChild.session.tally.isWatching 3 "b" = true ∧
      ((destroy (some "a") 2).after ContactBook.watchedChild).dispatch
        = ContactBook.watchedChild.dispatch := by
  refine ⟨(Turn.Reachable.fresh _ _).run _, by decide +kernel, by decide +kernel, ?_⟩
  rw [after_of_ok (destroy_run _ _ _)]
  exact List.append_right_eq_self.mpr (by rfl)

end Runs

end ReactiveVars
