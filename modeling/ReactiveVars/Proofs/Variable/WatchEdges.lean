import Mathlib.Data.Finset.Card
import Mathlib.Data.List.Chain
import ReactiveVars.Proofs.Variable.Tallies

/-!
# Pairs and edges of a tally

A tally is changed by observers that come and go, by observers that leave everything they watch, and
by variables that are dropped. Two descriptions of such a run meet here. As a finite set of pairs a
tally gets a pair by each watch, and the other changes take pairs away. And for each variable a run
is a sequence of *edges*: its first watcher comes, or its last one goes.

An edge is what the tally itself makes known of a change, by the outcomes that it returns. That the
edges of a variable alternate rests on one fact about a single change: there is an edge exactly if
the variable gets its first watcher or loses the last one, whatever the change is.

## Main statement

* `run_pairs_edges`: what a tally tells at any time is what the set of pairs says, and the edges of
  every variable alternate.
-/

namespace ReactiveVars.WatchTally

/-- A change of a tally. -/
inductive Act where
  | watch (id : VarId) (o : Observer)
  | unwatch (id : VarId) (o : Observer)
  | unwatchAll (o : Observer)
  | forget (id : VarId)

/-- The tally after a change. -/
def act (t : WatchTally) : Act → WatchTally
  | .watch id o => (t.watch id o).2
  | .unwatch id o => (t.unwatch id o).2
  | .unwatchAll o => (t.unwatchAll o).2
  | .forget id => (t.forget id).2

/-- The tally after changes in order. -/
def run (t : WatchTally) (as : List Act) : WatchTally := as.foldl act t

variable {t : WatchTally} {id k : VarId} {o : Observer}

/-! ## The set of pairs

A variable that is dropped takes all its pairs along, and an observer that leaves takes its own.
Watching twice adds nothing. -/

/-- What a change does to a set of pairs. -/
def Act.onPairs (ps : Finset (VarId × Observer)) : Act → Finset (VarId × Observer)
  | .watch id o => insert (id, o) ps
  | .unwatch id o => ps.erase (id, o)
  | .unwatchAll o => ps.filter fun p ↦ p.2 ≠ o
  | .forget id => ps.filter fun p ↦ p.1 ≠ id

/-- The pairs after changes in order, of which there are none at first. -/
def pairsAfter (as : List Act) : Finset (VarId × Observer) := as.foldl Act.onPairs ∅

/-- Whether a tally has just the pairs of a set. -/
def HasPairs (t : WatchTally) (ps : Finset (VarId × Observer)) : Prop :=
  ∀ id o, t.isWatching id o = true ↔ (id, o) ∈ ps

theorem HasPairs.act {ps : Finset (VarId × Observer)} (h : t.HasPairs ps) (a : Act) :
    (t.act a).HasPairs (a.onPairs ps) := by
  intro id o
  have hpair (k : VarId) (o' : Observer) : k = id ∧ o' = o ↔ (id, o) = (k, o') := by
    rw [Prod.mk.injEq, @eq_comm _ k, @eq_comm _ o']
  cases a with
  | watch k o' =>
    rw [WatchTally.act, isWatching_watch, Bool.or_eq_true, decide_eq_true_eq, h, hpair,
      Act.onPairs, Finset.mem_insert]
  | unwatch k o' =>
    rw [WatchTally.act, isWatching_unwatch, Bool.and_eq_true, Bool.not_eq_true',
      decide_eq_false_iff_not, h, hpair, Act.onPairs, Finset.mem_erase]
  | unwatchAll o' =>
    rw [WatchTally.act, isWatching_unwatchAll, Bool.and_eq_true, Bool.not_eq_true',
      decide_eq_false_iff_not, h, Act.onPairs, Finset.mem_filter, and_comm, ne_comm]
  | forget k =>
    rw [WatchTally.act, isWatching_forget, Bool.and_eq_true, Bool.not_eq_true',
      decide_eq_false_iff_not, h, Act.onPairs, Finset.mem_filter, and_comm, ne_comm]

theorem hasPairs_run (as : List Act) : (empty.run as).HasPairs (pairsAfter as) := by
  have hrun (t : WatchTally) (ps : Finset (VarId × Observer)) (h : t.HasPairs ps) :
      (t.run as).HasPairs (as.foldl Act.onPairs ps) := by
    induction as generalizing t ps with
    | nil => exact h
    | cons a as ih => exact ih (t.act a) (a.onPairs ps) (h.act a)
  refine hrun empty ∅ fun id o ↦ ?_
  simp [isWatching, observers, empty]

private theorem HasPairs.hasWatcher_iff {ps : Finset (VarId × Observer)} (h : t.HasPairs ps) :
    t.hasWatcher id = true ↔ ∃ o, (id, o) ∈ ps := by
  rw [WatchTally.hasWatcher_iff]
  exact exists_congr (h id)

private theorem length_watchers (t : WatchTally) (id : VarId) :
    (t.watchers id).length = t.count id := by
  rw [watchers, KeyMap.keys, List.length_map, count, KeyMap.size]

private theorem pairwise_watchers (t : WatchTally) (id : VarId) :
    (t.watchers id).Pairwise (· < ·) :=
  List.pairwise_map.mpr (t.observers id).ascending

theorem HasPairs.count_eq {ps : Finset (VarId × Observer)} (h : t.HasPairs ps)
    (id : VarId) : t.count id = (ps.filter fun p ↦ p.1 = id).card := by
  have hpairs : (ps.filter fun p ↦ p.1 = id) = ((t.watchers id).map (Prod.mk id)).toFinset := by
    ext ⟨k, o⟩
    rw [Finset.mem_filter, List.mem_toFinset, List.mem_map]
    constructor
    · rintro ⟨hmem, rfl⟩
      exact ⟨o, mem_watchers_iff.mpr ((h _ o).mpr hmem), rfl⟩
    · rintro ⟨o', ho', heq⟩
      obtain ⟨rfl, rfl⟩ := Prod.mk.inj heq
      exact ⟨(h _ _).mp (mem_watchers_iff.mp ho'), rfl⟩
  have hnodup : ((t.watchers id).map (Prod.mk id)).Nodup :=
    (t.observers id).nodup_keys.map (Prod.mk_right_injective id)
  rw [hpairs, List.toFinset_card_of_nodup hnodup, List.length_map, length_watchers]

/-- The number that an outcome tells is the number of watchers afterwards. -/
theorem count_watch (t : WatchTally) (id : VarId) (o : Observer) :
    (t.watch id o).1.count = (t.watch id o).2.count id := by
  rw [count, observers_watch, if_pos rfl]
  rfl

theorem count_unwatch (t : WatchTally) (id : VarId) (o : Observer) :
    (t.unwatch id o).1.count = (t.unwatch id o).2.count id := by
  rw [count, observers_unwatch, if_pos rfl]
  rfl

theorem Tight.run (h : t.Tight) (as : List Act) : (t.run as).Tight := by
  induction as generalizing t with
  | nil => exact h
  | cons a as ih =>
    refine ih (t := t.act a) ?_
    cases a with
    | watch id o => exact h.watch id o
    | unwatch id o => exact h.unwatch id o
    | unwatchAll o => exact t.tight_unwatchAll o
    | forget id => exact h.forget id

/-! ## Edges

Outcomes tell of edges one change at a time. To see that they alternate it is enough to know, after
each run, whether the last edge was a first watcher: this is so exactly if somebody watches. -/

/-- The first watcher of a variable comes, or the last one goes. -/
inductive Edge where
  | first
  | last
deriving DecidableEq

/-- Edges that alternate, beginning with a first watcher. -/
def Edge.Alternate (es : List Edge) : Prop := (last :: es).IsChain (· ≠ ·)

/-- The edge of a variable that the tally makes known by the result of a change. A variable that is
dropped has its last watchers go with it if there are any. -/
def edge? (t : WatchTally) (k : VarId) : Act → Option Edge
  | .watch id o => if id = k ∧ (t.watch id o).1.edge = true then some .first else none
  | .unwatch id o => if id = k ∧ (t.unwatch id o).1.edge = true then some .last else none
  | .unwatchAll o => if k ∈ (t.unwatchAll o).1 then some .last else none
  | .forget id => if id = k ∧ (t.forget id).1 ≠ [] then some .last else none

/-- The edges of a variable in the course of a run. -/
def edges (k : VarId) (t : WatchTally) : List Act → List Edge
  | [] => []
  | a :: as => (t.edge? k a).toList ++ edges k (t.act a) as

/-- The edge after which a variable is as watched as it is. -/
def lastEdge (t : WatchTally) (k : VarId) : Edge := if t.hasWatcher k then .first else .last

/-- **A change makes an edge known exactly if a variable gets its first watcher or loses its
last.** -/
theorem edge?_eq (t : WatchTally) (k : VarId) (a : Act) :
    t.edge? k a
      = if (t.act a).lastEdge k = t.lastEdge k then none else some ((t.act a).lastEdge k) := by
  cases a with
  | watch id o =>
    rw [edge?, act, lastEdge, lastEdge, hasWatcher_watch, edge_watch_eq]
    by_cases hid : id = k
    · subst hid
      cases t.hasWatcher id <;> simp
    · simp [hid]
  | unwatch id o =>
    rw [edge?, act, lastEdge, lastEdge, hasWatcher_unwatch]
    by_cases hedge : id = k ∧ (t.unwatch id o).1.edge = true
    · obtain ⟨rfl, hedge⟩ := hedge
      simp [hedge, hasWatcher_of_edge_unwatch hedge]
    · have hnone : (decide (id = k) && (t.unwatch id o).1.edge) = false := by
        rwa [← Bool.not_eq_true, Bool.and_eq_true, decide_eq_true_eq]
      rw [if_neg hedge, hnone]
      simp
  | unwatchAll o =>
    rw [edge?, act, lastEdge, lastEdge, hasWatcher_unwatchAll]
    by_cases hk : k ∈ (t.unwatchAll o).1
    · simp [hk, hasWatcher_of_mem_unwatchAll hk]
    · simp [hk]
  | forget id =>
    have hsome : (t.forget id).1 ≠ [] ↔ t.hasWatcher id = true := watchers_ne_nil_iff
    rw [edge?, act, lastEdge, lastEdge, hasWatcher_forget]
    simp only [hsome]
    by_cases hid : id = k
    · subst hid
      cases t.hasWatcher id <;> simp
    · simp [hid]

/-- Every edge differs from the one before, and the last one leaves the variable as it is. -/
theorem isChain_edges (k : VarId) (t : WatchTally) (as : List Act) :
    (t.lastEdge k :: edges k t as).IsChain (· ≠ ·) ∧
      (t.lastEdge k :: edges k t as).getLast? = some ((t.run as).lastEdge k) := by
  induction as generalizing t with
  | nil => exact ⟨List.isChain_singleton _, rfl⟩
  | cons a as ih =>
    obtain ⟨hchain, hlast⟩ := ih (t.act a)
    rw [edges, edge?_eq]
    by_cases hsame : (t.act a).lastEdge k = t.lastEdge k
    · rw [if_pos hsame, ← hsame]
      exact ⟨hchain, hlast⟩
    · rw [if_neg hsame]
      refine ⟨List.isChain_cons_cons.mpr ⟨Ne.symm hsame, hchain⟩, ?_⟩
      exact (List.getLast?_cons_cons ..).trans hlast

private theorem lastEdge_eq_first_iff : t.lastEdge k = .first ↔ t.hasWatcher k = true := by
  rw [lastEdge]
  cases t.hasWatcher k <;> simp

private theorem getLast?_edges_eq_first_iff (k : VarId) (as : List Act) :
    (edges k empty as).getLast? = some .first ↔ (empty.run as).hasWatcher k = true := by
  have hlast := (isChain_edges k empty as).2
  have hstart : empty.lastEdge k = .last := rfl
  rw [hstart, List.getLast?_cons, Option.some_inj] at hlast
  rw [← lastEdge_eq_first_iff, ← hlast]
  cases (edges k empty as).getLast? <;> simp

/-- **A tally is a set of pairs with exact edges.** After any changes the watchers it tells of are
those of the pairs, listed once and in order, and their number is that of the pairs, also in the
outcomes; no entry is kept without a watcher. The edges of each variable alternate, beginning with a
first watcher, and the variable is watched exactly if the latest of them is a first. -/
theorem run_pairs_edges (as : List Act) :
    (∀ id o, (empty.run as).isWatching id o = true ↔ (id, o) ∈ pairsAfter as) ∧
    (∀ id, ((empty.run as).watchers id).Pairwise (· < ·) ∧
      ∀ o, o ∈ (empty.run as).watchers id ↔ (id, o) ∈ pairsAfter as) ∧
    (∀ id, (empty.run as).count id = ((pairsAfter as).filter fun p ↦ p.1 = id).card ∧
      ∀ o, ((empty.run as).watch id o).1.count = ((empty.run as).watch id o).2.count id ∧
        ((empty.run as).unwatch id o).1.count = ((empty.run as).unwatch id o).2.count id) ∧
    (∀ id ∈ (empty.run as).watched.keys, ∃ o, (id, o) ∈ pairsAfter as) ∧
    ∀ id, Edge.Alternate (edges id empty as) ∧
      ((edges id empty as).getLast? = some .first ↔ ∃ o, (id, o) ∈ pairsAfter as) := by
  have hpairs := hasPairs_run as
  refine ⟨hpairs, fun id ↦ ⟨pairwise_watchers _ id, fun o ↦ ?_⟩,
    fun id ↦ ⟨hpairs.count_eq id, fun o ↦ ⟨count_watch _ id o, count_unwatch _ id o⟩⟩,
    fun id hid ↦ ?_, fun id ↦ ⟨(isChain_edges id empty as).1, ?_⟩⟩
  · rw [mem_watchers_iff, hpairs]
  · have hne := tight_empty.run as id (KeyMap.mem_keys_iff.mp hid)
    rwa [watchers_ne_nil_iff, hpairs.hasWatcher_iff] at hne
  · rw [getLast?_edges_eq_first_iff, hpairs.hasWatcher_iff]

/-- Repeated watches and the departures of others make no edge; a variable that is dropped with its
watchers loses them. -/
example : edges 4 empty [.watch 4 "a", .watch 4 "a", .watch 4 "b", .unwatch 4 "c", .unwatchAll "a",
    .unwatch 4 "b", .watch 4 "a", .forget 4, .forget 4, .watch 4 "b", .unwatchAll "b"]
      = [.first, .last, .first, .last, .first, .last] := by
  decide +kernel

end ReactiveVars.WatchTally
