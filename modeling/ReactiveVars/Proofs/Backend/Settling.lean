import ReactiveVars.Proofs.Backend.Farewells
import ReactiveVars.Proofs.Backend.Records
import ReactiveVars.Proofs.Variable.Lineages

/-!
# Detections are exact and settle

A detection reports a change for exactly those variables on record whose lineage counts, that can be
presented, and whose presented value has another text than the one on record. It reports ancestors
before their descendants, and a detection that follows at once has nothing to report.

Detections are considered wherever one may begin: after any operations, and also after the backend
has set the value of a variable itself.

## Main statement

* `detect_exact`: what a detection reports, in which order, and what it leaves on record.
-/

namespace ReactiveVars

open TurnM Relation

/-! ## The order of a detection

The rank of a variable is the length of its lineage, and then its number, so the order is strict and
does not depend on the order of the tracker. -/

/-- Whether a number comes before another by rank, and among those of the same rank by itself. -/
def RanksBefore (rank : VarId → Nat) (id id' : VarId) : Prop :=
  rank id < rank id' ∨ rank id = rank id' ∧ id < id'

section Order

variable {rank : VarId → Nat} {id : VarId} {ids : List VarId}

private theorem pairwise_insertByRank (h : ids.Pairwise (RanksBefore rank))
    (hid : ∀ k ∈ ids, id < k) : (insertByRank rank id ids).Pairwise (RanksBefore rank) := by
  induction ids with
  | nil => exact List.pairwise_singleton _ _
  | cons k ids ih =>
    obtain ⟨hk, hids⟩ := List.pairwise_cons.mp h
    rw [insertByRank]
    split
    · next hle =>
      refine List.pairwise_cons.mpr ⟨fun j hj ↦ ?_, h⟩
      -- what stands behind the place has a rank no lower, and among equals a greater number
      have hrank : rank k ≤ rank j := by
        rcases List.mem_cons.mp hj with rfl | hmem
        · exact Nat.le_refl _
        · rcases hk j hmem with hless | ⟨hsame, -⟩ <;> omega
      rcases Nat.lt_or_eq_of_le (Nat.le_trans hle hrank) with hless | hsame
      · exact .inl hless
      · exact .inr ⟨hsame, hid j hj⟩
    · next hle =>
      refine List.pairwise_cons.mpr ⟨fun j hj ↦ ?_, ih hids fun j hj ↦ hid j (.tail k hj)⟩
      rcases List.mem_cons.mp ((perm_insertByRank rank id ids).mem_iff.mp hj) with rfl | hmem
      · exact .inl (by omega)
      · exact hk j hmem

private theorem pairwise_sortByRank (h : ids.Pairwise (· < ·)) :
    (sortByRank rank ids).Pairwise (RanksBefore rank) := by
  induction ids with
  | nil => exact .nil
  | cons id ids ih =>
    obtain ⟨hid, hids⟩ := List.pairwise_cons.mp h
    refine pairwise_insertByRank (ih hids) fun k hk ↦ hid k ?_
    exact (perm_sortByRank rank ids).mem_iff.mp hk

end Order

/-- The length of the lineage of a variable. -/
def Store.depth (s : Store) (id : VarId) : Nat := (s.lineage id).length

/-- Variables are examined by the length of their lineages, and then by number. -/
private theorem pairwise_examined (s : SessionState) :
    s.examined.Pairwise (RanksBefore s.store.depth) := by
  refine pairwise_sortByRank ((List.pairwise_map.mpr ?_).filter _)
  exact s.tracker.cache.ascending

/-! ## Where detections may begin

The backend may set a value between two operations, so an invariant has to be kept by this as well
as by the moves. -/

section Attainable

variable {σ : Type} [Application σ] {w : WrapperRegistry} {t : Turn σ}

/-- The turns that operations lead to from the root variable alone, together with values that the
backend sets itself and deliveries of what has been dispatched. -/
inductive Turn.Attainable (w : WrapperRegistry) : Turn σ → Prop
  | fresh (root : Json) (app : σ) : Attainable w (Turn.fresh root app)
  | step {t : Turn σ} (h : Attainable w t) (op : Operation σ) : Attainable w ((op.part w).after t)
  | setValue {t : Turn σ} (h : Attainable w t) {id : VarId} {value : Json} {store : Store}
    (hstore : t.session.store.update id (some value) .empty = .ok store) :
    Attainable w { t with session := { t.session with store := store } }
  | deliver {t : Turn σ} (h : Attainable w t) : Attainable w { t with dispatch := [] }

theorem Turn.Attainable.run (h : t.Attainable w) (ops : List (Operation σ)) :
    (t.run w ops).Attainable w := by
  induction ops generalizing t with
  | nil => exact h
  | cons op ops ih => exact ih (h.step op)

/-- What holds at the start and is kept by every move, and when a value is set, holds of every
attainable session. -/
theorem Turn.Attainable.induct {P : SessionState → Prop} (hstart : ∀ root, P (.withRoot root))
    (hmove : ∀ {s s'}, Move s s' → P s → P s')
    (hset : ∀ {s : SessionState} id value, P s → P { s with
      store := s.store.modify id fun v ↦ v.update (some value) .empty })
    (h : t.Attainable w) : P t.session := by
  induction h with
  | fresh root app => exact hstart root
  | @step t _ op ih =>
    exact ReflTransGen.head_induction_on (op.moves w t) id (fun hm _ f hp ↦ f (hmove hm hp)) ih
  | @setValue t _ id value store hstore ih =>
    obtain ⟨-, rfl⟩ := Store.update_eq_ok_iff.mp hstore
    exact hset id value ih
  | deliver _ ih => exact ih

private theorem SessionState.Coherent.setValue {s : SessionState} (h : s.Coherent) (id : VarId)
    (value : Json) : Coherent { s with
      store := s.store.modify id fun v ↦ v.update (some value) .empty } := by
  refine h.congr rfl (fun k ↦ ?_) (fun k ↦ ?_) fun _ ↦ rfl
  · refine Store.contains_modify _ _ ?_ k
    exact fun _ ↦ rfl
  · refine Store.isActive_modify _ _ ?_ ?_ k <;> exact fun _ ↦ rfl

theorem Turn.Attainable.coherent (h : t.Attainable w) : t.session.Coherent :=
  h.induct .withRoot .move fun id value hs ↦ hs.setValue id value

theorem Turn.Attainable.grown (h : t.Attainable w) : Store.Grown t.session.store.entries := by
  refine h.induct (P := fun s ↦ Store.Grown s.store.entries) (fun root ↦ ?_) .move
    fun id value hs ↦ hs.modify id (fun _ ↦ rfl) fun _ ↦ rfl
  exact (Turn.Reachable.fresh (w := w) root t.app).grown

end Attainable

/-! ## What a detection reports

All variables are presented in the state in which the detection begins, so that the list of the
changes can be described variable by variable. -/

section Detecting

variable {w : WrapperRegistry} {t t' : Turn ObjectSpace} {changes : List Change} {id : VarId}

/-- Whether changes of a variable are reported: it is on record, and itself and all its ancestors
are active and none is suspended. -/
def SessionState.Reports (s : SessionState) (id : VarId) : Prop :=
  s.tracker.isTracking id = true ∧
    ∀ u ∈ s.store.lineage id, u.active = true ∧ u.isSuspended = false

private theorem SessionState.Coherent.mem_examined_iff_reports {s : SessionState} (h : s.Coherent) :
    id ∈ s.examined ↔ s.Reports id := by
  rw [mem_examined_iff, Store.isTracked, Bool.and_eq_true, List.all_eq_true, Reports]
  simp only [Bool.and_eq_true, Bool.not_eq_true']
  constructor
  · rintro ⟨htracking, -, hlineage⟩
    exact ⟨htracking, hlineage⟩
  · rintro ⟨htracking, hlineage⟩
    refine ⟨htracking, ?_, hlineage⟩
    rw [h.tracked] at htracking
    obtain ⟨v, hv, -⟩ := Store.isActive_iff.mp htracking
    exact Store.contains_iff.mpr ⟨v, hv⟩

/-- **A detection is exact and settles.** `t` is the turn before it and `t'` the one after it. -/
structure Turn.Detected (w : WrapperRegistry) (t : Turn ObjectSpace) (changes : List Change)
    (t' : Turn ObjectSpace) : Prop where
  /-- Reported is the presented value of exactly those variables that show a text which is not on
  record. -/
  exact_iff : ∀ id v, ⟨id, v⟩ ∈ changes ↔ t.session.Reports id ∧
    (t.presented w id).1 = .ok v ∧ t.session.tracker.cache.get? id ≠ some v.text
  /-- Nothing is reported twice. -/
  once : (changes.map Change.id).Nodup
  /-- Changes come by the length of the lineage, and then by number. -/
  ordered : (changes.map Change.id).Pairwise (RanksBefore t.session.store.depth)
  /-- No change of a variable comes after one of its descendants. -/
  ancestors_first : changes.Pairwise fun c c' ↦
    ∀ u ∈ t.session.store.lineage c.id, u.id ≠ c'.id
  /-- What is examined and can be presented is on record with what it presents. -/
  noted : ∀ id v, t.session.Reports id → (t.presented w id).1 = .ok v →
    t'.session.tracker.cache.get? id = some v.text
  /-- Any other record is as before. -/
  kept : ∀ id, ¬ (t.session.Reports id ∧ ∃ v, (t.presented w id).1 = .ok v) →
    t'.session.tracker.cache.get? id = t.session.tracker.cache.get? id
  /-- The same variables are on record. -/
  tracking : t'.session.tracker.cache.keys = t.session.tracker.cache.keys
  /-- The same values are presented. -/
  presented : ∀ id, t'.presented w id = t.presented w id
  /-- Another detection has nothing to report. -/
  settled : ∃ t'', detect w t' = .ok [] t''

theorem detect_run (w : WrapperRegistry) (t : Turn ObjectSpace) :
    detect w t = examineAll w t.session.examined t := rfl

theorem Turn.mem_news_iff {ids : List VarId} {v : Json} :
    ⟨id, v⟩ ∈ ids.filterMap (t.news? w) ↔ id ∈ ids ∧ (t.presented w id).1 = .ok v ∧
      t.session.tracker.cache.get? id ≠ some v.text := by
  rw [List.mem_filterMap]
  simp only [news?, Option.bind_eq_some_iff, shown?_eq_some_iff, Tracker.change?_eq_some_iff,
    Change.mk.injEq]
  constructor
  · rintro ⟨id', hmem, v', hv, hnew, rfl, rfl⟩
    exact ⟨hmem, hv, hnew⟩
  · rintro ⟨hmem, hv, hnew⟩
    exact ⟨id, hmem, v, hv, hnew, rfl, rfl⟩

/-- The numbers of what is reported are among those examined, in the same order. -/
theorem Turn.map_id_news_sublist (ids : List VarId) :
    ((ids.filterMap (t.news? w)).map Change.id).Sublist ids := by
  induction ids with
  | nil => exact .slnil
  | cons id ids ih =>
    rw [List.filterMap_cons]
    rcases hc : t.news? w id with _ | c
    · exact ih.cons id
    · have hid : c.id = id := Turn.id_of_news? hc
      rw [List.map_cons, hid]
      exact ih.cons_cons id

/-- What ranks before a variable is not below it. -/
private theorem RanksBefore.not_mem_lineage {s : Store} (hgrown : Store.Grown s.entries)
    {k k' : VarId} (h : RanksBefore s.depth k k') : ∀ u ∈ s.lineage k, u.id ≠ k' := by
  rintro u hu rfl
  have hne : u.id ≠ k := by
    rintro rfl
    rcases h with hless | ⟨-, hlt⟩
    · exact Nat.lt_irrefl _ hless
    · exact Int.lt_irrefl _ hlt
  have hshorter : s.depth u.id < s.depth k := hgrown.length_lineage_lt hu hne
  rcases h with hless | ⟨hsame, -⟩ <;> omega

theorem Turn.news?_eq_none (h : ∀ v, t.shown? w id = some v →
    t.session.tracker.cache.get? id = some v.text) : t.news? w id = none := by
  rw [news?]
  rcases hv : t.shown? w id with _ | v
  · rfl
  · rw [Option.bind_some, Tracker.change?, Tracker.isNews, h v hv]
    simp

/-- **A detection comes to an end, is exact and settles**, wherever it begins. -/
theorem detect_exact (h : t.Attainable w) (hfree : t.session.store.isMethodFree = true) :
    ∃ changes t', detect w t = .ok changes t' ∧ t.Detected w changes t' := by
  obtain ⟨t', hrun, hstill, hcache⟩ := examineAll_run (w := w) hfree (nodup_examined t.session)
  have hreports (id : VarId) : id ∈ t.session.examined ↔ t.session.Reports id :=
    h.coherent.mem_examined_iff_reports
  have hsublist := t.map_id_news_sublist (w := w) t.session.examined
  have hordered := (pairwise_examined t.session).sublist hsublist
  have htracking (id : VarId) :
      t'.session.tracker.isTracking id = t.session.tracker.isTracking id := by
    have hsteps := examineAll_steps w (t := t) fun id hid ↦ (mem_examined_iff.mp hid).1
    rw [after_of_ok hrun] at hsteps
    exact isTracking_of_noteSteps hsteps id
  refine ⟨_, t', hrun, ?_⟩
  constructor
  case exact_iff => exact fun id v ↦ by rw [Turn.mem_news_iff, hreports]
  case once => exact (nodup_examined t.session).sublist hsublist
  case ordered => exact hordered
  case ancestors_first =>
    exact (List.pairwise_map.mp hordered).imp fun hbefore ↦ hbefore.not_mem_lineage h.grown
  case noted =>
    intro id v hid hv
    rw [hcache, if_pos ((hreports id).mpr hid), Turn.shown?_eq_some_iff.mpr hv, Option.map_some,
      Option.some_or]
  case kept =>
    intro id hid
    rw [hcache]
    split
    · next hmem =>
      rcases hv : t.shown? w id with _ | v
      · rw [Option.map_none, Option.none_or]
      · exact absurd ⟨(hreports id).mp hmem, v, Turn.shown?_eq_some_iff.mp hv⟩ hid
    · rfl
  case tracking => exact KeyMap.keys_eq_of_contains htracking
  case presented => exact presented_congr hstill.bare hstill.app
  case settled =>
    obtain ⟨t'', hrun', -⟩ := examineAll_run (w := w) (hstill.isMethodFree hfree)
      (nodup_examined t'.session)
    refine ⟨t'', ?_⟩
    rw [detect_run, hrun', List.filterMap_eq_nil_iff.mpr]
    -- what is examined again was examined before, and has been put on record then
    intro id hid
    rw [mem_examined_iff, htracking, Store.isTracked_congr hstill.bare, ← mem_examined_iff] at hid
    refine Turn.news?_eq_none fun v hv ↦ ?_
    rw [hstill.shown?] at hv
    rw [hcache, if_pos hid, hv, Option.map_some, Option.some_or]

end Detecting

/-- An observer follows the name of the person, the spouse, and the name of the spouse, and the
person becomes Bart's spouse under another name. -/
def ContactBook.renamed : Turn ObjectSpace :=
  turn.run .standard [.handle "a" (.watch rootId),
    .handle "a" (.create rootId none (.ofList [("path", "name")]) (some 4) false false),
    .handle "a" (.create rootId none (.ofList [("path", "spouse")]) (some 3) false false),
    .handle "a" (.create 3 none (.ofList [("path", "name")]) (some 2) false false),
    .outside fun a ↦ a.setObject ⟨3⟩ (.object [("name", .string "Lisa"),
      ("spouse", (ObjectRef.mk 2).json)])]

theorem detect_renamed_exact :
    ContactBook.renamed.Attainable .standard ∧
      ContactBook.renamed.session.store.isMethodFree = true ∧
      ∃ changes t', detect .standard ContactBook.renamed = .ok changes t' ∧
        ContactBook.renamed.Detected .standard changes t' ∧ changes.map Change.id = [3, 4, 2] := by
  have hattainable : ContactBook.renamed.Attainable .standard := (Turn.Attainable.fresh _ _).run _
  have hfree : ContactBook.renamed.session.store.isMethodFree = true := by decide +kernel
  have hids : (match detect .standard ContactBook.renamed with
      | .ok changes _ => changes.map Change.id
      | .error .. => []) = [3, 4, 2] := by decide +kernel
  obtain ⟨changes, t', hrun, hdetected⟩ := detect_exact hattainable hfree
  rw [hrun] at hids
  exact ⟨hattainable, hfree, changes, t', hrun, hdetected, hids⟩

end ReactiveVars
