import ReactiveVars.Proofs.Backend.Parts

/-!
# What change detection does

Detection goes through variables that are tracked. Each that can be presented keeps its presented
value and is noted with it; the change is told when all of them have been gone through. Noting a
value that is no news changes nothing, so what is noted does not depend on what is reported.
-/

namespace ReactiveVars

open TurnM Relation

variable {σ : Type} [Application σ] {w : WrapperRegistry} {id : VarId} {t : Turn σ}

/-! ## Examining

The three equations are the three ways in which presenting can end. A refusal goes on with the next
variable, a crash of the application ends the detection. -/

/-- The session after a presented value has been noted. -/
def SessionState.noted (s : SessionState) (id : VarId) (v : Json) : SessionState :=
  { s with store := s.store.keep id v, tracker := s.tracker.activate id v }

/-- The change that a presented value amounts to. -/
def Tracker.change? (t : Tracker) (id : VarId) (v : Json) : Option Change :=
  if t.isNews id v then some ⟨id, v⟩ else none

private theorem Tracker.activate_eq_self {t : Tracker} {v : Json} (h : t.isNews id v = false) :
    t.activate id v = t := by
  rw [isNews, decide_eq_false_iff_not, Decidable.not_not] at h
  rw [activate, KeyMap.insert_eq_self h]

theorem examine_of_ok {v : Json} {app : σ} (h : t.presented w id = (.ok v, app)) :
    examine w id t = .ok (t.session.tracker.change? id v)
      { t with session := t.session.noted id v, app := app } := by
  simp only [examine, bind_run, attempt, present_of_ok h, tracker_run, Tracker.change?,
    SessionState.noted]
  cases hn : t.session.tracker.isNews id v with
  | true => rfl
  | false => rw [Tracker.activate_eq_self hn]; rfl

theorem examine_of_refused {e : SyncError} {app : σ}
    (h : t.presented w id = (.error (.refused e), app)) :
    examine w id t = .ok none { t with app := app } := by
  simp only [examine, bind_run, attempt, present_of_error h, pure_run]

theorem examine_of_crashed {app : σ} (h : t.presented w id = (.error .crashed, app)) :
    examine w id t = .error .crashed { t with app := app } := by
  simp only [examine, bind_run, attempt, present_of_error h]

theorem examineAll_cons_run (w : WrapperRegistry) (id : VarId) (ids : List VarId) (t : Turn σ) :
    examineAll w (id :: ids) t = match examine w id t with
      | .error halt t' => .error halt t'
      | .ok change t' => match examineAll w ids t' with
        | .error halt t'' => .error halt t''
        | .ok changes t'' => .ok (change.toList ++ changes) t'' := by
  rw [examineAll, bind_run]
  cases examine w id t with
  | error halt t' => rfl
  | ok change t' =>
    simp only [bind_run, pure_run]
    cases examineAll w ids t' <;> rfl

/-! ## Telling -/

/-- What the watchers are sent when changes are told. -/
def tidings (tally : WatchTally) (changes : List Change) : Dispatch :=
  changes.flatMap fun c ↦ (tally.watchers c.id).map fun o ↦ (o, .ofValue c.id c.value)

theorem mem_tidings_iff {tally : WatchTally} {changes : List Change} {e : Observer × Message} :
    e ∈ tidings tally changes ↔
      ∃ c ∈ changes, tally.isWatching c.id e.1 = true ∧ e.2 = .ofValue c.id c.value := by
  rw [tidings, List.mem_flatMap]
  refine exists_congr fun c ↦ and_congr_right fun _ ↦ ?_
  rw [List.mem_map, ← WatchTally.mem_watchers_iff]
  constructor
  · rintro ⟨o, ho, rfl⟩
    exact ⟨ho, rfl⟩
  · rintro ⟨ho, hm⟩
    exact ⟨e.1, ho, by rw [← hm]⟩

omit [Application σ] in
private theorem tellChanges_run (changes : List Change) (t : Turn σ) :
    tellChanges changes t
      = .ok () { t with dispatch := t.dispatch ++ tidings t.session.tally changes } := by
  induction changes generalizing t with
  | nil => simp [tellChanges, tidings]
  | cons change changes ih =>
    simp only [tellChanges, bind_run, tally_run, sendAll_run, ih]
    simp [tidings]

theorem detectChanges_run (w : WrapperRegistry) (t : Turn σ) :
    detectChanges w t = match examineAll w t.session.examined t with
      | .error halt t' => .error halt t'
      | .ok changes t' => .ok changes.length
          { t' with dispatch := t'.dispatch ++ tidings t'.session.tally changes } := by
  simp only [detectChanges, detect, bind_run, get_run]
  cases examineAll w t.session.examined t with
  | error halt t' => rfl
  | ok changes t' => simp only [tellChanges_run, pure_run]

/-- A detection goes through the variables, and then sends the tidings of the changes that it has
found there; one that is cut short sends none. -/
theorem detectChanges_after (w : WrapperRegistry) (t : Turn σ) : ∃ changes : List Change,
    (detectChanges w).after t = { (examineAll w t.session.examined).after t with
      dispatch := ((examineAll w t.session.examined).after t).dispatch ++
        tidings ((examineAll w t.session.examined).after t).session.tally changes } ∧
    ∀ c ∈ changes, ∃ found t', examineAll w t.session.examined t = .ok found t' ∧ c ∈ found := by
  have hrun := detectChanges_run w t
  rcases hexamined : examineAll w t.session.examined t with ⟨changes, t'⟩ | ⟨halt, t'⟩
  · simp only [hexamined] at hrun
    refine ⟨changes, ?_, fun c hc ↦ ⟨changes, t', rfl, hc⟩⟩
    rw [after_of_ok hrun, after_of_ok hexamined]
  · simp only [hexamined] at hrun
    refine ⟨[], ?_, by simp⟩
    rw [after_of_error hrun, after_of_error hexamined, tidings, List.flatMap_nil, List.append_nil]

/-! ## The order of a detection

Variables are inserted by rank one after another. The result has the same variables as before, which
is all that is needed here. -/

theorem perm_insertByRank (rank : VarId → Nat) (id : VarId) (ids : List VarId) :
    (insertByRank rank id ids).Perm (id :: ids) := by
  induction ids with
  | nil => exact .refl _
  | cons k ids ih =>
    rw [insertByRank]
    split
    · exact .refl _
    · exact (ih.cons k).trans (.swap id k ids)

theorem perm_sortByRank (rank : VarId → Nat) (ids : List VarId) :
    (sortByRank rank ids).Perm ids := by
  induction ids with
  | nil => exact .refl _
  | cons id ids ih => exact (perm_insertByRank rank id _).trans (ih.cons id)

/-- What is examined are the variables that are on record and tracked. -/
private theorem perm_examined (s : SessionState) :
    s.examined.Perm (s.tracker.cache.keys.filter s.store.isTracked) := perm_sortByRank _ _

theorem mem_examined_iff {s : SessionState} : id ∈ s.examined ↔
    s.tracker.isTracking id = true ∧ s.store.isTracked id = true := by
  rw [(perm_examined s).mem_iff, List.mem_filter, KeyMap.mem_keys_iff]
  exact Iff.rfl

theorem nodup_examined (s : SessionState) : s.examined.Nodup :=
  (perm_examined s).nodup_iff.mpr (s.tracker.cache.nodup_keys.filter _)

/-! ## Steps of a detection

For invariants it is enough that a detection notes one variable after another, each with some value.
Which value it is does not matter to them. -/

/-- A step of a detection: a presented value of a tracked variable is noted. -/
inductive NoteStep (s : SessionState) : SessionState → Prop
  | note (id : VarId) (v : Json) (tracked : s.tracker.isTracking id = true) :
    NoteStep s (s.noted id v)

theorem NoteStep.isTracking {s s' : SessionState} (h : NoteStep s s') (k : VarId) :
    s'.tracker.isTracking k = s.tracker.isTracking k := by
  obtain ⟨id, v, hid⟩ := h
  rw [Tracker.isTracking] at hid ⊢
  rw [SessionState.noted, Tracker.activate, KeyMap.contains_insert, Tracker.isTracking]
  by_cases hk : id = k
  · subst hk; simp [hid]
  · simp [hk]

theorem isTracking_of_noteSteps {s s' : SessionState} (h : ReflTransGen NoteStep s s')
    (k : VarId) : s'.tracker.isTracking k = s.tracker.isTracking k := by
  induction h with
  | refl => rfl
  | tail _ hstep ih => rw [hstep.isTracking, ih]

theorem examine_steps (w : WrapperRegistry) (h : t.session.tracker.isTracking id = true) :
    ReflTransGen NoteStep t.session ((examine w id).after t).session := by
  rcases hp : t.presented w id with ⟨(e | _) | v, app⟩
  · rw [after_of_ok (examine_of_refused hp)]
  · rw [after_of_error (examine_of_crashed hp)]
  · rw [after_of_ok (examine_of_ok hp)]
    exact .single (.note id v h)

theorem examineAll_steps (w : WrapperRegistry) {ids : List VarId} {t : Turn σ}
    (h : ∀ id ∈ ids, t.session.tracker.isTracking id = true) :
    ReflTransGen NoteStep t.session ((examineAll w ids).after t).session := by
  induction ids generalizing t with
  | nil => exact .refl
  | cons id ids ih =>
    rw [List.forall_mem_cons] at h
    have hexamine := examine_steps w h.1
    rw [examineAll]
    refine after_bind_steps hexamine fun change t' ht' ↦ ?_
    rw [after_of_ok ht'] at hexamine
    refine after_bind_steps (ih fun k hk ↦ ?_) fun changes t'' _ ↦ .refl
    rw [isTracking_of_noteSteps hexamine, h.2 k hk]

theorem detectChanges_steps (w : WrapperRegistry) (t : Turn σ) :
    ReflTransGen NoteStep t.session ((detectChanges w).after t).session := by
  have h := examineAll_steps w (t := t) fun id hid ↦ (mem_examined_iff.mp hid).1
  rw [detectChanges]
  refine after_bind_steps h fun changes t' _ ↦ ?_
  rw [after_bind, tellChanges_run]
  exact .refl

end ReactiveVars
