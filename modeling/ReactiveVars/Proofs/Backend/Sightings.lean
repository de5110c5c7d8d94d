import ReactiveVars.Proofs.Backend.Records
import ReactiveVars.Proofs.Json.Texts

/-!
# What the watchers of a variable have seen

Whether a detection tells a watcher anything depends on what is on record for the variable, which is
one text for all watchers. So the question is whether the value that a watcher has is the one on
record.

A *sighting* is the latest value that an observer has of a variable it watches, together with what
was on record when it got it. As every operation tells the watchers or leaves the record, a sighting
stays as far off the record as it was at the start.

## Main statement

* `Sightings.current_iff`: after a detection, what an observer has of a tracked variable is the
  presented value exactly if it was on record when the observer got it.
-/

namespace ReactiveVars

open TurnM Relation

/-! ## Sightings -/

section Operations

variable {σ : Type} [Application σ]

/-- The latest value that an observer has of a variable. -/
structure Sighting where
  value : Json
  /-- What the tracker kept for the variable when the observer had got the value. -/
  record : Option String
  /-- Whether the value answered a watch of a variable that was watched already. -/
  joined : Bool

/-- The sightings of all observers. -/
abbrev Sightings := Observer → VarId → Option Sighting

/-- Nobody has seen anything. -/
def Sightings.none : Sightings := fun _ _ ↦ .none

/-- The sightings after an operation: an observer has the latest value it got while it watches. -/
def Sightings.after (seen : Sightings) (w : WrapperRegistry) (op : Operation σ) (t : Turn σ) :
    Sightings := fun o id ↦
  if ((op.part w).after t).session.tally.isWatching id o then
    match op.got? w t o id with
    | some v => some ⟨v, ((op.part w).after t).session.record id, op.joins t id⟩
    | .none => seen o id
  else .none

/-- The sightings after operations in order. -/
def Sightings.along (seen : Sightings) (w : WrapperRegistry) (t : Turn σ) :
    List (Operation σ) → Sightings
  | [] => seen
  | op :: ops => (seen.after w op t).along w ((op.part w).after t) ops

end Operations

/-! ## Sightings and records

The invariant compares each sighting with the record at its time and now: either both have changed
together, or neither has. That is what `Operation.faithful` says of one operation. -/

section ObjectSpace

variable {w : WrapperRegistry} {t : Turn ObjectSpace}

/-- A sighting stays as far off the record as it was at the start, and only the answer to a watch
that was not the first is off the record at all. -/
structure Sightings.Sound (seen : Sightings) (t : Turn ObjectSpace) : Prop where
  watching : ∀ {o id k}, seen o id = some k → t.session.tally.isWatching id o = true
  recorded : ∀ {o id k}, seen o id = some k → t.session.record id = k.record
  unjoined : ∀ {o id k}, seen o id = some k → k.joined = false →
    ∀ r, k.record = some r → r = k.value.text

private theorem Sightings.sound_none (t : Turn ObjectSpace) : Sightings.none.Sound t where
  watching h := absurd h (by simp [none])
  recorded h := absurd h (by simp [none])
  unjoined h := absurd h (by simp [none])

theorem Sightings.Sound.after {seen : Sightings} (h : seen.Sound t) {op : Operation ObjectSpace}
    (hf : op.Faithful w t) : (seen.after w op t).Sound ((op.part w).after t) := by
  -- a sighting is of this operation, or it is an older one and nothing has come since
  have hcases {o : Observer} {id : VarId} {k : Sighting} (hk : seen.after w op t o id = some k) :
      ((op.part w).after t).session.tally.isWatching id o = true ∧
        ((∃ v, op.got? w t o id = some v ∧
          k = ⟨v, ((op.part w).after t).session.record id, op.joins t id⟩) ∨
        op.got? w t o id = .none ∧ seen o id = some k) := by
    rw [Sightings.after] at hk
    split at hk
    · next hw =>
      refine ⟨hw, ?_⟩
      split at hk
      · next v hv => exact .inl ⟨v, hv, (Option.some_inj.mp hk).symm⟩
      · next hnone => exact .inr ⟨hnone, hk⟩
    · exact absurd hk (by simp)
  refine ⟨fun hk ↦ (hcases hk).1, fun hk ↦ ?_, fun hk hjoined r hr ↦ ?_⟩
  · obtain ⟨hw, ⟨v, -, rfl⟩ | ⟨hnone, hseen⟩⟩ := hcases hk
    · rfl
    · rw [hf.kept (h.watching hseen) hw hnone, h.recorded hseen]
  · obtain ⟨-, ⟨v, hgot, rfl⟩ | ⟨-, hseen⟩⟩ := hcases hk
    · exact hf.told hgot hjoined r hr
    · exact h.unjoined hseen hjoined r hr

/-- Whether no stored path calls a method at any time of a run. -/
def Turn.staysMethodFree (w : WrapperRegistry) (t : Turn ObjectSpace) :
    List (Operation ObjectSpace) → Bool
  | [] => t.session.store.isMethodFree
  | op :: ops => t.session.store.isMethodFree && ((op.part w).after t).staysMethodFree w ops

theorem Sightings.Sound.along {seen : Sightings} (h : seen.Sound t) (hreach : t.Reachable w)
    {ops : List (Operation ObjectSpace)} (hfree : t.staysMethodFree w ops = true) :
    (seen.along w t ops).Sound (t.run w ops) ∧
      (t.run w ops).session.store.isMethodFree = true := by
  induction ops generalizing t seen with
  | nil => exact ⟨h, hfree⟩
  | cons op ops ih =>
    rw [Turn.staysMethodFree, Bool.and_eq_true] at hfree
    exact ih (h.after (op.faithful hreach.coherent hfree.1)) (hreach.step op) hfree.2

private theorem record_of_detected (hfree : t.session.store.isMethodFree = true)
    {t' : Turn ObjectSpace}
    (ht' : (Operation.detectChanges.part w).after t = t') {id : VarId} {v : Json}
    (htracking : t'.session.tracker.isTracking id = true)
    (htracked : t'.session.store.isTracked id = true) (hv : (t'.presented w id).1 = .ok v) :
    t'.session.record id = some v.text := by
  obtain ⟨t'', hrun, hbare, -, happ, -, hcache⟩ := detectChanges_run_of_methodFree (w := w) hfree
  rw [Operation.part, after_discard, after_of_ok hrun] at ht'
  subst ht'
  rw [presented_congr hbare happ, ← Turn.shown?_eq_some_iff] at hv
  rw [Store.isTracked_congr hbare] at htracked
  have hexamined : id ∈ t.session.examined := by
    by_contra hnot
    have hsame := hcache id
    rw [if_neg hnot] at hsame
    rw [Tracker.isTracking, KeyMap.contains, hsame] at htracking
    exact hnot (mem_examined_iff.mpr ⟨htracking, htracked⟩)
  rw [SessionState.record, hcache, if_pos hexamined, hv, Option.map_some, Option.some_or]

private theorem Sightings.along_append (seen : Sightings) (t : Turn ObjectSpace)
    (ops ops' : List (Operation ObjectSpace)) :
    seen.along w t (ops ++ ops') = (seen.along w t ops).along w (t.run w ops) ops' := by
  induction ops generalizing seen t with
  | nil => rfl
  | cons op ops ih => exact ih (seen.after w op t) _

/-- **After a detection, the latest value that an observer has of a tracked variable is the
presented value exactly if it was on record when the observer got it.** Otherwise it answered a
watch of a variable that was watched already. -/
theorem Sightings.current_iff (w : WrapperRegistry) (root : Json) (app : ObjectSpace)
    (ops : List (Operation ObjectSpace))
    (hfree : (Turn.fresh root app).staysMethodFree w ops = true)
    {o : Observer} {id : VarId} {k : Sighting} {v : Json} {t : Turn ObjectSpace}
    (ht : (Turn.fresh root app).run w (ops ++ [.detectChanges]) = t)
    (hk : Sightings.none.along w (.fresh root app) (ops ++ [.detectChanges]) o id = some k)
    (htracking : t.session.tracker.isTracking id = true)
    (htracked : t.session.store.isTracked id = true) (hv : (t.presented w id).1 = .ok v) :
    (k.value = v ↔ k.record = some k.value.text) ∧ (k.value ≠ v → k.joined = true) := by
  obtain ⟨hsound, hfree'⟩ :=
    (sound_none (Turn.fresh root app)).along (Turn.Reachable.fresh root app) hfree
  have hreach := (Turn.Reachable.fresh root app).run (w := w) ops
  rw [Turn.run_append] at ht
  rw [along_append] at hk
  have hsound' := hsound.after (w := w)
    (Operation.faithful hreach.coherent hfree' .detectChanges)
  -- the presented value is on record now, and so it was when the observer got what it has
  have hrecord := record_of_detected hfree' ht htracking htracked hv
  have hpresent : k.record = some v.text := by
    rw [← hsound'.recorded hk, ← hrecord, ← ht]
    rfl
  refine ⟨?_, fun hne ↦ ?_⟩
  · rw [hpresent, Option.some_inj]
    constructor
    · rintro rfl
      rfl
    · intro htext
      exact (Json.text_injective htext).symm
  · rw [← Bool.not_eq_false]
    intro hjoined
    exact hne (Json.text_injective (hsound'.unjoined hk hjoined v.text hpresent)).symm

end ObjectSpace

/-- One observer watches the name of the person. Another one renames the person by an alias before
and after it watches the name too. -/
def ContactBook.nameRun : List (Operation ObjectSpace) :=
  [.handle "a" (.watch rootId),
    .handle "a" (.create rootId none (.ofList [("path", "name")]) (some 2) false false),
    .detectChanges,
    .handle "b" (.create rootId none (.ofList [("path", "name")]) (some 3) true false),
    .handle "b" (.update 3 (some (.string "Bart")) .empty), .handle "b" (.watch 2),
    .handle "b" (.update 3 (some (.string "Homer")) .empty)]

/-- What the run and a detection leave behind. -/
def ContactBook.named : Turn ObjectSpace := turn.run .standard (nameRun ++ [.detectChanges])

/-- What is seen after the run and a detection. -/
def ContactBook.nameSeen : Sightings :=
  Sightings.none.along .standard turn (nameRun ++ [.detectChanges])

theorem current_nameSeen_iff :
    ∃ k v, ContactBook.nameSeen "a" 2 = some k ∧
      (ContactBook.named.presented .standard 2).1 = .ok v ∧
      (k.value = v ↔ k.record = some k.value.text) ∧ (k.value ≠ v → k.joined = true) := by
  have hseen : (ContactBook.nameSeen "a" 2).isSome = true := by decide +kernel
  have hshown : (ContactBook.named.shown? .standard 2).isSome = true := by decide +kernel
  obtain ⟨k, hk⟩ := Option.isSome_iff_exists.mp hseen
  obtain ⟨v, hv⟩ := Option.isSome_iff_exists.mp hshown
  rw [Turn.shown?_eq_some_iff] at hv
  exact ⟨k, v, hk, hv, Sightings.current_iff .standard _ _ ContactBook.nameRun (by decide +kernel)
    rfl hk (by decide +kernel) (by decide +kernel) hv⟩

/-- What an observer got by a watch that was not the first stays behind. -/
theorem nameSeen_stale :
    ContactBook.turn.staysMethodFree .standard ContactBook.nameRun = true ∧
      ContactBook.named.session.tracker.isTracking 2 = true ∧
      ContactBook.named.session.store.isTracked 2 = true ∧
      ∃ k v, ContactBook.nameSeen "b" 2 = some k ∧ k.value.text = "\"Bart\"" ∧
        (ContactBook.named.presented .standard 2).1 = .ok v ∧ v.text = "\"Homer\"" := by
  have hseen : (ContactBook.nameSeen "b" 2).map (fun k ↦ k.value.text) = some "\"Bart\"" := by
    decide +kernel
  have hshown : (ContactBook.named.shown? .standard 2).map Json.text = some "\"Homer\"" := by
    decide +kernel
  obtain ⟨k, hk, hkv⟩ := Option.map_eq_some_iff.mp hseen
  obtain ⟨v, hv, hvv⟩ := Option.map_eq_some_iff.mp hshown
  rw [Turn.shown?_eq_some_iff] at hv
  exact ⟨by decide +kernel, by decide +kernel, by decide +kernel, k, v, hk, hkv, hv, hvv⟩

end ReactiveVars
