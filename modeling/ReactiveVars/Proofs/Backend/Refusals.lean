import ReactiveVars.Proofs.Backend.Operations

/-!
# What a refused message leaves behind

A turn that is cut short keeps what it has changed so far, so a refusal leaves no trace only where
it comes before the first change. Updates are always refused in time. A create is refused in time
unless it passes every check that is made before the variable exists; what is refused after that,
because the new variable cannot be presented, leaves the variable behind. A watch is refused in time
if there is no such variable. An observer is counted in before the variable is presented, so if that
fails it stays counted in, unless it was a watcher already.
-/

namespace ReactiveVars

open TurnM Relation

/-- Whether two sessions have the same variables, watchers and tracked values. They may differ in
the number that is given out next. -/
structure SessionState.Alike (s s' : SessionState) : Prop where
  entries : s.store.entries = s'.store.entries
  tally : s.tally = s'.tally
  tracker : s.tracker = s'.tracker

private theorem SessionState.Alike.contains {s s' : SessionState} (h : s.Alike s') (id : VarId) :
    s.store.contains id = s'.store.contains id := by
  rw [Store.contains, Store.get?_eq_findIn, h.entries, Store.contains, Store.get?_eq_findIn]

variable {σ : Type} [Application σ] {w : WrapperRegistry} {o : Observer} {id : VarId}
variable {t t' : Turn σ} {halt : Halt}

/-- Whether a refusal of the message comes before it has changed anything. -/
def Message.RefusedInTime (o : Observer) (t : Turn σ) : Message → Prop
  | .create parent value ps id noWatch unbound =>
    ¬ (⟨parent, value, ps, id, noWatch, unbound⟩ : CreateRequest).Passes t
  | .watch id => t.session.store.contains id = false ∨ t.session.tally.isWatching id o = true
  | _ => True

theorem contains_after_create (creator : Option Observer) {request : CreateRequest}
    (hpass : request.Passes t) :
    ((create w creator request).after t).session.store.contains
      (request.chosen t.session.store).1 = true := by
  obtain ⟨value, ps, -, hshow⟩ := create_shows w creator hpass
  rw [contains_of_showSteps hshow, SessionState.contains_registered, decide_eq_true rfl,
    Bool.true_or]

theorem create_alike_iff {creator : Option Observer} {request : CreateRequest}
    (h : create w creator request t = .error halt t') :
    t'.session.Alike t.session ↔ ¬ request.Passes t := by
  constructor
  · intro halike hpass
    have hstays := contains_after_create (w := w) creator hpass
    rw [after_of_error h, halike.contains, CreateRequest.fresh hpass.1] at hstays
    exact absurd hstays (by simp)
  · intro hnot
    obtain ⟨halt', app, hrun⟩ := create_of_not_passes w creator hnot
    rw [hrun, EStateM.Result.error.injEq] at h
    rw [← h.2]
    exact ⟨request.entries_chosen t.session.store, rfl, rfl⟩

theorem watch_alike_iff {snapshot : Bool} (h : watch w o id snapshot t = .error halt t') :
    t'.session.Alike t.session ↔ t.session.tally.isWatching id o = true := by
  rcases hp : t.presented w id with ⟨halt' | v, app⟩
  · rw [watch_of_error hp, EStateM.Result.error.injEq] at h
    rw [← h.2]
    -- the observer has been counted in ahead of the presentation that failed
    constructor
    · intro halike
      have htally : (t.session.tally.watch id o).2 = t.session.tally := halike.tally
      rw [← htally, WatchTally.isWatching_watch, decide_eq_true ⟨rfl, rfl⟩, Bool.true_or]
    · intro hw
      exact ⟨rfl, WatchTally.watch_of_isWatching hw, rfl⟩
  · rw [watch_of_ok hp] at h
    exact absurd h (by simp)

theorem update_alike {value : Option Json} {ps : Properties}
    (h : update w o id value ps t = .error halt t') : t'.session.Alike t.session := by
  have hsame (t'' : Turn σ) (ht : t''.session = t.session) : t''.session.Alike t.session := by
    rw [ht]
    exact ⟨rfl, rfl, rfl⟩
  cases hv : t.session.store.get? id with
  | none =>
    rw [update_of_unknown hv, EStateM.Result.error.injEq] at h
    exact hsame t' (by rw [← h.2])
  | some v =>
    cases he : effectiveValue t.session.store id value with
    | none =>
      rw [update_of_none hv he ps] at h
      exact absurd h (by simp)
    | some new =>
      obtain ⟨t'', -, hrun⟩ | ⟨halt', app, hrun⟩ := update_of_some (w := w) (o := o) hv he ps
      · rw [hrun] at h
        exact absurd h (by simp)
      · rw [hrun, EStateM.Result.error.injEq] at h
        exact hsame t' (by rw [← h.2])

/-- **A refused message is answered with its error, and it leaves no trace exactly if it is refused
in time.** -/
theorem handle_refused_alike_iff {m : Message} {e : SyncError}
    (h : obey w o m t = .error (.refused e) t') :
    handle w o m t = .ok () { t' with dispatch := t'.dispatch ++ [(o, e.message)] } ∧
      (t'.session.Alike t.session ↔ m.RefusedInTime o t) := by
  refine ⟨by rw [handle_run, h], ?_⟩
  -- only creates, updates and watches can be refused
  cases m with
  | create parent value ps id noWatch unbound =>
    rw [obey, bind_run] at h
    rw [Message.RefusedInTime]
    cases hc : create w (some o) ⟨parent, value, ps, id, noWatch, unbound⟩ t with
    | ok a t'' => rw [hc] at h; exact absurd h (by simp)
    | error halt t'' =>
      rw [hc, EStateM.Result.error.injEq] at h
      rw [← h.2]
      exact create_alike_iff hc
  | update id value ps => exact iff_of_true (update_alike h) trivial
  | watch id =>
    rw [obey_watch] at h
    rw [Message.RefusedInTime]
    by_cases hc : t.session.store.contains id = true
    · rw [if_pos hc] at h
      rw [watch_alike_iff h, hc]
      simp
    · rw [if_neg hc, EStateM.Result.error.injEq] at h
      rw [← h.2]
      exact iff_of_true ⟨rfl, rfl, rfl⟩ (.inl (by simpa using hc))
  | unwatch id =>
    rw [obey, unwatch_run] at h
    exact absurd h (by simp)
  | destroy id =>
    rw [obey, destroy_run] at h
    exact absurd h (by simp)
  | error => exact absurd h (by simp [obey])

/-- A request for a variable at the path of one tier. The path of the later tier, which is the one
that is stored, cannot be read; the checks look at the first. -/
def ContactBook.misplaced : Message :=
  .create rootId none (.ofList [("path", "name"), ("path:low", "a.@b")]) (some 5) false false

theorem handle_misplaced_alike_iff :
    ∃ e t', obey .standard "a" ContactBook.misplaced ContactBook.turn = .error (.refused e) t' ∧
      handle .standard "a" ContactBook.misplaced ContactBook.turn
        = .ok () { t' with dispatch := t'.dispatch ++ [("a", e.message)] } ∧
      (t'.session.Alike ContactBook.turn.session ↔
        ContactBook.misplaced.RefusedInTime "a" ContactBook.turn) :=
  ⟨_, _, rfl, handle_refused_alike_iff rfl⟩

/-- The request is refused too late: the variable stays, and its creator is a watcher of it. -/
theorem misplaced_leaves_trace :
    ∃ e t', obey .standard "a" ContactBook.misplaced ContactBook.turn = .error (.refused e) t' ∧
      t'.session.store.contains 5 = true ∧ t'.session.tally.isWatching 5 "a" = true ∧
      ¬ t'.session.Alike ContactBook.turn.session := by
  refine ⟨_, _, rfl, rfl, rfl, fun halike ↦ ?_⟩
  exact absurd (halike.contains 5) (by decide +kernel)

end ReactiveVars
