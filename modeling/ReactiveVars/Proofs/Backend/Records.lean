import ReactiveVars.Proofs.Backend.Changes
import ReactiveVars.Proofs.Backend.Coherence

/-!
# What an operation does to the values on record

The tracker keeps one text for each variable that is watched, whoever watches it: this is what is on
record. A watcher gets values of a variable from the answer to its watch, from the updates of
others, from detections, and from its own updates.

An operation either tells all watchers of a variable or leaves the record as it is. Every value is
on record when it is told, except the one that answers a watch: the first watcher puts it on record,
a later one is told what is presented to it, and the record stays.

## Main statement

* `Operation.faithful`: every operation tells the watchers what it puts on record, or leaves the
  record.
-/

namespace ReactiveVars

open TurnM Relation

/-! ## Values that observers get

An observer has a value from what it is sent, or from its own update if that is applied, for an
update is not sent back to its sender. `Operation.got?` is either. -/

/-- The value that a message carries for a variable. -/
def Message.valueOf? (id : VarId) : Message → Option Json
  | .update k value _ => if k = id then value else none
  | _ => none

/-- The last value of a variable that messages carry to an observer. -/
def Dispatch.valueFor? (d : Dispatch) (o : Observer) (id : VarId) : Option Json :=
  ((d.forObserver o).filterMap (Message.valueOf? id)).getLast?

theorem Dispatch.forObserver_append (d d' : Dispatch) (o : Observer) :
    Dispatch.forObserver (d ++ d') o = d.forObserver o ++ d'.forObserver o := by
  simp [forObserver]

section Operations

variable {σ : Type} [Application σ]

/-- What an operation sends. -/
def Operation.sent (w : WrapperRegistry) (op : Operation σ) (t : Turn σ) : Dispatch :=
  ((op.part w).after t).dispatch.drop t.dispatch.length

/-- The value that an observer has set itself, if the operation is its update and counts. -/
def Operation.applied? (w : WrapperRegistry) (t : Turn σ) (o : Observer) (id : VarId) :
    Operation σ → Option Json
  | .handle sender (.update k value ps) =>
    if sender = o ∧ k = id then
      match update w sender k value ps t with
      | .ok .. => effectiveValue t.session.store k value
      | .error .. => none
    else none
  | _ => none

/-- The value of a variable that an observer gets by an operation. -/
def Operation.got? (w : WrapperRegistry) (op : Operation σ) (t : Turn σ) (o : Observer)
    (id : VarId) : Option Json :=
  ((op.sent w t).valueFor? o id).or (op.applied? w t o id)

/-- Whether the operation is a watch of a variable that somebody watches already. -/
def Operation.joins (t : Turn σ) (id : VarId) : Operation σ → Bool
  | .handle _ (.watch k) => decide (k = id) && !(t.session.tally.watchers id).isEmpty
  | _ => false

end Operations

/-! ## Records

There is one lemma for each change of a session that may touch the tracker. A record changes when
the first watcher comes, when the last one goes or the variable is destroyed, and when a value is
noted. -/

/-- What the tracker keeps for a variable. -/
def SessionState.record (s : SessionState) (id : VarId) : Option String := s.tracker.cache.get? id

section Records

variable {s s' : SessionState} {id k : VarId} {o : Observer}

/-- The first watcher of a variable puts it on record. -/
theorem record_watched (s : SessionState) (o : Observer) (id : VarId) (v : Json)
    (k : VarId) : (s.watched o id v).record k
      = if id = k ∧ s.tally.watchers id = [] then some v.text else s.record k := by
  have hedge : (s.tally.watch id o).1.edge = true ↔ s.tally.watchers id = [] :=
    WatchTally.edge_watch_iff
  rw [SessionState.watched]
  by_cases hnil : s.tally.watchers id = []
  · rw [if_pos (hedge.mpr hnil), SessionState.record, Tracker.get?_activate]
    simp only [hnil, and_true]
    rfl
  · rw [if_neg (hnil ∘ hedge.mp), if_neg (hnil ∘ And.right)]
    rfl

theorem record_of_showSteps (h : ReflTransGen (ShowStep id) s s') (hk : id ≠ k) :
    s'.record k = s.record k := by
  induction h with
  | refl => rfl
  | tail _ hstep ih =>
    rw [← ih]
    rcases hstep with v | o | ⟨o, v⟩
    · rfl
    · rfl
    · rw [record_watched, if_neg (hk ∘ And.left)]

theorem tracker_releasedAll (s : SessionState) (ids : List VarId) :
    (s.releasedAll ids).tracker = ids.foldl Tracker.deactivate s.tracker := by
  induction ids generalizing s with
  | nil => rfl
  | cons id ids ih => exact ih (s.released id)

theorem record_unwatched (s : SessionState) (o : Observer) (id : VarId) {o' : Observer}
    (hw : (s.unwatched o id).tally.isWatching k o' = true) :
    (s.unwatched o id).record k = s.record k := by
  rw [SessionState.unwatched] at hw ⊢
  split
  · next hedge =>
    rw [if_pos hedge, SessionState.tally_released] at hw
    have hk : ¬ id = k := by
      rintro rfl
      have hnil := WatchTally.watchers_unwatch_eq_nil (WatchTally.edge_unwatch_iff.mp hedge)
      exact WatchTally.watchers_ne_nil_of_isWatching hw hnil
    rw [SessionState.record, SessionState.released, Tracker.deactivate, KeyMap.get?_erase,
      if_neg hk]
    rfl
  · rfl

theorem record_unwatchedAll (s : SessionState) (o : Observer) {o' : Observer}
    (hw : (s.unwatchedAll o).tally.isWatching k o' = true) :
    (s.unwatchedAll o).record k = s.record k := by
  rw [SessionState.unwatchedAll, SessionState.tally_releasedAll,
    WatchTally.isWatching_unwatchAll, Bool.and_eq_true, Bool.not_eq_true',
    decide_eq_false_iff_not] at hw
  rw [SessionState.unwatchedAll, SessionState.record, tracker_releasedAll,
    Tracker.get?_deactivateAll, if_neg]
  · rfl
  intro hk
  exact hw.1 ((WatchTally.mem_unwatchAll_iff.mp hk).2 o' hw.2).symm

theorem record_destroyed (s : SessionState) (id : VarId)
    (hw : (s.destroyed id).tally.isWatching k o = true) :
    (s.destroyed id).record k = s.record k := by
  rw [SessionState.destroyed, WatchTally.isWatching_forgetAll, Bool.and_eq_true,
    Bool.not_eq_true', decide_eq_false_iff_not] at hw
  rw [SessionState.record, SessionState.destroyed, Tracker.get?_deactivateAll, if_neg hw.1]
  rfl

end Records

/-! ## Each operation tells the watchers or leaves the record

For an operation that sends without looking at the record, it is shown first that what it sends is
on record afterwards (`SendsOnRecord`). This is put together along the parts of the operation, and
says nothing of who is told. -/

section Telling

variable {o : Observer} {id : VarId}

theorem valueFor?_nil : Dispatch.valueFor? [] o id = none := rfl

/-- Messages without values bring no value. -/
private theorem valueFor?_of_valueless {d : Dispatch} (h : ∀ e ∈ d, e.2.valueOf? id = none) :
    d.valueFor? o id = none := by
  have hnil : (d.forObserver o).filterMap (Message.valueOf? id) = [] := by
    rw [List.filterMap_eq_nil_iff, Dispatch.forObserver]
    intro m hm
    obtain ⟨e, he, rfl⟩ := List.mem_map.mp hm
    exact h e (List.mem_filter.mp he).1
  rw [Dispatch.valueFor?, hnil, List.getLast?_nil]

private theorem valueFor?_map (os : List Observer) (m : Message) :
    Dispatch.valueFor? (os.map fun o' ↦ (o', m)) o id
      = if o ∈ os then m.valueOf? id else none := by
  induction os with
  | nil => rfl
  | cons o' os ih =>
    rw [Dispatch.valueFor?, Dispatch.forObserver] at ih ⊢
    rw [List.map_cons, List.filter_cons]
    by_cases ho : o' = o
    · subst ho
      simp only [decide_true, if_true, List.map_cons, List.filterMap_cons, List.mem_cons_self]
      cases hm : m.valueOf? id with
      | none =>
        rw [hm, ite_self] at ih
        exact ih
      | some v =>
        rw [hm] at ih
        simp only [List.getLast?_cons, ih]
        split <;> rfl
    · simp only [decide_eq_true_eq, ho, if_false, ih, List.mem_cons, Ne.symm ho, false_or]

private theorem valueFor?_append (d d' : Dispatch) :
    (d ++ d').valueFor? o id = (d'.valueFor? o id).or (d.valueFor? o id) := by
  rw [Dispatch.valueFor?, Dispatch.forObserver, List.filter_append, List.map_append,
    List.filterMap_append, List.getLast?_append]
  rfl

private theorem valueFor?_tidings {tally : WatchTally} {news : VarId → Option Change}
    (hnews : ∀ k c, news k = some c → c.id = k) {ids : List VarId} (hnodup : ids.Nodup) :
    (tidings tally (ids.filterMap news)).valueFor? o id
      = if tally.isWatching id o = true ∧ id ∈ ids then (news id).map Change.value else none := by
  induction ids with
  | nil => simp [tidings, valueFor?_nil]
  | cons k ids ih =>
    obtain ⟨hk, hnodup⟩ := List.nodup_cons.mp hnodup
    have hrest := ih hnodup
    rw [List.filterMap_cons]
    -- there is one change of a variable at most, so no later change overrides it
    rcases hc : news k with _ | c
    · rw [hrest]
      by_cases hid : id = k
      · subst hid
        simp [hk, hc]
      · simp [hid]
    · have hcid := hnews k c hc
      have hcons : tidings tally (c :: ids.filterMap news)
          = (tally.watchers c.id).map (fun o' ↦ (o', .ofValue c.id c.value))
            ++ tidings tally (ids.filterMap news) := rfl
      rw [hcons, valueFor?_append, hrest, valueFor?_map, hcid]
      by_cases hid : id = k
      · subst hid
        simp [hk, hc, Message.valueOf?, Message.ofValue, WatchTally.mem_watchers_iff]
      · simp [hid, Message.valueOf?, Message.ofValue, Ne.symm hid]

end Telling

/-- An operation tells the watchers of a variable the value on record, or leaves the record. Only
the answer to a watch that is not the first may be off the record. -/
structure Operation.Faithful {σ : Type} [Application σ] (w : WrapperRegistry) (op : Operation σ)
    (t : Turn σ) : Prop where
  told : ∀ {o id v}, op.got? w t o id = some v → op.joins t id = false →
    ∀ r, ((op.part w).after t).session.record id = some r → r = v.text
  kept : ∀ {o id}, t.session.tally.isWatching id o = true →
    ((op.part w).after t).session.tally.isWatching id o = true → op.got? w t o id = none →
    ((op.part w).after t).session.record id = t.session.record id

section Faithful

variable {σ α : Type} [Application σ] {w : WrapperRegistry} {t : Turn σ} {op : Operation σ}

theorem sent_eq {d : Dispatch} (h : ((op.part w).after t).dispatch = t.dispatch ++ d) :
    op.sent w t = d := by
  rw [Operation.sent, h, List.drop_left]

/-- Every value that a part sends is on record in the end. -/
def SendsOnRecord (x : TurnM σ α) (t : Turn σ) : Prop :=
  ∃ d, (x.after t).dispatch = t.dispatch ++ d ∧
    ∀ o id v, d.valueFor? o id = some v → (x.after t).session.record id = some v.text

theorem record_create (hcoh : t.session.Coherent) (creator : Option Observer)
    (request : CreateRequest) {o : Observer} {id : VarId}
    (hw : t.session.tally.isWatching id o = true) :
    ((create w creator request).after t).session.record id = t.session.record id := by
  by_cases hpass : request.Passes t
  · obtain ⟨value, ps, -, hshow⟩ := create_shows w creator hpass
    have hk : (request.chosen t.session.store).1 ≠ id := by
      rintro rfl
      have hfresh := request.fresh hpass.1
      rw [hcoh.stored hw] at hfresh
      exact absurd hfresh (by simp)
    rw [record_of_showSteps hshow hk]
    rfl
  · obtain ⟨halt, app, hrun⟩ := create_of_not_passes w creator hpass
    rw [after_of_error hrun]
    rfl

theorem record_watch (o : Observer) (id : VarId) (snapshot : Bool) {o' : Observer}
    {k : VarId} (hw : t.session.tally.isWatching k o' = true) :
    ((watch w o id snapshot).after t).session.record k = t.session.record k := by
  rcases hp : t.presented w id with ⟨halt | v, app⟩
  · rw [after_of_error (watch_of_error hp snapshot)]
    rfl
  · rw [after_of_ok (watch_of_ok hp snapshot), record_watched, if_neg]
    rintro ⟨rfl, hnil⟩
    exact WatchTally.watchers_ne_nil_of_isWatching hw hnil

/-- A watch tells a value of its own variable at most. The value is on record if nobody has watched
the variable before. -/
theorem watch_sends (w : WrapperRegistry) (o : Observer) (id : VarId) (snapshot : Bool)
    (t : Turn σ) : ∃ d, ((watch w o id snapshot).after t).dispatch = t.dispatch ++ d ∧
      ∀ o' k v, d.valueFor? o' k = some v → id = k ∧ (t.session.tally.watchers id = [] →
        ((watch w o id snapshot).after t).session.record id = some v.text) := by
  rcases hp : t.presented w id with ⟨halt | v, app⟩
  · refine ⟨[], ?_, by simp [valueFor?_nil]⟩
    rw [after_of_error (watch_of_error hp snapshot), List.append_nil]
  · have hafter := after_of_ok (watch_of_ok (o := o) hp snapshot)
    refine ⟨snapshotTo t.session.store o id v snapshot, by rw [hafter], fun o' k v' hv' ↦ ?_⟩
    rcases snapshot with _ | _
    · exact absurd hv' (by simp [snapshotTo, valueFor?_nil])
    · have hone : (snapshotTo t.session.store o id v true).valueFor? o' k
          = if o' ∈ [o] then if id = k then some v else none else none :=
        valueFor?_map [o] (.update id (some v) (t.session.store.propertiesOf id))
      rw [hone] at hv'
      obtain ⟨-, hv'⟩ := Option.ite_none_right_eq_some.mp hv'
      obtain ⟨hk, hv'⟩ := Option.ite_none_right_eq_some.mp hv'
      refine ⟨hk, fun hnil ↦ ?_⟩
      rw [hafter, record_watched, if_pos ⟨rfl, hnil⟩, Option.some_inj.mp hv']

omit [Application σ] in
private theorem sendsOnRecord_of_silent {x : TurnM σ α} {d : Dispatch}
    (hd : (x.after t).dispatch = t.dispatch ++ d)
    (hvalue : ∀ id, ∀ e ∈ d, e.2.valueOf? id = none) : SendsOnRecord x t := by
  refine ⟨d, hd, fun o id v hv ↦ ?_⟩
  rw [valueFor?_of_valueless (hvalue id)] at hv
  exact absurd hv (by simp)

/-- A message about a whole variable, which is no update, may be sent ahead. -/
private theorem sendsOnRecord_createMessage {id : VarId} {noWatch : Bool} {f : Message → TurnM σ α}
    (h : ∀ u v app, t.session.store.get? id = some u →
      SendsOnRecord (f (u.announcement v noWatch)) { t with
        session := { t.session with store := t.session.store.keep id v }, app := app }) :
    SendsOnRecord (createMessage w id noWatch >>= f) t := by
  rcases hp : t.presented w id with ⟨halt | v, app⟩
  · refine sendsOnRecord_of_silent (d := []) ?_ (by simp)
    rw [after_bind, createMessage_of_error hp, List.append_nil]
  · obtain ⟨u, hu⟩ := Store.contains_iff.mp (contains_of_presented hp)
    have hf := h u v app hu
    rw [SendsOnRecord, after_bind, createMessage_of_ok hp hu]
    exact hf

private theorem sendsOnRecord_watch {x : TurnM σ α} {o : Observer} {id : VarId} {snapshot : Bool}
    {d : Dispatch} {t' : Turn σ} (hx : x.after t = (watch w o id snapshot).after t')
    (hd : t'.dispatch = t.dispatch ++ d) (hvalue : ∀ k, ∀ e ∈ d, e.2.valueOf? k = none)
    (hnil : t'.session.tally.watchers id = []) : SendsOnRecord x t := by
  obtain ⟨d', hd', hrecord⟩ := watch_sends w o id snapshot t'
  refine ⟨d ++ d', by rw [hx, hd', hd, List.append_assoc], fun o' k v hv ↦ ?_⟩
  rw [valueFor?_append, valueFor?_of_valueless (hvalue k), Option.or_none] at hv
  obtain ⟨rfl, hfirst⟩ := hrecord o' k v hv
  rw [hx, hfirst hnil]

private theorem introduce_sends (creator : Option Observer) (request : CreateRequest) {id : VarId}
    (ps : Properties) (hnil : t.session.tally.watchers id = []) :
    SendsOnRecord (introduce w creator request id ps) t := by
  rcases creator with _ | o
  · rw [introduce, announce]
    refine sendsOnRecord_createMessage fun u v app _ ↦ ?_
    refine sendsOnRecord_of_silent (d := (t.session.tally.watchers request.parent).map
      fun o ↦ (o, u.announcement v false)) rfl fun k e he ↦ ?_
    obtain ⟨o, -, rfl⟩ := List.mem_map.mp he
    rfl
  · rw [introduce, answerCreator]
    -- the number is told before the creator is counted in, and the value with the watch
    by_cases hid : request.id.isNone = true
    · rw [if_pos hid]
      refine sendsOnRecord_createMessage fun u v app _ ↦ ?_
      rcases hno : request.noWatch with _ | _
      · refine sendsOnRecord_watch (d := [(o, u.announcement v false)]) rfl rfl ?_ hnil
        intro k e he
        rw [List.mem_singleton.mp he]
        rfl
      · refine sendsOnRecord_of_silent (d := [(o, u.announcement v true)]) rfl ?_
        intro k e he
        rw [List.mem_singleton.mp he]
        rfl
    · rw [if_neg hid]
      rcases request.noWatch with _ | _
      · exact sendsOnRecord_watch (d := []) rfl (List.append_nil _).symm (by simp) hnil
      · exact sendsOnRecord_of_silent (d := []) (List.append_nil _).symm (by simp)

/-- A create tells values on record only: its variable is new, so its creator is the first that
watches it. -/
theorem create_sends (hcoh : t.session.Coherent) (creator : Option Observer)
    (request : CreateRequest) : SendsOnRecord (create w creator request) t := by
  obtain ⟨hpass, ps, value, app, -, hreg⟩ | ⟨-, halt, app, hreg⟩ := register_run request t
  · have hnil : t.session.tally.watchers (request.chosen t.session.store).1 = [] := by
      rw [WatchTally.watchers_eq_nil_iff]
      intro o
      rw [← Bool.not_eq_true]
      intro hw
      exact absurd (hcoh.stored hw) (by rw [request.fresh hpass.1]; simp)
    have hsends := introduce_sends (w := w) (t := { t with
      session := t.session.registered request value ps, app := app }) creator request ps hnil
    have hafter : (create w creator request).after t
        = (introduce w creator request (request.chosen t.session.store).1 ps).after { t with
          session := t.session.registered request value ps, app := app } := by
      rw [create_eq, after_bind, hreg]
      exact after_discard _ _ _
    rw [SendsOnRecord, hafter]
    exact hsends
  · refine sendsOnRecord_of_silent (d := []) ?_ (by simp)
    rw [after_of_error (create_of_register_error hreg), List.append_nil]

private theorem dispatch_handle (w : WrapperRegistry) (o : Observer) (m : Message) (t : Turn σ) :
    ∃ d, ((handle w o m).after t).dispatch = ((obey w o m).after t).dispatch ++ d ∧
      ∀ id, ∀ e ∈ d, e.2.valueOf? id = none := by
  obtain hsame | ⟨e, t', -, hmore⟩ := dispatch_handle_cases w o m t
  · exact ⟨[], by rw [hsame, List.append_nil], by simp⟩
  · refine ⟨[(o, e.message)], hmore, fun id e' he' ↦ ?_⟩
    rw [List.mem_singleton.mp he']
    rfl

private theorem valueFor?_sent_handle {o : Observer} {m : Message} {d : Dispatch}
    (hd : ((obey w o m).after t).dispatch = t.dispatch ++ d) (o' : Observer) (id : VarId) :
    ((Operation.handle o m).sent w t).valueFor? o' id = d.valueFor? o' id := by
  obtain ⟨extra, hextra, hvalue⟩ := dispatch_handle w o m t
  rw [hd, List.append_assoc] at hextra
  have hsent : (Operation.handle o m).sent w t = d ++ extra := sent_eq hextra
  rw [hsent, valueFor?_append, valueFor?_of_valueless (hvalue id), Option.none_or]

theorem SendsOnRecord.handle {o : Observer} {m : Message} (h : SendsOnRecord (obey w o m) t) :
    SendsOnRecord (handle w o m) t := by
  obtain ⟨d, hd, hrecord⟩ := h
  obtain ⟨extra, hextra, hvalue⟩ := dispatch_handle w o m t
  refine ⟨d ++ extra, by rw [hextra, hd, List.append_assoc], fun o' id v hv ↦ ?_⟩
  rw [valueFor?_append, valueFor?_of_valueless (hvalue id), Option.none_or] at hv
  rw [session_handle, hrecord o' id v hv]

/-! ## Faithful operations

It remains to see that nobody is passed over: where a record changes, all watchers are told. Updates
and detections do change records, and both go to the list of the watchers. A create changes the
record of its own variable only, and a watch only that of a variable which nobody else watches. -/

theorem faithful_of_sends (hsends : SendsOnRecord (op.part w) t)
    (happlied : ∀ o id, op.applied? w t o id = none)
    (hrecord : ∀ o id, t.session.tally.isWatching id o = true →
      ((op.part w).after t).session.tally.isWatching id o = true →
      ((op.part w).after t).session.record id = t.session.record id) : op.Faithful w t := by
  obtain ⟨d, hd, hsent⟩ := hsends
  refine ⟨fun {o id v} hgot _ r hr ↦ ?_, fun {o id} hw hw' _ ↦ hrecord o id hw hw'⟩
  rw [Operation.got?, sent_eq hd, happlied, Option.or_none] at hgot
  rw [hsent o id v hgot] at hr
  exact (Option.some_inj.mp hr).symm

/-- A message is obeyed faithfully if that sends on record and leaves the records of what stays
watched. -/
theorem faithful_handle_of_sends {o : Observer} {m : Message}
    (hsends : SendsOnRecord (obey w o m) t)
    (happlied : ∀ o' id, (Operation.handle o m).applied? w t o' id = none)
    (hrecord : ∀ o' id, t.session.tally.isWatching id o' = true →
      ((obey w o m).after t).session.tally.isWatching id o' = true →
      ((obey w o m).after t).session.record id = t.session.record id) :
    (Operation.handle o m).Faithful w t := by
  refine faithful_of_sends hsends.handle happlied ?_
  rw [Operation.part, session_handle]
  exact hrecord

private theorem valueFor?_relays (s : SessionState) (o o' : Observer) (id k : VarId) (new : Json)
    (ps : Properties) : (relays s o id (some new) ps).valueFor? o' k
      = if s.tally.isWatching id o' = true ∧ o' ≠ o ∧ id = k then some new else none := by
  rw [relays, Option.isSome_some, Bool.true_or, if_pos rfl, valueFor?_map, Message.valueOf?]
  simp only [List.mem_filter, WatchTally.mem_watchers_iff, decide_eq_true_eq]
  by_cases hk : id = k <;> simp [hk]

theorem got?_update {o : Observer} {id : VarId} {value : Option Json} {new : Json}
    {ps : Properties} {t' : Turn σ} (he : effectiveValue t.session.store id value = some new)
    (hrun : update w o id value ps t = .ok () t')
    (hd : t'.dispatch = t.dispatch ++ relays t.session o id (some new) ps) (o' : Observer)
    (k : VarId) : (Operation.handle o (.update id value ps)).got? w t o' k
      = if id = k ∧ (o = o' ∨ t.session.tally.isWatching id o' = true) then some new
        else none := by
  rw [Operation.got?, valueFor?_sent_handle (by rw [obey_update, after_of_ok hrun, hd]),
    valueFor?_relays, Operation.applied?, hrun]
  simp only [he]
  by_cases ho : o = o'
  · by_cases hk : id = k <;> simp [ho, hk]
  · by_cases hk : id = k <;> simp [ho, Ne.symm ho, hk]

omit [Application σ] in
theorem record_updated {id : VarId} {v : Variable} {new : Json} {t' : Turn σ}
    (hwritten : WrittenTo v t t') (ps : Properties) (k : VarId) :
    (t'.session.updated id (some new) ps).record k
      = if id = k then (t.session.record k).map fun _ ↦ new.text else t.session.record k := by
  have htracker : t'.session.tracker = t.session.tracker := by
    rcases hwritten with app | ⟨app, u, value', hfound, hliteral⟩ <;> rfl
  rw [SessionState.record, SessionState.updated, Option.map_some, Option.getD_some, htracker,
    Tracker.remember, KeyMap.get?_modify]
  rfl

section Updates

variable {o : Observer} {id : VarId} {value : Option Json} {ps : Properties}

theorem faithful_update_of_error {halt : Halt} {t' : Turn σ}
    (hrun : update w o id value ps t = .error halt t') (hsession : t'.session = t.session)
    (hdispatch : t'.dispatch = t.dispatch) :
    (Operation.handle o (.update id value ps)).Faithful w t := by
  have hafter : (obey w o (.update id value ps)).after t = t' := by
    rw [obey_update, after_of_error hrun]
  refine faithful_handle_of_sends (sendsOnRecord_of_silent (d := []) ?_ (by simp))
    (fun o' k ↦ ?_) fun o' k _ _ ↦ ?_
  · rw [hafter, hdispatch, List.append_nil]
  · rw [Operation.applied?, hrun]
    split <;> rfl
  · rw [hafter, hsession]

theorem faithful_update_of_none {v : Variable} (hv : t.session.store.get? id = some v)
    (he : effectiveValue t.session.store id value = none) :
    (Operation.handle o (.update id value ps)).Faithful w t := by
  have hrun := update_of_none (w := w) (o := o) hv he ps
  have hafter := after_of_ok hrun
  rw [← obey_update] at hafter
  refine faithful_handle_of_sends
    (sendsOnRecord_of_silent (d := relays t.session o id none ps) ?_ fun k e hmem ↦ ?_)
    (fun o' k ↦ ?_) fun o' k _ _ ↦ ?_
  · rw [hafter]
  · rw [relays] at hmem
    split at hmem
    · obtain ⟨o', -, rfl⟩ := List.mem_map.mp hmem
      exact ite_self _
    · exact absurd hmem (by simp)
  · rw [Operation.applied?, hrun, he]
    split <;> rfl
  · rw [hafter]
    rfl

theorem faithful_update_of_written {v : Variable} {new : Json} {t' : Turn σ}
    (he : effectiveValue t.session.store id value = some new) (hwritten : WrittenTo v t t')
    (hrun : update w o id value ps t = .ok () { t' with
      session := t'.session.updated id (some new) ps
      dispatch := t.dispatch ++ relays t.session o id (some new) ps }) :
    (Operation.handle o (.update id value ps)).Faithful w t := by
  have hrecord (k : VarId) : ((handle w o (.update id value ps)).after t).session.record k
      = if id = k then (t.session.record k).map fun _ ↦ new.text else t.session.record k := by
    rw [session_handle, obey_update, after_of_ok hrun]
    exact record_updated hwritten ps k
  refine ⟨fun {o' k v'} hgot _ r hr ↦ ?_, fun {o' k} hw _ hnone ↦ ?_⟩
  · rw [got?_update he hrun rfl] at hgot
    obtain ⟨hk, hgot⟩ := Option.ite_none_right_eq_some.mp hgot
    rw [Operation.part, hrecord, if_pos hk.1, Option.map_eq_some_iff] at hr
    obtain ⟨-, -, rfl⟩ := hr
    rw [Option.some_inj.mp hgot]
  · -- who watches the variable gets the value, so another variable is meant
    have hk : ¬ id = k := by
      rintro rfl
      rw [got?_update he hrun rfl, if_pos ⟨rfl, .inr hw⟩] at hnone
      exact absurd hnone (by simp)
    rw [Operation.part, hrecord, if_neg hk]

theorem faithful_update (w : WrapperRegistry) (o : Observer) (id : VarId)
    (value : Option Json)
    (ps : Properties) (t : Turn σ) : (Operation.handle o (.update id value ps)).Faithful w t := by
  rcases hv : t.session.store.get? id with _ | v
  · exact faithful_update_of_error (update_of_unknown hv value ps) rfl rfl
  rcases he : effectiveValue t.session.store id value with _ | new
  · exact faithful_update_of_none hv he
  obtain ⟨t', hwritten, hrun⟩ | ⟨halt, app, hrun⟩ := update_of_some (w := w) (o := o) hv he ps
  · exact faithful_update_of_written he hwritten hrun
  · exact faithful_update_of_error hrun rfl rfl

end Updates

/-- A watch tells what is on record unless it joins earlier ones, and leaves the record then. -/
theorem faithful_watch (w : WrapperRegistry) (o : Observer) (id : VarId) (t : Turn σ) :
    (Operation.handle o (.watch id)).Faithful w t := by
  by_cases hc : t.session.store.contains id = true
  · have hafter : (obey w o (.watch id)).after t = (watch w o id true).after t := by
      rw [after, obey_watch, if_pos hc, after]
    obtain ⟨d, hd, hsent⟩ := watch_sends w o id true t
    refine ⟨fun {o' k v} hgot hjoins r hr ↦ ?_, fun {o' k} hw _ _ ↦ ?_⟩
    · rw [Operation.got?, valueFor?_sent_handle (by rw [hafter, hd])] at hgot
      obtain ⟨rfl, hfirst⟩ := hsent o' k v ((Option.or_none).symm.trans hgot)
      rw [Operation.joins, decide_eq_true rfl, Bool.true_and, Bool.not_eq_false',
        List.isEmpty_iff] at hjoins
      rw [Operation.part, session_handle, hafter, hfirst hjoins] at hr
      exact (Option.some_inj.mp hr).symm
    · rw [Operation.part, session_handle, hafter, record_watch o id true hw]
  · have hafter : (obey w o (.watch id)).after t = t := by
      rw [after, obey_watch, if_neg hc]
    refine faithful_handle_of_sends (sendsOnRecord_of_silent (d := []) ?_ (by simp))
      (fun _ _ ↦ rfl) fun _ _ _ _ ↦ ?_
    · rw [hafter, List.append_nil]
    · rw [hafter]

private theorem valueless_farewells (s : SessionState) (requester : Option Observer)
    (k id : VarId) : ∀ e ∈ farewells s requester k, e.2.valueOf? id = none := by
  rw [farewells]
  split
  · intro e he
    obtain ⟨o, -, rfl⟩ := List.mem_map.mp he
    rfl
  · simp

omit [Application σ] in
private theorem destroy_sends (requester : Option Observer) (id : VarId) (t : Turn σ) :
    SendsOnRecord (destroy requester id) t := by
  refine sendsOnRecord_of_silent ?_ (valueless_farewells t.session requester id)
  rw [after_of_ok (destroy_run requester id t)]

theorem faithful_handle (hcoh : t.session.Coherent) (o : Observer) (m : Message) :
    (Operation.handle o m).Faithful w t := by
  rcases m with ⟨parent, value, ps, id, noWatch, unbound⟩ | ⟨id, value, ps⟩ | id | id | id | _
  · have hafter : (obey w o (.create parent value ps id noWatch unbound)).after t
        = (create w (some o) ⟨parent, value, ps, id, noWatch, unbound⟩).after t := by
      rw [obey, after_discard]
    refine faithful_handle_of_sends ?_ (fun _ _ ↦ rfl) fun o' k hw _ ↦ ?_
    · rw [SendsOnRecord, hafter]
      exact create_sends hcoh (some o) _
    · rw [hafter]
      exact record_create hcoh (some o) _ hw
  · exact faithful_update w o id value ps t
  · exact faithful_watch w o id t
  · have hafter := after_of_ok (unwatch_run o id t)
    refine faithful_handle_of_sends (sendsOnRecord_of_silent (d := []) ?_ (by simp))
      (fun _ _ ↦ rfl) fun o' k _ hw ↦ ?_
    · rw [obey, hafter, List.append_nil]
    · rw [obey, hafter] at hw ⊢
      exact record_unwatched t.session o id hw
  · refine faithful_handle_of_sends (destroy_sends (some o) id t) (fun _ _ ↦ rfl)
      fun o' k _ hw ↦ ?_
    rw [obey, after_of_ok (destroy_run (some o) id t)] at hw ⊢
    exact record_destroyed t.session id hw
  · refine faithful_handle_of_sends (sendsOnRecord_of_silent (d := []) ?_ (by simp))
      (fun _ _ ↦ rfl) fun _ _ _ _ ↦ rfl
    exact (List.append_nil _).symm

end Faithful

section ObjectSpace

variable {w : WrapperRegistry} {t : Turn ObjectSpace}

theorem Turn.id_of_news? {id : VarId} {c : Change} (h : t.news? w id = some c) : c.id = id := by
  obtain ⟨v, -, hv⟩ := Option.bind_eq_some_iff.mp h
  rw [(Tracker.change?_eq_some_iff.mp hv).2]

theorem faithful_detectChanges (hfree : t.session.store.isMethodFree = true) :
    (Operation.detectChanges : Operation ObjectSpace).Faithful w t := by
  obtain ⟨t', hrun, -, htally, -, hdispatch, hcache⟩ :=
    detectChanges_run_of_methodFree (w := w) hfree
  have hafter : (Operation.detectChanges.part w).after t = t' := by
    rw [Operation.part, after_discard, after_of_ok hrun]
  -- watchers of examined variables get the news, and nobody gets anything else
  have hgot (o : Observer) (id : VarId) : Operation.detectChanges.got? w t o id
      = if t.session.tally.isWatching id o = true ∧ id ∈ t.session.examined then
          (t.news? w id).map Change.value else none := by
    rw [Operation.got?, sent_eq (by rw [hafter, hdispatch]),
      valueFor?_tidings (fun _ _ h ↦ Turn.id_of_news? h) (nodup_examined t.session)]
    exact Option.or_none
  refine ⟨fun {o id v} hv _ r hr ↦ ?_, fun {o id} hw _ hnone ↦ ?_⟩
  · rw [hgot] at hv
    rw [hafter, SessionState.record, hcache] at hr
    split at hv
    · next hid =>
      obtain ⟨c, hc, rfl⟩ := Option.map_eq_some_iff.mp hv
      obtain ⟨u, hu, hchange⟩ := Option.bind_eq_some_iff.mp hc
      rw [if_pos hid.2, hu, Option.map_some, Option.some_or, Option.some_inj] at hr
      rw [(Tracker.change?_eq_some_iff.mp hchange).2, hr]
    · exact absurd hv (by simp)
  · rw [hgot] at hnone
    rw [hafter, SessionState.record, hcache, SessionState.record]
    split
    · next hid =>
      rw [if_pos ⟨hw, hid⟩, Option.map_eq_none_iff] at hnone
      rcases hu : t.shown? w id with _ | u
      · rw [Option.map_none, Option.none_or]
      · -- what is presented without being news is on record already
        rw [Option.map_some, Option.some_or]
        by_contra hne
        rw [Turn.news?, hu, Option.bind_some, Tracker.change?, Tracker.isNews,
          if_pos (decide_eq_true (Ne.symm hne))] at hnone
        exact absurd hnone (by simp)
    · rfl

/-- **Every operation tells the watchers or leaves the record.** -/
theorem Operation.faithful (hcoh : t.session.Coherent)
    (hfree : t.session.store.isMethodFree = true) (op : Operation ObjectSpace) :
    op.Faithful w t := by
  rcases op with ⟨o, m⟩ | ⟨creator, request⟩ | ⟨requester, id⟩ | o | _ | f
  · exact faithful_handle hcoh o m
  · have hafter : ((Operation.create creator request).part w).after t
        = (ReactiveVars.create w creator request).after t := by
      rw [part, after_discard]
    refine faithful_of_sends ?_ (fun _ _ ↦ rfl) fun o k hw _ ↦ ?_
    · rw [SendsOnRecord, hafter]
      exact create_sends hcoh creator request
    · rw [hafter]
      exact record_create hcoh creator request hw
  · refine faithful_of_sends (destroy_sends requester id t) (fun _ _ ↦ rfl) fun o k _ hw ↦ ?_
    rw [part, after_of_ok (destroy_run requester id t)] at hw ⊢
    exact record_destroyed t.session id hw
  · have hafter : ((Operation.unwatchAll o).part w).after t
        = { t with session := t.session.unwatchedAll o } := by
      rw [part, after_discard, after_of_ok (unwatchAll_run o t)]
    refine faithful_of_sends (sendsOnRecord_of_silent (d := []) ?_ (by simp)) (fun _ _ ↦ rfl)
      fun o' k _ hw ↦ ?_
    · rw [hafter, List.append_nil]
    · rw [hafter] at hw ⊢
      exact record_unwatchedAll t.session o hw
  · exact faithful_detectChanges hfree
  · refine faithful_of_sends (sendsOnRecord_of_silent (d := []) ?_ (by simp)) (fun _ _ ↦ rfl)
      fun _ _ _ _ ↦ rfl
    exact (List.append_nil _).symm

end ObjectSpace

end ReactiveVars
