import ReactiveVars.Proofs.Session.Turns

/-!
# What a session delivers

A session is run by events: observers come, send batches and go, the backend works on its own
account, the application changes by itself, and time passes for all batchers or for one. What each
observer gets is compared with the messages that turns have had for it since it came.

## Main statement

* `run_delivers`: as long as the application has not crashed, every batcher accounts for all
  messages that turns have had for its observer, and a user event is answered at once.
-/

namespace ReactiveVars

open TurnM

namespace Session

variable {σ : Type}

/-- Something that happens to a session. -/
inductive Event (σ : Type) where
  | connect (o : Observer)
  | receive (now : Nat) (o : Observer) (b : Batch)
  | disconnect (now : Nat) (o : Observer)
  | createVariable (now : Nat) (parent : VarId) (value : Json) (ps : Properties)
  | destroyVariable (now : Nat) (id : VarId)
  | setValue (now : Nat) (id : VarId) (value : Json)
  | refresh (now : Nat)
  /-- The application changes by itself. -/
  | outside (f : σ → σ)
  /-- All timers are looked after. -/
  | expire (now : Nat)
  /-- The timer of one observer is looked after. -/
  | expireOne (now : Nat) (o : Observer)

variable [Application σ]

/-- The session after an event. -/
def Event.after (s : Session σ) : Event σ → Session σ
  | .connect o => s.connect o
  | .receive now o b => (s.receive now o b).2
  | .disconnect now o => (s.disconnect now o).2
  | .createVariable now parent value ps => (s.createVariable now parent value ps).2
  | .destroyVariable now id => (s.destroyVariable now id).2
  | .setValue now id value => (s.setValue now id value).2
  | .refresh now => (s.refresh now).2
  | .outside f => (s.withApplication fun app ↦ (some (), f app)).2
  | .expire now => s.expire now
  | .expireOne now o =>
    { s with connections := s.connections.modify o fun b ↦ b.expire now }

/-- The session after events in order. -/
def run (s : Session σ) (es : List (Event σ)) : Session σ := es.foldl Event.after s

/-- The messages that the turn of an event has for observers. -/
def Event.dispatch (s : Session σ) : Event σ → Dispatch
  | .receive _ o b => s.dispatchOf (receiveBatch s.wrappers o b)
  | .disconnect _ o => s.dispatchOf (unwatchAll o)
  | .createVariable _ parent value ps =>
    s.dispatchOf (create s.wrappers none ⟨parent, some value, ps, none, false, false⟩)
  | .destroyVariable _ id => s.dispatchOf (destroy none id)
  | .setValue _ id value =>
    match s.state.store.update id (some value) .empty with
    | .ok store =>
      { s with state := { s.state with store := store } }.dispatchOf (detectChanges s.wrappers)
    | .error _ => []
  | .refresh _ => s.dispatchOf (detectChanges s.wrappers)
  | _ => []

/-- The messages for an observer since it came, with those of a further event. -/
def Event.posted (s : Session σ) (old : Observer → List Message) (e : Event σ) (o : Observer) :
    List Message :=
  match e with
  | .connect k => if k = o then [] else old o
  | e => old o ++ (e.dispatch s).forObserver o

/-- The messages for an observer since it came, with those of further events in order. -/
def posted (s : Session σ) (old : Observer → List Message) : List (Event σ) →
    Observer → List Message
  | [] => old
  | e :: es => posted (e.after s) (e.posted s old) es

/-! ## The batchers

`Feeds` says of every batcher that it was fed what has been posted for its observer. The events are
taken one by one: only those with a turn post something, and an observer that comes back starts
anew. -/

/-- Every batcher was handed the messages for its observer. -/
def Feeds (s : Session σ) (posted : Observer → List Message) : Prop :=
  ∀ o b, s.connections.get? o = some b → b.Fed (posted o)

variable {s : Session σ} {old : Observer → List Message}

omit [Application σ] in
theorem Feeds.runTurn {α : Type} (h : s.Feeds old) {x : TurnM σ α} (hx : x.RefusesUnsent)
    {now : Nat} {userEvent : Bool}
    (alive : (s.runTurn now userEvent x).2.executor.owned.isSome = true) :
    (s.runTurn now userEvent x).2.Feeds fun o ↦ old o ++ (s.dispatchOf x).forObserver o := by
  intro o b hb
  rw [get?_runTurn hx alive, Option.map_eq_some_iff] at hb
  obtain ⟨b₀, hb₀, rfl⟩ := hb
  exact (h o b₀ hb₀).deliver now userEvent _

theorem receive_snd (s : Session σ) (now : Nat) (o : Observer) (b : Batch) :
    (s.receive now o b).2 = ((if b.userEvent then s else s.armFor now o).runTurn now b.userEvent
      (receiveBatch s.wrappers o b)).2 := by
  have hwrappers : (if b.userEvent then s else s.armFor now o).wrappers = s.wrappers := by
    split <;> rfl
  rw [receive]
  simp only [hwrappers]
  split <;> next h => rw [h]

theorem setValue_snd (s : Session σ) (now : Nat) (id : VarId) (value : Json) :
    (s.setValue now id value).2 = match s.state.store.update id (some value) .empty with
      | .ok store => ({ s with state := { s.state with store := store } }.refresh now).2
      | .error _ => s := by
  rw [setValue]
  cases s.state.store.update id (some value) .empty with
  | error e => rfl
  | ok store =>
    simp only
    split <;> next h => rw [h]

omit [Application σ] in
/-- What is done with the batcher of an observer, whatever was handed to it. -/
theorem Feeds.modify (h : s.Feeds old) (o : Observer) {f : Batcher → Batcher}
    (hf : ∀ b ms, b.Fed ms → (f b).Fed ms) :
    Feeds { s with connections := s.connections.modify o f } old := by
  intro k b hb
  rw [KeyMap.get?_modify] at hb
  split at hb
  · obtain ⟨b₀, hb₀, rfl⟩ := Option.map_eq_some_iff.mp hb
    exact hf b₀ (old k) (h k b₀ hb₀)
  · exact h k b hb

omit [Application σ] in
theorem Feeds.expire (h : s.Feeds old) (now : Nat) : (s.expire now).Feeds old := by
  intro o b hb
  rw [Session.expire, KeyMap.get?_filterMap, Option.bind_eq_some_iff] at hb
  obtain ⟨b₀, hb₀, hb⟩ := hb
  rw [← Option.some_inj.mp hb]
  exact (h o b₀ hb₀).expire now

omit [Application σ] in
theorem Feeds.connect (h : s.Feeds old) (k : Observer) :
    (s.connect k).Feeds fun o ↦ if k = o then [] else old o := by
  intro o b hb
  rw [Session.connect, KeyMap.get?_insert] at hb
  simp only
  split at hb
  · next hk =>
    rw [if_pos hk, ← Option.some_inj.mp hb]
    exact .new s.window
  · next hk =>
    rw [if_neg hk]
    exact h o b hb

theorem Feeds.receive (h : s.Feeds old) {now : Nat} {k : Observer} {batch : Batch}
    (alive : (s.receive now k batch).2.executor.owned.isSome = true) :
    (s.receive now k batch).2.Feeds fun o ↦
      old o ++ (s.dispatchOf (receiveBatch s.wrappers k batch)).forObserver o := by
  rw [receive_snd] at alive ⊢
  have hdispatch : (if batch.userEvent then s else s.armFor now k).dispatchOf
      (receiveBatch s.wrappers k batch) = s.dispatchOf (receiveBatch s.wrappers k batch) := by
    split <;> rfl
  have harmed : (if batch.userEvent then s else s.armFor now k).Feeds old := by
    split
    · exact h
    · exact h.modify k fun _ _ hfed ↦ hfed.arm now
  rw [← hdispatch]
  exact harmed.runTurn (neverRefused_receiveBatch _ _ _).refusesUnsent alive

omit [Application σ] in
theorem Feeds.erase (h : s.Feeds old) (k : Observer) :
    Feeds { s with connections := s.connections.erase k } old := by
  intro o b hb
  rw [KeyMap.get?_erase] at hb
  split at hb
  · exact absurd hb (by simp)
  · exact h o b hb

omit [Application σ] in
theorem Feeds.disconnect (h : s.Feeds old) {now : Nat} {k : Observer}
    (alive : (s.disconnect now k).2.executor.owned.isSome = true) :
    (s.disconnect now k).2.Feeds fun o ↦
      old o ++ (s.dispatchOf (unwatchAll k)).forObserver o :=
  (h.erase k).runTurn (neverRefused_of_ok fun t ↦ ⟨_, _, unwatchAll_run k t⟩).refusesUnsent alive

/-- An event without a turn hands nothing over. -/
theorem Feeds.silent {e : Event σ} (h : (e.after s).Feeds old) (hdispatch : e.dispatch s = [])
    (hposted : e.posted s old = fun o ↦ old o ++ (e.dispatch s).forObserver o) :
    (e.after s).Feeds (e.posted s old) := by
  have hnone (o : Observer) : old o ++ Dispatch.forObserver [] o = old o := List.append_nil _
  rw [hposted, hdispatch]
  simpa only [hnone] using h

theorem Feeds.setValue (h : s.Feeds old) {now : Nat} {id : VarId} {value : Json}
    (alive : (s.setValue now id value).2.executor.owned.isSome = true) :
    (s.setValue now id value).2.Feeds ((Event.setValue now id value).posted s old) := by
  cases hstore : s.state.store.update id (some value) .empty with
  | error e =>
    refine Feeds.silent (e := .setValue now id value) ?_ (by rw [Event.dispatch, hstore]) rfl
    rw [Event.after, setValue_snd, hstore]
    exact h
  | ok store =>
    have hposted : Event.posted s old (.setValue now id value) = fun o ↦
        old o ++ ((Event.setValue now id value).dispatch s).forObserver o := rfl
    have hstored : Feeds { s with state := { s.state with store := store } } old := h
    rw [hposted, Event.dispatch, hstore]
    rw [setValue_snd, hstore] at alive ⊢
    exact hstored.runTurn (neverRefused_detectChanges _).refusesUnsent alive

/-- **Every event keeps the batchers fed**, unless it crashes the application. -/
theorem Feeds.after (h : s.Feeds old) (e : Event σ)
    (alive : (e.after s).executor.owned.isSome = true) : (e.after s).Feeds (e.posted s old) := by
  cases e with
  | connect k => exact h.connect k
  | receive now k batch => exact h.receive alive
  | disconnect now k => exact h.disconnect alive
  | createVariable now parent value ps => exact h.runTurn (refusesUnsent_create _ _) alive
  | destroyVariable now id =>
    exact h.runTurn (neverRefused_of_ok fun t ↦ ⟨_, _, destroy_run none id t⟩).refusesUnsent alive
  | setValue now id value => exact h.setValue alive
  | refresh now => exact h.runTurn (neverRefused_detectChanges _).refusesUnsent alive
  | outside f =>
    have hconnections : (s.withApplication fun app ↦ (some (), f app)).2.connections
        = s.connections := rfl
    refine Feeds.silent (fun o b hb ↦ h o b ?_) rfl rfl
    rwa [Event.after, hconnections] at hb
  | expire now => exact Feeds.silent (h.expire now) rfl rfl
  | expireOne now k =>
    exact Feeds.silent (h.modify k fun _ _ hfed ↦ hfed.expire now) rfl rfl

private theorem isSome_of_after (e : Event σ) (alive : (e.after s).executor.owned.isSome = true) :
    s.executor.owned.isSome = true := by
  rw [← Bool.not_eq_false, Option.isSome_eq_false_iff, Option.isNone_iff_eq_none]
  intro hdead
  have hturn {α : Type} (s : Session σ) (hdead : s.executor.owned = none) (now : Nat)
      (userEvent : Bool) (x : TurnM σ α) :
      (s.runTurn now userEvent x).2.executor.owned = none := by
    rw [runTurn, perform, hdead]
    exact hdead
  have hnone : (e.after s).executor.owned = none := by
    -- events whose work is a turn find no application to run it on
    cases e with
    | receive now o b =>
      rw [Event.after, receive_snd]
      refine hturn _ ?_ _ _ _
      split <;> exact hdead
    | disconnect now o =>
      exact hturn { s with connections := s.connections.erase o } hdead _ _ _
    | createVariable now parent value ps => exact hturn s hdead _ _ _
    | destroyVariable now id => exact hturn s hdead _ _ _
    | setValue now id value =>
      rw [Event.after, setValue_snd]
      cases s.state.store.update id (some value) .empty with
      | error e => exact hdead
      | ok store =>
        exact hturn { s with state := { s.state with store := store } } hdead _ _ _
    | refresh now => exact hturn s hdead _ _ _
    | outside f =>
      rw [Event.after, withApplication, Executor.execute, hdead]
      exact hdead
    | _ => exact hdead
  rw [hnone] at alive
  exact absurd alive (by simp)

private theorem isSome_of_run {es : List (Event σ)}
    (alive : (s.run es).executor.owned.isSome = true) : s.executor.owned.isSome = true := by
  induction es generalizing s with
  | nil => exact alive
  | cons e es ih => exact isSome_of_after e (ih alive)

theorem Feeds.run (h : s.Feeds old) {es : List (Event σ)}
    (alive : (s.run es).executor.owned.isSome = true) : (s.run es).Feeds (s.posted old es) := by
  induction es generalizing s old with
  | nil => exact h
  | cons e es ih => exact ih (h.after e (isSome_of_run alive)) alive

/-! ## What observers get -/

/-- What a session delivers of the messages that turns have had for observers. -/
structure Delivers (s : Session σ) (posted : Observer → List Message) : Prop where
  /-- What has been sent and what waits are the pieces of the messages, each once. -/
  complete : ∀ o b, s.connections.get? o = some b →
    (b.sent.flatMap Batch.messages ++ b.waiting.toList).Perm
      (((posted o).flatMap Message.pieces).map Prod.snd)
  /-- They leave in an order that parcels account for. -/
  accounts : ∀ o b, s.connections.get? o = some b →
    ∃ parcels, b.Accounts ((posted o).flatMap Message.pieces) parcels
  /-- A create leaves alone at the moment it is posted, and what waits goes on waiting. -/
  immediate : ∀ o b, s.connections.get? o = some b → ∀ now m, m.isImmediate = true →
    (s.post now o m).connections.get? o = some (b.send ⟨false, [m]⟩)
  /-- After a user event nothing waits for those who are told something, and nothing has changed
  for the others. -/
  answered : ∀ now o batch, batch.userEvent = true →
    (s.receive now o batch).2.executor.owned.isSome = true →
    ∀ k b, s.connections.get? k = some b →
      ∃ b', (s.receive now o batch).2.connections.get? k = some b' ∧
        if ((Event.receive now o batch).dispatch s).forObserver k = [] then b' = b
        else b'.pending = 0

theorem answered_of_userEvent {batch : Batch} (huser : batch.userEvent = true) {now : Nat}
    {o : Observer} (alive : (s.receive now o batch).2.executor.owned.isSome = true) {k : Observer}
    {b : Batcher} (hb : s.connections.get? k = some b) :
    ∃ b', (s.receive now o batch).2.connections.get? k = some b' ∧
      if ((Event.receive now o batch).dispatch s).forObserver k = [] then b' = b
      else b'.pending = 0 := by
  rw [receive_snd, huser, if_pos rfl] at alive ⊢
  rw [get?_runTurn (neverRefused_receiveBatch _ _ _).refusesUnsent alive, hb, Option.map_some]
  refine ⟨_, rfl, ?_⟩
  rw [Event.dispatch]
  split
  · next hnone => rw [hnone, b.deliver_nil]
  · next hsome =>
    rw [Batcher.deliver, if_pos (by simpa using hsome), Batcher.flush]
    split <;> rfl

/-- **A session loses, duplicates and misroutes nothing** as long as no method crashes the
application. -/
theorem run_delivers (label : String) (window : Nat) (wrappers : WrapperRegistry) (app : σ)
    (es : List (Event σ))
    (alive : ((new label window wrappers app).run es).executor.owned.isSome = true) :
    ((new label window wrappers app).run es).Delivers
      ((new label window wrappers app).posted (fun _ ↦ []) es) := by
  have hfeeds : ((new label window wrappers app).run es).Feeds
      ((new label window wrappers app).posted (fun _ ↦ []) es) := by
    refine Feeds.run (fun o b hb ↦ ?_) alive
    exact absurd hb (by simp [new])
  refine ⟨fun o b hb ↦ ?_, fun o b hb ↦ (hfeeds o b hb).accounts, fun o b hb now m hm ↦ ?_,
    fun now o batch huser halive k b hb ↦ answered_of_userEvent huser halive hb⟩
  · obtain ⟨parcels, haccounts⟩ := (hfeeds o b hb).accounts
    -- the tiers of the parcels are erased to compare them with what was sent
    have hsent : b.sent.flatMap Batch.messages = (parcels.flatMap Parcel.pieces).map Prod.snd := by
      rw [haccounts.sent, List.flatMap_map, List.map_flatMap]
      rfl
    rw [hsent, ← TierQueue.map_snd_tagged, ← List.map_append]
    exact haccounts.perm.map Prod.snd
  · rw [get?_post, hb, Option.map_some, if_pos rfl]
    cases m with
    | create parent value ps id noWatch unbound => rfl
    | _ => exact absurd hm (by simp [Message.isImmediate])

end Session

namespace ContactBook

/-- A session over the contact book. -/
def session : Session ObjectSpace := .new "S1" 10 .standard space

/-- An observer begins to watch the root, which gets a child on the backend's own account before the
answer has left; then the observer asks for something that is not there. -/
def overtaking : List (Session.Event ObjectSpace) := [
  .connect "a",
  .receive 0 "a" ⟨false, [.watch rootId]⟩,
  .createVariable 1 rootId (.string "x") .empty,
  .receive 2 "a" ⟨true, [.watch 99]⟩]

/-- The events keep the application alive, and what they deliver is accounted for. -/
theorem run_delivers_overtaking :
    (session.run overtaking).executor.owned.isSome = true ∧
      (session.run overtaking).Delivers (session.posted (fun _ ↦ []) overtaking) := by
  have alive : (session.run overtaking).executor.owned.isSome = true := by decide +kernel
  exact ⟨alive, Session.run_delivers "S1" 10 .standard space overtaking alive⟩

/-- A create leaves ahead of an update of the same tier that was dispatched before it. -/
theorem create_overtakes_update :
    (session.run overtaking).executor.owned.isSome = true ∧
    ((session.posted (fun _ ↦ []) overtaking "a").flatMap Message.pieces).map
        (fun p ↦ (p.1, p.2.kind))
      = [(.medium, "update"), (.medium, "create"), (.medium, "error")] ∧
    ((session.run overtaking).connections.get? "a").map
        (fun b ↦ (b.sent.map fun batch ↦ batch.messages.map Message.kind, b.pending))
      = some ([["create"], ["update", "error"]], 0) := by
  decide +kernel

end ContactBook

end ReactiveVars
