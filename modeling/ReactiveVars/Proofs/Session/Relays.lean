import ReactiveVars.Proofs.Backend.Orders
import ReactiveVars.Proofs.Session.Deliveries

/-!
# What a session puts on its connections is decodable

All values in a session are in order, whatever payloads come in: those that are decoded are, and
turns keep them so. Hence a batch that leaves is a piece of data that the wire can carry in
principle, and only two things in its values can keep the other side from reading back just this
batch: arrays and objects that nest too deep for the room that the batch leaves them, and doubles
that are not read back from their texts.

Neither is a matter of how the values came in. A message by itself takes fewer levels than a batch,
a path puts one value inside another, and wrappers make new values; so a session can be brought to
send what it would not accept itself.

## Main statement

* `relayed_decodable_iff`: which of the batches that a session has sent are decodable.
-/

namespace ReactiveVars

open TurnM

/-! ## Pieces in order

A batcher takes messages apart, and its pieces must be in order for the batch that is put together
from them. -/

namespace Message

private theorem value?_of_mem_pieces {m : Message} {p : Tier × Message} (hp : p ∈ m.pieces) :
    ∀ v ∈ p.2.value?, v ∈ m.value? := by
  intro v hv
  rcases m with _ | ⟨id, value, ps⟩ | _ | _ | _ | _
  case update =>
    rw [pieces] at hp
    split at hp
    · rw [List.mem_singleton.mp hp] at hv
      exact absurd hv (by simp [value?])
    · obtain ⟨t, -, ht⟩ := List.mem_filterMap.mp hp
      rw [updatePiece?_eq_some ht] at hv
      exact (Option.ite_none_right_eq_some.mp hv).2
  all_goals
    rw [List.mem_singleton.mp hp] at hv
    exact hv

theorem Ordered.of_mem_pieces {m : Message} (h : m.Ordered) {p : Tier × Message}
    (hp : p ∈ m.pieces) : p.2.Ordered := fun v hv ↦ h v (value?_of_mem_pieces hp v hv)

end Message

private theorem Batch.forall_mem_ordered {b : Batch} (h : ∀ m ∈ b.messages, m.Ordered) :
    ∀ m ∈ b.ordered, m.Ordered := by
  intro m hm
  obtain ⟨t, -, ht⟩ := List.mem_flatMap.mp hm
  obtain ⟨p, hp, rfl⟩ := List.mem_map.mp ht
  obtain ⟨m', hm', hpiece⟩ := List.mem_flatMap.mp (List.mem_of_mem_filter hp)
  exact (h m' hm').of_mem_pieces hpiece

/-! ## Sessions in order

There is one lemma for each event. A crash of the application leaves the session without one, and
what was put on the connections before is still in order. -/

namespace Session

variable {σ α : Type} [Application σ] {I : σ → Prop} {s : Session σ}

omit [Application σ] in
private theorem deliver_eq (s : Session σ) (now : Nat) (userEvent : Bool) (d : Dispatch) :
    ∃ connections, s.deliver now userEvent d = { s with connections := connections } := by
  have hposted : ∃ connections, s.postAll now d = { s with connections := connections } := by
    induction d generalizing s with
    | nil => exact ⟨s.connections, rfl⟩
    | cons e d ih =>
      obtain ⟨connections, h⟩ := ih (s.post now e.1 e.2)
      exact ⟨connections, h⟩
  obtain ⟨connections, h⟩ := hposted
  rw [deliver, h]
  split
  · exact ⟨_, rfl⟩
  · exact ⟨_, rfl⟩

/-- Whether all values in a session are in order, in a state of the application from which this will
stay so. -/
structure Orderly (I : σ → Prop) (s : Session σ) : Prop where
  wrappers : s.wrappers.Orderly
  app : ∀ app ∈ s.executor.owned, I app
  store : s.state.store.Orderly
  /-- The batchers were handed messages in order. -/
  connections : ∃ posted, s.Feeds posted ∧ ∀ o, ∀ m ∈ posted o, m.Ordered

/-- Whether what an event brings into a session is in order: a batch is one that was decoded. -/
def Event.Orderly (I : σ → Prop) : Event σ → Prop
  | .receive _ _ b => ∃ payload, Batch.decode payload = .ok b
  | .createVariable _ _ value _ | .setValue _ _ value => value.Ordered
  | .outside f => ∀ app, I app → I (f app)
  | _ => True

namespace Orderly

omit [Application σ] in
theorem deliver (h : s.Orderly I) (now : Nat) (userEvent : Bool) {d : Dispatch}
    (hd : ∀ e ∈ d, e.2.Ordered) : (s.deliver now userEvent d).Orderly I := by
  have hconnections := get?_deliver s now userEvent d
  obtain ⟨connections, hdeliver⟩ := deliver_eq s now userEvent d
  rw [hdeliver] at hconnections ⊢
  obtain ⟨posted, hfeeds, hposted⟩ := h.connections
  refine ⟨h.wrappers, h.app, h.store, fun o ↦ posted o ++ d.forObserver o, fun o b hb ↦ ?_,
    fun o ↦ ?_⟩
  · rw [hconnections, Option.map_eq_some_iff] at hb
    obtain ⟨b₀, hb₀, rfl⟩ := hb
    exact (hfeeds o b₀ hb₀).deliver now userEvent _
  · refine List.forall_mem_append.mpr ⟨hposted o, List.forall_mem_map.mpr fun e he ↦ ?_⟩
    exact hd e (List.mem_of_mem_filter he)

omit [Application σ] in
/-- **A turn keeps a session in order**, also if it is refused or crashes the application. -/
theorem runTurn (h : s.Orderly I) {x : TurnM σ α} {Q : α → Prop} (hx : x.Keeps I Q) (now : Nat)
    (userEvent : Bool) : (s.runTurn now userEvent x).2.Orderly I := by
  rw [Session.runTurn, perform]
  rcases howned : s.executor.owned with _ | app
  · exact h
  have hrun : x.run ⟨s.state, app, []⟩ = x ⟨s.state, app, []⟩ := rfl
  have hturn := (hx ⟨s.state, app, []⟩ ⟨h.app app howned, h.store, List.forall_mem_nil _⟩).1
  simp only [hrun]
  rcases hresult : x ⟨s.state, app, []⟩ with ⟨a, t⟩ | ⟨e | -, t⟩
  · -- what the turn has sent is handed over; a turn that is refused hands nothing over
    rw [after_of_ok hresult] at hturn
    have hs : Orderly I { s with state := t.session, executor := .new t.app } := by
      refine ⟨h.wrappers, ?_, hturn.store, h.connections⟩
      rintro _ ⟨⟩
      exact hturn.app
    exact hs.deliver now userEvent hturn.dispatch
  · rw [after_of_error hresult] at hturn
    refine ⟨h.wrappers, ?_, hturn.store, h.connections⟩
    rintro _ ⟨⟩
    exact hturn.app
  · rw [after_of_error hresult] at hturn
    exact ⟨h.wrappers, fun _ happ ↦ absurd happ (by simp), hturn.store, h.connections⟩

omit [Application σ] in
theorem reconnect (h : s.Orderly I) {connections : KeyMap Observer Batcher}
    {kept : (Observer → List Message) → Observer → List Message}
    (hfeeds : ∀ posted, s.Feeds posted → Feeds { s with connections := connections } (kept posted))
    (hkept : ∀ posted o, kept posted o ⊆ posted o) :
    Orderly I { s with connections := connections } := by
  obtain ⟨posted, hposted, hordered⟩ := h.connections
  exact ⟨h.wrappers, h.app, h.store, kept posted, hfeeds posted hposted,
    fun o m hm ↦ hordered o m (hkept posted o hm)⟩

omit [Application σ] in
theorem connect (h : s.Orderly I) (o : Observer) : (s.connect o).Orderly I := by
  refine h.reconnect (fun _ hposted ↦ hposted.connect o) fun posted k ↦ ?_
  split
  · exact List.nil_subset _
  · exact List.Subset.refl _

theorem receive (hI : Application.Orderly I) (h : s.Orderly I) (now : Nat) (o : Observer)
    {b : Batch} (hb : ∀ m ∈ b.messages, m.Ordered) : (s.receive now o b).2.Orderly I := by
  have harmed : Orderly I (if b.userEvent then s else s.armFor now o) := by
    split
    · exact h
    · exact h.reconnect (fun _ hposted ↦ hposted.modify o fun _ _ hfed ↦ hfed.arm now)
        fun _ _ ↦ List.Subset.refl _
  rw [receive_snd]
  exact harmed.runTurn (keeps_receiveBatch hI h.wrappers o (Batch.forall_mem_ordered hb)) now _

omit [Application σ] in
theorem disconnect (h : s.Orderly I) (now : Nat) (o : Observer) :
    (s.disconnect now o).2.Orderly I :=
  (h.reconnect (fun _ hposted ↦ hposted.erase o) fun _ _ ↦ List.Subset.refl _).runTurn
    (keeps_unwatchAll o) now false

theorem setValue (hI : Application.Orderly I) (h : s.Orderly I) (now : Nat) (id : VarId)
    {value : Json} (hvalue : value.Ordered) : (s.setValue now id value).2.Orderly I := by
  rw [setValue_snd]
  rcases hupdate : s.state.store.update id (some value) .empty with e | store
  · exact h
  · have hstore : store.Orderly := by
      refine h.store.update ?_ hupdate
      rintro _ ⟨⟩
      exact hvalue
    have hs : Orderly I { s with state := { s.state with store := store } } :=
      ⟨h.wrappers, h.app, hstore, h.connections⟩
    exact hs.runTurn (keeps_detectChanges hI h.wrappers) now false

omit [Application σ] in
theorem outside (h : s.Orderly I) {f : σ → σ} (hf : ∀ app, I app → I (f app)) :
    (s.withApplication fun app ↦ (some (), f app)).2.Orderly I := by
  refine ⟨h.wrappers, ?_, h.store, h.connections⟩
  rw [withApplication, Executor.execute]
  rcases howned : s.executor.owned with _ | app
  · exact fun _ happ ↦ absurd (howned ▸ happ) (by simp)
  · rintro _ ⟨⟩
    exact hf app (h.app app howned)

/-- **Every event keeps a session in order.** -/
theorem after (hI : Application.Orderly I) (h : s.Orderly I) {e : Event σ} (he : e.Orderly I) :
    (e.after s).Orderly I := by
  cases e with
  | connect o => exact h.connect o
  | receive now o b =>
    obtain ⟨payload, hdecode⟩ := he
    exact h.receive hI now o (Batch.ordered_of_decode hdecode)
  | disconnect now o => exact h.disconnect now o
  | createVariable now parent value ps =>
    refine h.runTurn (keeps_create hI h.wrappers none ?_) now false
    rintro _ ⟨⟩
    exact he
  | destroyVariable now id => exact h.runTurn (keeps_destroy none id) now false
  | setValue now id value => exact h.setValue hI now id he
  | refresh now => exact h.runTurn (keeps_detectChanges hI h.wrappers) now false
  | outside f => exact h.outside he
  | expire now =>
    exact h.reconnect (fun _ hposted ↦ hposted.expire now) fun _ _ ↦ List.Subset.refl _
  | expireOne now o =>
    exact h.reconnect (fun _ hposted ↦ hposted.modify o fun _ _ hfed ↦ hfed.expire now)
      fun _ _ ↦ List.Subset.refl _

theorem run (hI : Application.Orderly I) (h : s.Orderly I) {es : List (Event σ)}
    (hes : ∀ e ∈ es, e.Orderly I) : (s.run es).Orderly I := by
  induction es generalizing s with
  | nil => exact h
  | cons e es ih =>
    rw [List.forall_mem_cons] at hes
    exact ih (h.after hI hes.1) hes.2

theorem new (label : String) (window : Nat) {w : WrapperRegistry} (hw : w.Orderly) {app : σ}
    (happ : I app) : (Session.new label window w app).Orderly I := by
  refine ⟨hw, ?_, ?_, fun _ ↦ [], fun o b hb ↦ ?_, fun o m hm ↦ absurd hm (by simp)⟩
  · rintro _ ⟨⟩
    exact happ
  · rw [Store.Orderly, Session.new, SessionState.entries_withRoot, List.forall_mem_singleton]
    exact Application.ordered_rootValue app
  · exact absurd hb (by simp [Session.new])

omit [Application σ] in
private theorem ordered_of_mem_sent (h : s.Orderly I) {o : Observer} {c : Batcher}
    (hc : s.connections.get? o = some c) {b : Batch} (hb : b ∈ c.sent) :
    ∀ m ∈ b.messages, m.Ordered := by
  intro m hm
  obtain ⟨posted, hfeeds, hposted⟩ := h.connections
  obtain ⟨m', hm', p, hp, rfl⟩ := (hfeeds o c hc).exists_piece hb hm
  exact (hposted o m' hm').of_mem_pieces hp

end Orderly

/-- **Which of the batches that a session has sent are decodable**: those whose values nest at most
124 arrays and objects deep and have no double that is not read back. This is so whatever payloads
came in, over an application and wrappers that keep values in order, for numbers of 64 bits. -/
theorem relayed_decodable_iff (hI : Application.Orderly I) {w : WrapperRegistry} (hw : w.Orderly)
    {app : σ} (happ : I app) (label : String) (window : Nat) {es : List (Event σ)}
    (hes : ∀ e ∈ es, e.Orderly I) {o : Observer} {c : Batcher}
    (hc : ((new label window w app).run es).connections.get? o = some c) {b : Batch}
    (hb : b ∈ c.sent) (hfits : ∀ m ∈ b.messages, m.FitsWords) :
    Batch.decode b.encode = .ok b ↔ ∀ v ∈ b.values,
      v.depth + 3 ≤ Json.maxDepth ∧ ∀ d ∈ v.doubles, (Json.double d).ReadsBack := by
  have hs := (Orderly.new label window hw happ).run hI hes
  exact Batch.decode_encode_iff fun m hm ↦
    (hs.ordered_of_mem_sent hc hb m hm).wellFormed (hfits m hm)

end Session

namespace ContactBook

open Json

/-! ## As deep as it may be

The bound is met: there is a session that relays a value that just fits, and one level more is
relayed all the same. -/

/-- Arrays inside one another. -/
def nested : Nat → Json
  | 0 => .null
  | n + 1 => .array [nested n]

theorem nested_spec (n : Nat) : (nested n).Ordered ∧ (nested n).depth = n ∧
    (nested n).doubles = [] ∧ (nested n).integers = [] := by
  induction n with
  | zero => exact ⟨trivial, rfl, rfl, rfl⟩
  | succ n ih =>
    obtain ⟨hordered, hdepth, hdoubles, hintegers⟩ := ih
    exact ⟨⟨hordered, trivial⟩,
      by rw [nested, depth, depthOfItems, depthOfItems, Nat.max_zero, hdepth],
      by rw [nested, doubles, doublesOfItems, doublesOfItems, hdoubles, List.append_nil],
      by rw [nested, integers, integersOfItems, integersOfItems, hintegers, List.append_nil]⟩

/-- An update of the root to nested arrays, in a batch of its own. -/
def nesting (n : Nat) : Batch := ⟨false, [.ofValue rootId (nested n)]⟩

theorem values_nesting (n : Nat) : (nesting n).values = [nested n] := rfl

theorem fitsWords_nesting (n : Nat) : ∀ m ∈ (nesting n).messages, m.FitsWords := by
  rw [nesting, List.forall_mem_singleton]
  refine ⟨List.forall_mem_singleton.mpr ⟨by decide, by decide⟩, ?_⟩
  rintro v ⟨⟩
  rw [(nested_spec n).2.2.2]
  exact fun k hk ↦ absurd hk (by simp)

theorem wellFormed_nesting (n : Nat) : ∀ m ∈ (nesting n).messages, m.WellFormed := by
  refine fun m hm ↦ Message.Ordered.wellFormed ?_ (fitsWords_nesting n m hm)
  rw [List.mem_singleton.mp hm]
  rintro v ⟨⟩
  exact (nested_spec n).1

/-- By itself the message may nest two levels more than in a batch. -/
theorem decode_nesting {n : Nat} (hn : n + 1 ≤ maxDepth) :
    Batch.decode (Utf8.ofString (Message.ofValue rootId (nested n)).json.text)
      = .ok (nesting n) := by
  obtain ⟨-, hdepth, hdoubles, -⟩ := nested_spec n
  refine Batch.decode_message (wellFormed_nesting n _ List.mem_cons_self) ?_ ?_
  · refine Message.forall_doubles_json_iff.mpr ?_
    rintro v ⟨⟩
    rw [hdoubles]
    exact fun d hd ↦ absurd hd (by simp)
  · rw [maxDepth, show 127 = 126 + 1 from rfl] at hn ⊢
    refine (Message.depth_json_le_iff (by decide)).mpr ?_
    rintro v ⟨⟩
    rw [hdepth]
    exact Nat.le_of_succ_le_succ hn

/-- One observer watches the root, and another one updates it. -/
def relay (b : Batch) : List (Session.Event ObjectSpace) := [
  .connect "a",
  .connect "b",
  .receive 0 "b" ⟨true, [.watch rootId]⟩,
  .receive 1 "a" b,
  .expire 11]

theorem orderly_relay {n : Nat} (hn : n + 1 ≤ maxDepth) :
    ∀ e ∈ relay (nesting n), e.Orderly ObjectSpace.Orderly := by
  have hwatch : Batch.decode (Batch.encode ⟨true, [.watch rootId]⟩)
      = .ok ⟨true, [.watch rootId]⟩ := by
    refine (Batch.decode_encode_iff ?_).mpr fun v hv ↦ absurd hv (by simp [Batch.values,
      Message.value?])
    exact List.forall_mem_singleton.mpr ⟨by decide, by decide⟩
  simp only [relay, List.forall_mem_cons]
  exact ⟨trivial, trivial, ⟨_, hwatch⟩, ⟨_, decode_nesting hn⟩, trivial, List.forall_mem_nil _⟩

/-- The batcher of the one who watches, which has sent the root as it was and then the update. -/
def relayed (b : Batch) : Batcher :=
  ⟨10, .empty, none, false, [⟨true, [.ofValue rootId (ObjectRef.json ⟨3⟩)]⟩, b]⟩

/-- The update of a value that nests as deep as it may is relayed and decodable. -/
theorem relayed_decodable_nesting :
    ((session.run (relay (nesting 124))).connections.get? "b" = some (relayed (nesting 124)) ∧
      nesting 124 ∈ (relayed (nesting 124)).sent) ∧
    Batch.decode (nesting 124).encode = .ok (nesting 124) := by
  have hrelayed : (session.run (relay (nesting 124))).connections.get? "b"
      = some (relayed (nesting 124)) := by
    set_option maxRecDepth 4000 in rfl
  have hsent : nesting 124 ∈ (relayed (nesting 124)).sent :=
    List.mem_cons_of_mem _ List.mem_cons_self
  refine ⟨⟨hrelayed, hsent⟩, ?_⟩
  refine (Session.relayed_decodable_iff ObjectSpace.application_orderly
    WrapperRegistry.orderly_standard orderly_space "S1" 10 (orderly_relay (by decide)) hrelayed
    hsent (fitsWords_nesting 124)).mpr ?_
  obtain ⟨-, hdepth, hdoubles, -⟩ := nested_spec 124
  rw [values_nesting, List.forall_mem_singleton, hdepth, hdoubles]
  exact ⟨by decide, List.forall_mem_nil _⟩

/-- One level more, and the message is accepted by itself and relayed, but not decodable. -/
theorem relayed_not_decodable :
    Batch.decode (Utf8.ofString (Message.ofValue rootId (nested 125)).json.text)
      = .ok (nesting 125) ∧
    (session.run (relay (nesting 125))).connections.get? "b" = some (relayed (nesting 125)) ∧
    nesting 125 ∈ (relayed (nesting 125)).sent ∧
    Batch.decode (nesting 125).encode ≠ .ok (nesting 125) := by
  have hrelayed : (session.run (relay (nesting 125))).connections.get? "b"
      = some (relayed (nesting 125)) := by
    set_option maxRecDepth 4000 in rfl
  refine ⟨decode_nesting (by decide), hrelayed, List.mem_cons_of_mem _ List.mem_cons_self,
    fun hdecode ↦ ?_⟩
  have hvalue := (Batch.decode_encode_iff (wellFormed_nesting 125)).mp hdecode
  rw [values_nesting, List.forall_mem_singleton, (nested_spec 125).2.1] at hvalue
  exact absurd hvalue.1 (by decide)

end ContactBook

end ReactiveVars
