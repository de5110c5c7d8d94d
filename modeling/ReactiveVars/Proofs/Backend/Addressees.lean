import ReactiveVars.Proofs.Backend.Farewells
import ReactiveVars.Proofs.Backend.Records

/-!
# To whom an operation sends

Every part of an operation finds its receivers by itself: an update and a detection among the
watchers of the variable, a destruction among those that have watched it before, a create on the
backend's own account among the watchers of the parent. An answer goes to whoever has asked.

`Operation.MaySend` says of each kind of message who may be sent it, in terms of the session before
the operation and after it. It also holds of an operation that is cut short. What an update relays
is said exactly, since there the other watchers must not be passed over.

## Main statement

* `Operation.wellAddressed`: every operation sends to whom it may send, and relays an update to all
  other watchers.
-/

namespace ReactiveVars

open TurnM

/-- Whether a message reports an error. -/
def Message.isError : Message → Bool
  | .error .. => true
  | _ => false

namespace Operation

variable {σ : Type}

/-- The observer whose message the operation handles. -/
def sender? : Operation σ → Option Observer
  | .handle o _ => some o
  | _ => none

/-- The observer on whose account something is done. -/
def requester? : Operation σ → Option Observer
  | .handle o _ => some o
  | .create creator _ => creator
  | .destroy requester _ => requester
  | .unwatchAll o => some o
  | .detectChanges | .outside _ => none

/-- What a create asks for. -/
def request? : Operation σ → Option CreateRequest
  | .handle _ (.create parent value ps id noWatch unbound) =>
    some ⟨parent, value, ps, id, noWatch, unbound⟩
  | .create _ request => some request
  | _ => none

/-- The variable that a destruction names. -/
def doomed? : Operation σ → Option VarId
  | .handle _ (.destroy id) | .destroy _ id => some id
  | _ => none

/-- Whether an operation may send a message to an observer, from the sessions before and after. -/
def MaySend (op : Operation σ) (s s' : SessionState) (o : Observer) : Message → Prop
  | .update id _ _ => s'.tally.isWatching id o = true
  | .destroy id =>
    op.doomed? = some id ∧ s.tally.isWatching id o = true ∧ op.requester? ≠ some o
  | .create parent .. => ∃ request, op.request? = some request ∧ request.parent = parent ∧
      (op.requester? = some o ∧ request.id = none ∨
        op.requester? = none ∧ s.tally.isWatching parent o = true)
  | .error .. => op.sender? = some o
  | .watch _ | .unwatch _ => False

end Operation

section Sending

variable {σ α : Type} {t t' : Turn σ} {id : VarId} {o : Observer}
variable {P : SessionState → Observer → Message → Prop}

/-- Whether everything that a part sends has a property, which may depend on the session that the
part leaves behind. -/
def Sends (x : TurnM σ α) (t : Turn σ) (P : SessionState → Observer → Message → Prop) : Prop :=
  ∃ d, (x.after t).dispatch = t.dispatch ++ d ∧ ∀ e ∈ d, P (x.after t).session e.1 e.2

private theorem sends_of_silent {x : TurnM σ α} (h : (x.after t).dispatch = t.dispatch) :
    Sends x t P :=
  ⟨[], by rw [h, List.append_nil], by simp⟩

private theorem sends_of_map {x : TurnM σ α} {os : List Observer} {m : Message}
    (h : (x.after t).dispatch = t.dispatch ++ os.map fun o ↦ (o, m))
    (hm : ∀ o ∈ os, P (x.after t).session o m) : Sends x t P := by
  refine ⟨_, h, ?_⟩
  intro e he
  obtain ⟨o, ho, rfl⟩ := List.mem_map.mp he
  exact hm o ho

variable [Application σ] {w : WrapperRegistry}

theorem sends_watch {x : TurnM σ α} {d : Dispatch} {snapshot : Bool}
    (hx : x.after t = (watch w o id snapshot).after t') (hd : t'.dispatch = t.dispatch ++ d)
    (hsent : ∀ s', ∀ e ∈ d, P s' e.1 e.2)
    (hupdate : ∀ s' v ps, s'.tally.isWatching id o = true → P s' o (.update id v ps)) :
    Sends x t P := by
  rw [Sends, hx]
  rcases hp : t'.presented w id with ⟨halt | v, app⟩
  · rw [after_of_error (watch_of_error hp snapshot)]
    exact ⟨d, hd, hsent _⟩
  · rw [after_of_ok (watch_of_ok hp snapshot)]
    refine ⟨d ++ snapshotTo t'.session.store o id v snapshot, ?_, ?_⟩
    · rw [hd, List.append_assoc]
    · have hwatching : (t'.session.watched o id v).tally.isWatching id o = true := by
        rw [SessionState.watched]
        split <;> simp [WatchTally.isWatching_watch]
      rintro e he
      rcases List.mem_append.mp he with he | he
      · exact hsent _ e he
      · rw [snapshotTo] at he
        obtain ⟨-, he⟩ := List.mem_ite_nil_right.mp he
        rw [List.mem_singleton.mp he]
        exact hupdate _ _ _ hwatching

theorem sends_createMessage {noWatch : Bool} {f : Message → TurnM σ α}
    (h : ∀ u v app, t.session.store.get? id = some u →
      Sends (f (u.announcement v noWatch)) { t with
        session := { t.session with store := t.session.store.keep id v }, app := app } P) :
    Sends (createMessage w id noWatch >>= f) t P := by
  rcases hp : t.presented w id with ⟨halt | v, app⟩
  · refine sends_of_silent ?_
    rw [after_bind, createMessage_of_error hp]
  · obtain ⟨u, hu⟩ := Store.contains_iff.mp (contains_of_presented hp)
    have hf := h u v app hu
    rw [Sends, after_bind, createMessage_of_ok hp hu]
    exact hf

end Sending

section Operations

variable {σ : Type} [Application σ] {w : WrapperRegistry} {op : Operation σ} {t t' : Turn σ}
variable {o : Observer} {id : VarId}

/-! ## Each part sends to whom it may

`MayTell` leaves errors out, so that it can be said of what obeying a message sends. The error of a
message that is refused comes in only when the message is handled. -/

/-- Whether an operation may send a message that is no error. -/
def Operation.MayTell (op : Operation σ) (s s' : SessionState) (o : Observer) (m : Message) :
    Prop :=
  m.isError = false ∧ op.MaySend s s' o m

omit [Application σ] in
private theorem mayTell_update {s s' : SessionState} {v : Option Json} {ps : Properties}
    (h : s'.tally.isWatching id o = true) : op.MayTell s s' o (.update id v ps) := ⟨rfl, h⟩

theorem introduce_tells {creator : Option Observer} {request : CreateRequest}
    {s : SessionState} (hrequest : op.request? = some request) (hcreator : op.requester? = creator)
    (htally : t.session.tally = s.tally)
    (hparent : ∀ u, t.session.store.get? id = some u → u.parent = request.parent)
    (ps : Properties) : Sends (introduce w creator request id ps) t (op.MayTell s) := by
  rcases creator with _ | o
  · rw [introduce, announce]
    refine sends_createMessage fun u v app hu ↦ sends_of_map rfl fun o ho ↦ ?_
    rw [WatchTally.mem_watchers_iff, htally] at ho
    exact ⟨rfl, request, hrequest, (hparent u hu).symm, .inr ⟨hcreator, hparent u hu ▸ ho⟩⟩
  · have hecho (s' : SessionState) (u : Variable) (hu : t.session.store.get? id = some u) (v : Json)
        (noWatch : Bool) (hid : request.id = none) :
        ∀ e ∈ [(o, u.announcement v noWatch)], op.MayTell s s' e.1 e.2 := by
      rw [List.forall_mem_singleton]
      exact ⟨rfl, request, hrequest, (hparent u hu).symm, .inl ⟨hcreator, hid⟩⟩
    rw [introduce, answerCreator]
    by_cases hid : request.id.isNone = true
    · rw [if_pos hid]
      rw [Option.isNone_iff_eq_none] at hid
      refine sends_createMessage fun u v app hu ↦ ?_
      rcases request.noWatch with _ | _
      · exact sends_watch rfl rfl (fun s' ↦ hecho s' u hu v false hid) fun _ _ _ h ↦
          mayTell_update h
      · exact ⟨_, rfl, hecho _ u hu v true hid⟩
    · rw [if_neg hid]
      rcases request.noWatch with _ | _
      · exact sends_watch rfl (List.append_nil _).symm (by simp) fun _ _ _ h ↦ mayTell_update h
      · exact sends_of_silent rfl

theorem create_tells {creator : Option Observer} {request : CreateRequest}
    (hrequest : op.request? = some request) (hcreator : op.requester? = creator) :
    Sends (create w creator request) t (op.MayTell t.session) := by
  obtain ⟨hpass, ps, value, app, -, hreg⟩ | ⟨-, halt, app, hreg⟩ := register_run request t
  · have hafter : (create w creator request).after t
        = (introduce w creator request (request.chosen t.session.store).1 ps).after { t with
          session := t.session.registered request value ps, app := app } := by
      rw [create_eq, after_bind, hreg]
      exact after_discard _ _ _
    rw [Sends, hafter]
    refine introduce_tells hrequest hcreator rfl (fun u hu ↦ ?_) ps
    rw [SessionState.get?_registered, if_pos rfl, Option.some_inj] at hu
    rw [← hu]
    rfl
  · exact sends_of_silent (by rw [after_of_error (create_of_register_error hreg)])

omit [Application σ] in
private theorem mayTell_relays {value : Option Json} {ps : Properties} {s' : SessionState}
    (htally : s'.tally = t.session.tally) :
    ∀ e ∈ relays t.session o id value ps, op.MayTell t.session s' e.1 e.2 := by
  intro e he
  rw [relays] at he
  obtain ⟨-, he⟩ := List.mem_ite_nil_right.mp he
  obtain ⟨o', ho', rfl⟩ := List.mem_map.mp he
  refine mayTell_update ?_
  rw [htally]
  exact WatchTally.mem_watchers_iff.mp (List.mem_of_mem_filter ho')

omit [Application σ] in
theorem tally_writtenTo {v : Variable} (h : WrittenTo v t t') :
    t'.session.tally = t.session.tally := by
  rcases h with app | ⟨app, u, value, -, -⟩ <;> rfl

/-- An update that is accepted is relayed, and one that is not sends nothing. -/
theorem update_run (w : WrapperRegistry) (o : Observer) (id : VarId) (value : Option Json)
    (ps : Properties) (t : Turn σ) :
    (∃ t', update w o id value ps t = .ok () t' ∧ t'.session.tally = t.session.tally ∧
      t'.dispatch = t.dispatch
        ++ relays t.session o id (effectiveValue t.session.store id value) ps) ∨
    ∃ halt t', update w o id value ps t = .error halt t' ∧ t'.dispatch = t.dispatch := by
  rcases hv : t.session.store.get? id with _ | v
  · exact .inr ⟨_, t, update_of_unknown hv value ps, rfl⟩
  rcases he : effectiveValue t.session.store id value with _ | new
  · exact .inl ⟨_, update_of_none hv he ps, rfl, rfl⟩
  · obtain ⟨t', hwritten, hrun⟩ | ⟨halt, app, hrun⟩ := update_of_some (w := w) (o := o) hv he ps
    · have htally : t'.session.tally = t.session.tally := tally_writtenTo hwritten
      exact .inl ⟨_, hrun, htally, rfl⟩
    · exact .inr ⟨_, _, hrun, rfl⟩

theorem update_tells (w : WrapperRegistry) (o : Observer) (id : VarId) (value : Option Json)
    (ps : Properties) (t : Turn σ) : Sends (update w o id value ps) t (op.MayTell t.session) := by
  obtain ⟨t', hrun, htally, hdispatch⟩ | ⟨halt, t', hrun, hdispatch⟩ := update_run w o id value ps t
  · rw [Sends, after_of_ok hrun]
    exact ⟨_, hdispatch, mayTell_relays htally⟩
  · exact sends_of_silent (by rw [after_of_error hrun, hdispatch])

omit [Application σ] in
theorem destroy_tells {requester : Option Observer} (hdoomed : op.doomed? = some id)
    (hrequester : op.requester? = requester) :
    Sends (destroy requester id) t (op.MayTell t.session) := by
  rw [Sends, after_of_ok (destroy_run requester id t)]
  refine ⟨_, rfl, ?_⟩
  rintro ⟨o, m⟩ he
  obtain ⟨rfl, -, hwatching, hne⟩ := mem_farewells_iff.mp he
  exact ⟨rfl, hdoomed, hwatching, hrequester ▸ hne.symm⟩

omit [Application σ] in
private theorem dispatch_bind {α β : Type} {x : TurnM σ α} {f : α → TurnM σ β}
    (hx : (x.after t).dispatch = t.dispatch)
    (hf : ∀ a t', x t = .ok a t' → ((f a).after t').dispatch = t'.dispatch) :
    ((x >>= f).after t).dispatch = t.dispatch := by
  rw [after_bind]
  rcases hrun : x t with ⟨a, t'⟩ | ⟨halt, t'⟩
  · rw [after_of_ok hrun] at hx
    exact (hf a t' hrun).trans hx
  · rwa [after_of_error hrun] at hx

private theorem dispatch_examine (w : WrapperRegistry) (id : VarId) (t : Turn σ) :
    ((examine w id).after t).dispatch = t.dispatch := by
  rcases hp : t.presented w id with ⟨(e | _) | v, app⟩
  · rw [after_of_ok (examine_of_refused hp)]
  · rw [after_of_error (examine_of_crashed hp)]
  · rw [after_of_ok (examine_of_ok hp)]

private theorem dispatch_examineAll (w : WrapperRegistry) (ids : List VarId) (t : Turn σ) :
    ((examineAll w ids).after t).dispatch = t.dispatch := by
  induction ids generalizing t with
  | nil => rfl
  | cons id ids ih =>
    rw [examineAll]
    refine dispatch_bind (dispatch_examine w id t) fun change t' _ ↦ ?_
    exact dispatch_bind (ih t') fun changes t'' _ ↦ rfl

/-- A detection sends the values of changes that it has found to watchers of the variables. -/
theorem sends_detectChanges {P : SessionState → Observer → Message → Prop}
    (h : ∀ found t', examineAll w t.session.examined t = .ok found t' → ∀ c ∈ found, ∀ s o,
      s.tally.isWatching c.id o = true → P s o (.ofValue c.id c.value)) :
    Sends (detectChanges w) t P := by
  obtain ⟨changes, hafter, hfound⟩ := detectChanges_after w t
  rw [Sends, hafter]
  refine ⟨_, by rw [dispatch_examineAll], ?_⟩
  rintro ⟨o, m⟩ he
  obtain ⟨c, hc, hwatching, rfl⟩ := mem_tidings_iff.mp he
  obtain ⟨found, t', hexamined, hmem⟩ := hfound c hc
  exact h found t' hexamined c hmem _ o hwatching

theorem detectChanges_tells (w : WrapperRegistry) (t : Turn σ) :
    Sends (detectChanges w) t (op.MayTell t.session) :=
  sends_detectChanges fun _ _ _ _ _ _ _ hwatching ↦ mayTell_update hwatching

theorem obey_tells (w : WrapperRegistry) (o : Observer) (m : Message) (t : Turn σ) :
    Sends (obey w o m) t ((Operation.handle o m : Operation σ).MayTell t.session) := by
  rcases m with ⟨parent, value, ps, id, noWatch, unbound⟩ | ⟨id, value, ps⟩ | id | id | id | _
  · rw [Sends, obey, after_discard]
    exact create_tells rfl rfl
  · exact update_tells w o id value ps t
  · by_cases hc : t.session.store.contains id = true
    · have hwatch : (obey w o (.watch id)).after t = (watch w o id true).after t := by
        rw [after, obey_watch, if_pos hc, after]
      exact sends_watch hwatch (List.append_nil _).symm (by simp) fun _ _ _ h ↦ mayTell_update h
    · exact sends_of_silent (by rw [after, obey_watch, if_neg hc])
  · exact sends_of_silent (by rw [obey, after_of_ok (unwatch_run o id t)])
  · exact destroy_tells rfl rfl
  · exact sends_of_silent rfl

/-! ## Every operation

What is left is the error: there is one at most, and it goes to whoever has asked. -/

/-- An operation sends to whom it may, reports one error at most, and relays an update that it
accepts to all watchers but the sender. -/
structure Operation.WellAddressed (w : WrapperRegistry) (op : Operation σ) (t : Turn σ) : Prop where
  appended : ((op.part w).after t).dispatch = t.dispatch ++ op.sent w t
  permitted : ∀ e ∈ op.sent w t, op.MaySend t.session ((op.part w).after t).session e.1 e.2
  one_error : (op.sent w t).countP (fun e ↦ e.2.isError) ≤ 1
  relayed : ∀ {o id value ps t'}, op = .handle o (.update id value ps) →
    obey w o (.update id value ps) t = .ok () t' →
    value.isSome = true ∧ t.session.store.isSuspended id = false ∨ ps.isEmpty = false →
    ∃ others : List Observer, others.Nodup ∧
      (∀ o', o' ∈ others ↔ t.session.tally.isWatching id o' = true ∧ o' ≠ o) ∧
      op.sent w t = others.map fun o' ↦
        (o', .update id (if t.session.store.isSuspended id then none else value) ps)

theorem sent_update {value : Option Json} {ps : Properties}
    (hrun : obey w o (.update id value ps) t = .ok () t')
    (hsome : (effectiveValue t.session.store id value).isSome = true ∨ ps.isEmpty = false) :
    (Operation.handle o (.update id value ps)).sent w t
      = ((t.session.tally.watchers id).filter (· ≠ o)).map fun o' ↦
        (o', .update id (effectiveValue t.session.store id value) ps) := by
  obtain ⟨t'', hupdate, -, hdispatch⟩ | ⟨halt, t'', hupdate, -⟩ := update_run w o id value ps t
  · have hcarried : ((effectiveValue t.session.store id value).isSome || !ps.isEmpty) = true := by
      rw [Bool.or_eq_true, Bool.not_eq_true']
      exact hsome
    rw [relays, if_pos hcarried] at hdispatch
    refine sent_eq ?_
    rw [Operation.part, after, handle_run, obey_update, hupdate, hdispatch]
  · rw [obey_update, hupdate] at hrun
    exact absurd hrun (by simp)

/-- An operation is well addressed if it sends to whom it may, with one error at most. -/
theorem wellAddressed_of_sends {d : Dispatch}
    (hd : ((op.part w).after t).dispatch = t.dispatch ++ d)
    (hmay : ∀ e ∈ d, op.MaySend t.session ((op.part w).after t).session e.1 e.2)
    (herror : d.countP (fun e ↦ e.2.isError) ≤ 1) : op.WellAddressed w t where
  appended := by rw [sent_eq hd, hd]
  permitted := by rwa [sent_eq hd]
  one_error := by rwa [sent_eq hd]
  relayed {o id value ps t'} hop hrun hsome := by
    subst hop
    have heffective :
        (effectiveValue t.session.store id value).isSome = true ∨ ps.isEmpty = false :=
      hsome.imp_left fun ⟨hvalue, hactive⟩ ↦ by rwa [effectiveValue, hactive]
    refine ⟨(t.session.tally.watchers id).filter (· ≠ o), ?_, fun o' ↦ ?_,
      sent_update hrun heffective⟩
    · exact (KeyMap.nodup_keys _).filter _
    · rw [List.mem_filter, WatchTally.mem_watchers_iff, decide_eq_true_eq]

omit [Application σ] in
private theorem countP_isError_of_mayTell {s s' : SessionState} {d : Dispatch}
    (h : ∀ e ∈ d, op.MayTell s s' e.1 e.2) : d.countP (fun e ↦ e.2.isError) = 0 := by
  rw [List.countP_eq_zero]
  exact fun e he ↦ by rw [(h e he).1]; simp

theorem wellAddressed_of_tells (h : Sends (op.part w) t (op.MayTell t.session)) :
    op.WellAddressed w t := by
  obtain ⟨d, hd, htell⟩ := h
  refine wellAddressed_of_sends hd (fun e he ↦ (htell e he).2) ?_
  rw [countP_isError_of_mayTell htell]
  exact Nat.zero_le 1

theorem handle_wellAddressed (w : WrapperRegistry) (o : Observer) (m : Message)
    (t : Turn σ) : (Operation.handle o m).WellAddressed w t := by
  obtain ⟨d, hd, htell⟩ := obey_tells w o m t
  obtain hsame | ⟨e, t', -, hmore⟩ := dispatch_handle_cases w o m t
  · refine wellAddressed_of_tells ⟨d, ?_, ?_⟩
    · rw [Operation.part, hsame, hd]
    · rw [Operation.part, session_handle]
      exact htell
  · -- the error that answers a refused message is the only one
    refine wellAddressed_of_sends (d := d ++ [(o, e.message)]) ?_ (fun e' he' ↦ ?_) ?_
    · rw [Operation.part, hmore, hd, List.append_assoc]
    · rw [Operation.part, session_handle]
      rcases List.mem_append.mp he' with he' | he'
      · exact (htell e' he').2
      · rw [List.mem_singleton.mp he']
        exact rfl
    · rw [List.countP_append, countP_isError_of_mayTell htell, Nat.zero_add]
      exact List.countP_le_length

/-- **Every operation sends to whom it may send, and relays an update to all other watchers.** -/
theorem Operation.wellAddressed (w : WrapperRegistry) (op : Operation σ) (t : Turn σ) :
    op.WellAddressed w t := by
  rcases op with ⟨o, m⟩ | ⟨creator, request⟩ | ⟨requester, id⟩ | o | _ | f
  · exact handle_wellAddressed w o m t
  · refine wellAddressed_of_tells ?_
    rw [Sends, part, after_discard]
    exact create_tells rfl rfl
  · exact wellAddressed_of_tells (destroy_tells rfl rfl)
  · refine wellAddressed_of_tells (sends_of_silent ?_)
    rw [part, after_discard, after_of_ok (unwatchAll_run o t)]
  · refine wellAddressed_of_tells ?_
    rw [Sends, part, after_discard]
    exact detectChanges_tells w t
  · exact wellAddressed_of_tells (sends_of_silent rfl)

end Operations

/-- The other watcher of the child is relayed an update, and nobody else is sent anything. -/
theorem wellAddressed_watchedChild :
    ∃ t', obey .standard "a" (.update 3 (some (.int 7)) .empty) ContactBook.watchedChild
        = .ok () t' ∧
      ContactBook.watchedChild.session.store.isSuspended 3 = false ∧
      ∃ others : List Observer, "b" ∈ others ∧ others.Nodup ∧
        (Operation.handle "a" (.update 3 (some (.int 7)) .empty)).sent .standard
          ContactBook.watchedChild = others.map fun o ↦ (o, .update 3 (some (.int 7)) .empty) := by
  have hpasses : (obey .standard "a" (.update 3 (some (.int 7)) .empty)).passes
      (fun _ _ ↦ true) ContactBook.watchedChild = true := by decide +kernel
  obtain ⟨⟨⟩, t', hrun, -⟩ := passes_iff.mp hpasses
  have hactive : ContactBook.watchedChild.session.store.isSuspended 3 = false := by decide +kernel
  obtain ⟨others, hnodup, hmem, hsent⟩ := (Operation.wellAddressed .standard
    (.handle "a" (.update 3 (some (.int 7)) .empty)) ContactBook.watchedChild).relayed rfl hrun
    (.inl ⟨rfl, hactive⟩)
  rw [hactive] at hsent
  exact ⟨t', hrun, hactive, others, (hmem "b").mpr ⟨by decide +kernel, by decide⟩, hnodup, hsent⟩

end ReactiveVars
