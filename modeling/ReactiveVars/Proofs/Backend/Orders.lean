import ReactiveVars.Proofs.Application.Orders
import ReactiveVars.Proofs.Backend.Walks
import ReactiveVars.Proofs.Wire.Decodings

/-!
# Values stay in order

The objects inside a value keep their fields in order wherever a turn takes the value: a path finds
what is inside a value in order, a write builds such a value anew, and what the application or a
wrapper makes of one is assumed to be in order as well. So all values that are stored, and all that
are sent, are in order, also if the turn is cut short.

A part of a turn is described by what its results have if the turn is in order (`TurnM.Keeps`).
These descriptions are put together along the part, the way it is put together itself.

## Main statement

* `keeps_receiveBatch`: processing a batch whose values are in order keeps all values in order.
-/

namespace ReactiveVars

open TurnM

variable {σ : Type} {α β : Type}

/-! ## Stores and turns

The values to look after are those in the store and those in the messages to be sent. Numbers,
properties and watchers hold none, and what is on record is a text. -/

/-- Whether the values of all variables are in order. -/
def Store.Orderly (s : Store) : Prop := ∀ v ∈ s.entries, v.value.Ordered

namespace Store.Orderly

variable {s : Store} {id : VarId}

theorem get? (h : s.Orderly) {v : Variable} (hv : s.get? id = some v) : v.value.Ordered :=
  h v (List.mem_of_find?_eq_some hv)

theorem modify (h : s.Orderly) (id : VarId) {f : Variable → Variable}
    (hf : ∀ v : Variable, v.value.Ordered → (f v).value.Ordered) : (s.modify id f).Orderly := by
  refine List.forall_mem_map.mpr fun v hv ↦ ?_
  split
  · exact hf v (h v hv)
  · exact h v hv

theorem setActive (h : s.Orderly) (id : VarId) (active : Bool) :
    (s.setActive id active).Orderly :=
  h.modify id fun _ hv ↦ hv

theorem insertAs (h : s.Orderly) {new : NewVariable} (hvalue : new.value.Ordered)
    {s' : Store} (hinsert : s.insertAs id new = .ok s') : s'.Orderly := by
  rw [Store.insertAs] at hinsert
  rcases hcheck : s.checkNew id new.parent with e | u
  · rw [hcheck] at hinsert
    exact absurd hinsert (by simp [Except.map])
  · rw [hcheck] at hinsert
    rw [← Except.ok.inj hinsert]
    exact List.forall_mem_cons.mpr ⟨hvalue, h⟩

theorem update (h : s.Orderly) {value : Option Json} (hvalue : ∀ v ∈ value, v.Ordered)
    {ps : Properties} {s' : Store} (hupdate : s.update id value ps = .ok s') : s'.Orderly := by
  obtain ⟨-, rfl⟩ := Store.update_eq_ok_iff.mp hupdate
  refine h.modify id fun v hv ↦ ?_
  rcases value with _ | new
  · exact hv
  · exact hvalue new rfl

theorem destroy (h : s.Orderly) (id : VarId) : (s.destroy id).2.Orderly := by
  rw [Store.destroy]
  split
  · exact fun v hv ↦ h v (List.mem_of_mem_filter hv)
  · exact h

end Store.Orderly

/-- Whether all values of a turn are in order, those that are stored and those that are to be
sent, in a state of the application from which this will stay so. -/
structure Turn.Orderly (I : σ → Prop) (t : Turn σ) : Prop where
  app : I t.app
  store : t.session.store.Orderly
  dispatch : ∀ e ∈ t.dispatch, e.2.Ordered

/-! ## Parts that keep the order

`Keeps I Q` says of a part that it keeps the turn in order and that its results satisfy `Q`. The
results have to be spoken of, since what one part finds the next may store or send. A part that is
cut short has no result, but it leaves a turn. -/

/-- Whether a part keeps a turn in order, also if it is cut short, and its results have a
property. -/
def TurnM.Keeps (I : σ → Prop) (x : TurnM σ α) (Q : α → Prop) : Prop :=
  ∀ t : Turn σ, t.Orderly I → (x.after t).Orderly I ∧ ∀ a t', x t = .ok a t' → Q a

namespace TurnM

variable {I : σ → Prop} {x : TurnM σ α} {Q : α → Prop} {R : β → Prop}

/-- **A part and what follows it.** -/
theorem Keeps.bind (hx : x.Keeps I Q) {f : α → TurnM σ β} (hf : ∀ a, Q a → (f a).Keeps I R) :
    (x >>= f).Keeps I R := by
  intro t ht
  obtain ⟨hafter, hresult⟩ := hx t ht
  rw [after_bind, bind_run]
  rcases h : x t with ⟨a, t'⟩ | ⟨halt, t'⟩
  · rw [after_of_ok h] at hafter
    exact hf a (hresult a t' h) t' hafter
  · rw [after_of_error h] at hafter
    exact ⟨hafter, fun a t'' hok ↦ absurd hok (by simp)⟩

theorem keeps_pure {a : α} (ha : Q a) : (pure a : TurnM σ α).Keeps I Q := by
  refine fun t ht ↦ ⟨ht, fun b t' h ↦ ?_⟩
  obtain ⟨⟩ := h
  exact ha

theorem keeps_refuse (e : SyncError) : (refuse e : TurnM σ α).Keeps I Q :=
  fun t ht ↦ ⟨ht, fun a t' h ↦ absurd h (by simp)⟩

theorem keeps_orRefuse {r : Except SyncError α} (hr : ∀ a, r = .ok a → Q a) :
    (orRefuse r : TurnM σ α).Keeps I Q := by
  rcases r with e | a
  · exact keeps_refuse e
  · exact keeps_pure (hr a rfl)

theorem keeps_store : (store : TurnM σ Store).Keeps I Store.Orderly := by
  refine fun t ht ↦ ⟨ht, fun s t' h ↦ ?_⟩
  obtain ⟨⟩ := h
  exact ht.store

theorem keeps_look {f : Turn σ → α} : TurnM.Keeps I (fun t ↦ .ok (f t) t) fun _ ↦ True :=
  fun _ ht ↦ ⟨ht, fun _ _ _ ↦ trivial⟩

theorem keeps_modifyStore {f : Store → Store} (hf : ∀ s : Store, s.Orderly → (f s).Orderly) :
    (modifyStore f : TurnM σ Unit).Keeps I fun _ ↦ True :=
  fun _ ht ↦ ⟨⟨ht.app, hf _ ht.store, ht.dispatch⟩, fun _ _ _ ↦ trivial⟩

theorem keeps_modifyTally (f : WatchTally → WatchTally) :
    (modifyTally f : TurnM σ Unit).Keeps I fun _ ↦ True :=
  fun _ ht ↦ ⟨⟨ht.app, ht.store, ht.dispatch⟩, fun _ _ _ ↦ trivial⟩

theorem keeps_modifyTracker (f : Tracker → Tracker) :
    (modifyTracker f : TurnM σ Unit).Keeps I fun _ ↦ True :=
  fun _ ht ↦ ⟨⟨ht.app, ht.store, ht.dispatch⟩, fun _ _ _ ↦ trivial⟩

theorem keeps_sendAll (os : List Observer) {m : Message} (hm : m.Ordered) :
    (sendAll os m : TurnM σ Unit).Keeps I fun _ ↦ True := by
  refine fun t ht ↦ ⟨⟨ht.app, ht.store, ?_⟩, fun _ _ _ ↦ trivial⟩
  exact List.forall_mem_append.mpr ⟨ht.dispatch, List.forall_mem_map.mpr fun _ _ ↦ hm⟩

theorem keeps_send (o : Observer) {m : Message} (hm : m.Ordered) :
    (send o m : TurnM σ Unit).Keeps I fun _ ↦ True := keeps_sendAll [o] hm

theorem keeps_ask {request : σ → Reply α × σ} (h : ∀ app, I app → I (request app).2 ∧
    ∀ a, (request app).1 = .ok a → Q a) :
    (ask request).Keeps I fun r ↦ ∀ a, r = .ok a → Q a := by
  intro t ht
  obtain ⟨happ, hresult⟩ := h t.app ht.app
  rw [after, ask]
  rcases hrequest : request t.app with ⟨a | reason | -, app⟩
  all_goals
    rw [hrequest] at happ hresult
    refine ⟨⟨happ, ht.store, ht.dispatch⟩, fun r t' hok ↦ ?_⟩
    obtain ⟨⟩ := hok
  · rintro b ⟨⟩
    exact hresult a rfl
  · exact fun b hb ↦ absurd hb (by simp)

/-- A refusal becomes a result, and what has been done stays done. -/
theorem Keeps.attempt (hx : x.Keeps I Q) :
    (attempt x).Keeps I fun r ↦ ∀ a, r = .ok a → Q a := by
  intro t ht
  obtain ⟨hafter, hresult⟩ := hx t ht
  rw [after, TurnM.attempt]
  rcases h : x t with ⟨a, t'⟩ | ⟨e | -, t'⟩
  · rw [after_of_ok h] at hafter
    refine ⟨hafter, fun r t'' hok b hb ↦ ?_⟩
    obtain ⟨⟩ := hok
    rw [← Except.ok.inj hb]
    exact hresult a t' h
  · rw [after_of_error h] at hafter
    refine ⟨hafter, fun r t'' hok b hb ↦ ?_⟩
    obtain ⟨⟩ := hok
    exact absurd hb (by simp)
  · rw [after_of_error h] at hafter
    exact ⟨hafter, fun r t'' hok ↦ absurd hok (by simp)⟩

end TurnM

/-! ## Presenting

Presenting is the only place where values come from the application, from a path and from a wrapper.
It is a function outside of the turn, with the application as its state, so it has a predicate of
its own. -/

section Application

variable [Application σ] {I : σ → Prop} {w : WrapperRegistry}

/-- Whether a value is found in order, if one is found, in a state of the application from which
this will stay so. -/
def FindsOrdered (I : σ → Prop) (r : Except Halt Json × σ) : Prop :=
  I r.2 ∧ ∀ v, r.1 = .ok v → v.Ordered

omit [Application σ] in
private theorem findsOrdered_ok {v : Json} {app : σ} (happ : I app) (hv : v.Ordered) :
    FindsOrdered I (.ok v, app) := by
  refine ⟨happ, fun u hu ↦ ?_⟩
  rwa [← Except.ok.inj hu]

omit [Application σ] in
private theorem findsOrdered_error {halt : Halt} {app : σ} (happ : I app) :
    FindsOrdered I (.error halt, app) := ⟨happ, fun _ hu ↦ absurd hu (by simp)⟩

private theorem findsOrdered_readPath (hI : Application.Orderly I) {base : Json}
    (hbase : base.Ordered) (segments : List Segment) {app : σ} (happ : I app) :
    FindsOrdered I (readPath base segments app) := by
  rw [readPath]
  split
  · next r _ =>
    have hresolve := hI.resolve app happ r segments
    split
    · next v app' heq =>
      rw [heq] at hresolve
      exact findsOrdered_ok hresolve.1 (hresolve.2 v rfl)
    · next reason app' heq =>
      rw [heq] at hresolve
      exact findsOrdered_ok hresolve.1 Json.ordered_null
    · next app' heq =>
      rw [heq] at hresolve
      exact findsOrdered_error hresolve.1
  · exact findsOrdered_ok happ (Document.ordered_resolve hbase segments)

private theorem findsOrdered_presentFrom (hI : Application.Orderly I) (hw : w.Orderly)
    (v : Variable) (path : Path) {base : Except Halt Json × σ} (hbase : FindsOrdered I base) :
    FindsOrdered I (v.presentFrom w path base) := by
  rcases base with ⟨halt | b, app⟩
  · exact hbase
  · have hfound := findsOrdered_readPath hI (hbase.2 b rfl) path.segments hbase.1
    rw [Variable.presentFrom]
    split
    · next found app' heq =>
      rw [heq] at hfound
      exact findsOrdered_ok hfound.1 (hw.present v.wrapper? (hfound.2 found rfl) v.properties)
    · next halt app' heq =>
      rw [heq] at hfound
      exact findsOrdered_error hfound.1

/-- **A presented value is in order.** -/
theorem findsOrdered_presentedIn (hI : Application.Orderly I) (hw : w.Orderly) (id : VarId)
    {vs : List Variable} (hvs : ∀ v ∈ vs, v.value.Ordered) {app : σ} (happ : I app) :
    FindsOrdered I (presentedIn w id vs app) := by
  induction vs generalizing id with
  | nil => exact findsOrdered_error happ
  | cons v older ih =>
    obtain ⟨hv, holder⟩ := List.forall_mem_cons.mp hvs
    rw [presentedIn]
    split
    · rcases v.path? with _ | raw
      · exact findsOrdered_ok happ (hw.present v.wrapper? hv v.properties)
      · rcases hparse : Path.parse raw with e | path
        · simp only [hparse]
          exact findsOrdered_error happ
        · simp only [hparse]
          refine findsOrdered_presentFrom hI hw v path ?_
          split
          · exact ih v.parent holder
          · exact findsOrdered_ok happ (Application.ordered_rootValue app)
    · exact ih id holder

theorem keeps_presentedValue (hI : Application.Orderly I) (hw : w.Orderly) (id : VarId) :
    (presentedValue w id : TurnM σ Json).Keeps I Json.Ordered := by
  intro t ht
  obtain ⟨happ, hvalue⟩ := findsOrdered_presentedIn hI hw id ht.store ht.app
  rw [after, presentedValue]
  rcases hpresented : presentedIn w id t.session.store.entries t.app with ⟨halt | v, app⟩ <;>
    rw [hpresented] at happ hvalue
  · exact ⟨⟨happ, ht.store, ht.dispatch⟩, fun u t' hok ↦ absurd hok (by simp)⟩
  · refine ⟨⟨happ, ht.store, ht.dispatch⟩, fun u t' hok ↦ ?_⟩
    obtain ⟨⟩ := hok
    exact hvalue v rfl

theorem keeps_parentValue (hI : Application.Orderly I) (hw : w.Orderly) (parent : VarId) :
    (parentValue w parent : TurnM σ Json).Keeps I Json.Ordered := by
  rw [parentValue]
  refine keeps_store.bind fun s _ ↦ ?_
  split
  · exact keeps_presentedValue hI hw parent
  · exact keeps_look.bind fun t _ ↦ keeps_pure (Application.ordered_rootValue _)

theorem keeps_present (hI : Application.Orderly I) (hw : w.Orderly) (id : VarId) :
    (present w id : TurnM σ Json).Keeps I Json.Ordered := by
  rw [present]
  refine (keeps_presentedValue hI hw id).bind fun v hv ↦ ?_
  refine (keeps_modifyStore fun s hs ↦ ?_).bind fun _ _ ↦ keeps_pure hv
  refine hs.modify id fun u hu ↦ ?_
  split
  · exact hv
  · exact hu

/-! ## Watching

The observer is sent what the variable presents. Ending a watch sends nothing and stores nothing. -/

theorem keeps_watch (hI : Application.Orderly I) (hw : w.Orderly) (o : Observer)
    (id : VarId)
    (snapshot : Bool) : (watch w o id snapshot : TurnM σ Unit).Keeps I fun _ ↦ True := by
  rw [watch]
  refine keeps_look.bind fun tally _ ↦ (keeps_modifyTally _).bind fun _ _ ↦ ?_
  refine (keeps_present hI hw id).bind fun v hv ↦ ?_
  have hanswer : (if snapshot then do
      let properties := (((← store).get? id).map Variable.properties).getD .empty
      send o (.update id (some v) properties)
      else pure () : TurnM σ Unit).Keeps I fun _ ↦ True := by
    split
    · refine keeps_store.bind fun s _ ↦ keeps_send o ?_
      rintro u ⟨⟩
      exact hv
    · exact keeps_pure trivial
  dsimp only
  split
  · refine (keeps_modifyStore fun s hs ↦ hs.setActive id true).bind fun _ _ ↦ ?_
    exact (keeps_modifyTracker _).bind fun _ _ ↦ hanswer
  · exact hanswer

omit [Application σ] in
theorem keeps_release (id : VarId) : (release id : TurnM σ Unit).Keeps I fun _ ↦ True := by
  rw [release]
  exact (keeps_modifyStore fun s hs ↦ hs.setActive id false).bind fun _ _ ↦ keeps_modifyTracker _

omit [Application σ] in
theorem keeps_unwatch (o : Observer) (id : VarId) :
    (unwatch o id : TurnM σ Unit).Keeps I fun _ ↦ True := by
  rw [unwatch]
  refine keeps_look.bind fun tally _ ↦ (keeps_modifyTally _).bind fun _ _ ↦ ?_
  split
  · exact keeps_release id
  · exact keeps_pure trivial

omit [Application σ] in
theorem keeps_releaseAll (ids : List VarId) :
    (releaseAll ids : TurnM σ Unit).Keeps I fun _ ↦ True := by
  induction ids with
  | nil => exact keeps_pure trivial
  | cons id ids ih => exact (keeps_release id).bind fun _ _ ↦ ih

omit [Application σ] in
theorem keeps_unwatchAll (o : Observer) :
    (unwatchAll o : TurnM σ (List VarId)).Keeps I fun _ ↦ True := by
  rw [unwatchAll]
  refine keeps_look.bind fun tally _ ↦ (keeps_modifyTally _).bind fun _ _ ↦ ?_
  exact (keeps_releaseAll _).bind fun _ _ ↦ keeps_pure trivial

/-! ## Creating

A value enters with the request, or is made by the application for a type. Where it goes from there
is the store, the tracker and the announcement. -/

theorem keeps_initialValue (hI : Application.Orderly I) (id : VarId) (ps : Properties)
    {value : Option Json} (hvalue : ∀ v ∈ value, v.Ordered) :
    (initialValue id ps value : TurnM σ Json).Keeps I Json.Ordered := by
  rw [initialValue]
  split
  · refine keeps_pure ?_
    rcases value with _ | v
    · exact Json.ordered_null
    · exact hvalue v rfl
  · next typeName _ =>
    have hask : (ask fun app ↦ Application.instantiate app typeName ps :
        TurnM σ (Except String ObjectRef)).Keeps I fun r ↦ ∀ a, r = .ok a → True :=
      keeps_ask fun app happ ↦ ⟨hI.instantiate app happ typeName ps, fun _ _ ↦ trivial⟩
    refine hask.bind fun r _ ↦ ?_
    split
    · exact keeps_pure (ObjectRef.ordered_json _)
    · exact keeps_refuse _

theorem keeps_createMessage (hI : Application.Orderly I) (hw : w.Orderly) (id : VarId)
    (noWatch : Bool) : (createMessage w id noWatch : TurnM σ Message).Keeps I Message.Ordered := by
  rw [createMessage]
  refine (keeps_present hI hw id).bind fun v hv ↦ keeps_store.bind fun s _ ↦ ?_
  split
  · refine keeps_pure ?_
    rintro u ⟨⟩
    exact hv
  · exact keeps_refuse _

omit [Application σ] in
theorem keeps_chooseId (id : Option VarId) :
    (chooseId id : TurnM σ VarId).Keeps I fun _ ↦ True := by
  rcases id with _ | id
  · refine keeps_store.bind fun s _ ↦ ?_
    refine (keeps_modifyStore fun s hs ↦ ?_).bind fun _ _ ↦ keeps_pure trivial
    exact hs
  · exact keeps_pure trivial

omit [Application σ] in
theorem keeps_insertVariable (id : VarId) {new : NewVariable} (hnew : new.value.Ordered) :
    (insertVariable id new : TurnM σ Unit).Keeps I fun _ ↦ True := by
  rw [insertVariable]
  refine keeps_store.bind fun s hs ↦ ?_
  exact (keeps_orRefuse fun s' hs' ↦ hs.insertAs hnew hs').bind fun s' hs' ↦
    keeps_modifyStore fun _ _ ↦ hs'

theorem keeps_answerCreator (hI : Application.Orderly I) (hw : w.Orderly)
    (creator : Observer) (request : CreateRequest) (id : VarId) (derived : Bool) :
    (answerCreator w creator request id derived : TurnM σ Unit).Keeps I fun _ ↦ True := by
  have hwatch : (if !request.noWatch then watch w creator id derived
      else pure () : TurnM σ Unit).Keeps I fun _ ↦ True := by
    split
    · exact keeps_watch hI hw creator id derived
    · exact keeps_pure trivial
  rw [answerCreator]
  dsimp only
  split
  · exact (keeps_createMessage hI hw id request.noWatch).bind fun m hm ↦
      (keeps_send creator hm).bind fun _ _ ↦ hwatch
  · exact hwatch

theorem keeps_announce (hI : Application.Orderly I) (hw : w.Orderly) (parent id : VarId) :
    (announce w parent id : TurnM σ Unit).Keeps I fun _ ↦ True := by
  rw [announce]
  exact (keeps_createMessage hI hw id false).bind fun m hm ↦ keeps_look.bind fun tally _ ↦
    keeps_sendAll _ hm

theorem keeps_create (hI : Application.Orderly I) (hw : w.Orderly) (creator : Option Observer)
    {request : CreateRequest} (hvalue : ∀ v ∈ request.value, v.Ordered) :
    (create w creator request : TurnM σ VarId).Keeps I fun _ ↦ True := by
  rw [create]
  refine (keeps_chooseId request.id).bind fun id _ ↦ keeps_store.bind fun s _ ↦ ?_
  refine (keeps_orRefuse fun _ _ ↦ trivial).bind fun _ _ ↦ ?_
  refine (keeps_orRefuse fun _ _ ↦ trivial).bind fun ps _ ↦ ?_
  refine (keeps_initialValue hI id ps hvalue).bind fun v hv ↦ ?_
  refine (keeps_insertVariable id hv).bind fun _ _ ↦ ?_
  dsimp only
  split
  · exact (keeps_answerCreator hI hw _ request id _).bind fun _ _ ↦ keeps_pure trivial
  · exact (keeps_announce hI hw request.parent id).bind fun _ _ ↦ keeps_pure trivial

/-! ## Updating and destroying

The value of an update is in order since the message is. A write into the parent builds the value of
the parent anew, and this is the one place where the order of a write along a path is needed. -/

theorem keeps_writeThrough (hI : Application.Orderly I) (hw : w.Orderly) (id : VarId)
    {value : Json} (hvalue : value.Ordered) :
    (writeThrough w id value : TurnM σ Unit).Keeps I fun _ ↦ True := by
  rw [writeThrough]
  refine keeps_store.bind fun s hs ↦ ?_
  split
  · exact keeps_refuse _
  next v _ =>
  split
  · exact keeps_pure trivial
  split
  · exact keeps_refuse _
  next path _ =>
  refine (keeps_parentValue hI hw v.parent).bind fun base _ ↦ ?_
  split
  · next r _ =>
    have hask : (ask fun app ↦ Application.write app r path.segments value :
        TurnM σ (Except String Unit)).Keeps I fun r ↦ ∀ a, r = .ok a → True :=
      keeps_ask fun app happ ↦ ⟨hI.write app happ r path.segments value hvalue, fun _ _ ↦ trivial⟩
    -- into an object of the application, which hands nothing out but a reason
    refine hask.bind fun reply _ ↦ ?_
    split
    · exact keeps_pure trivial
    · exact keeps_refuse _
  refine keeps_store.bind fun s' hs' ↦ ?_
  split
  · next u hu =>
    split
    · exact keeps_refuse _
    split
    · next value' hassign =>
      -- into the parent, whose own value is built anew
      have hvalue' := Document.ordered_of_assign (hs'.get? hu) hvalue hassign
      exact keeps_modifyStore fun _ hs'' ↦ hs''.modify v.parent fun _ _ ↦ hvalue'
    · exact keeps_refuse _
  · exact keeps_refuse _

omit [Application σ] in
theorem keeps_storeUpdate (id : VarId) {value : Option Json}
    (hvalue : ∀ v ∈ value, v.Ordered)
    (ps : Properties) : (storeUpdate id value ps : TurnM σ Unit).Keeps I fun _ ↦ True := by
  rw [storeUpdate]
  refine keeps_store.bind fun s hs ↦ ?_
  exact (keeps_orRefuse fun s' hs' ↦ hs.update hvalue hs').bind fun s' hs' ↦
    keeps_modifyStore fun _ _ ↦ hs'

theorem keeps_update (hI : Application.Orderly I) (hw : w.Orderly) (o : Observer)
    (id : VarId) {value : Option Json} (hvalue : ∀ v ∈ value, v.Ordered) (ps : Properties) :
    (update w o id value ps : TurnM σ Unit).Keeps I fun _ ↦ True := by
  rw [update]
  refine keeps_store.bind fun s _ ↦ ?_
  split
  · exact keeps_refuse _
  next u _ =>
  refine keeps_store.bind fun s' _ ↦ ?_
  have hnew : ∀ v ∈ effectiveValue s' id value, v.Ordered := by
    rw [effectiveValue]
    split
    · exact fun v hv ↦ absurd hv (by simp)
    · exact hvalue
  dsimp only
  -- what counts of the value is that value or nothing, and so in order
  generalize effectiveValue s' id value = effective at hnew
  have hrelay : (if effective.isSome || !ps.isEmpty then do
      let others := ((← tally).watchers id).filter (· ≠ o)
      sendAll others (.update id effective ps)
      else pure () : TurnM σ Unit).Keeps I fun _ ↦ True := by
    split
    · exact keeps_look.bind fun tally _ ↦ keeps_sendAll _ hnew
    · exact keeps_pure trivial
  split
  · exact (keeps_storeUpdate id hnew ps).bind fun _ _ ↦ hrelay
  · next new =>
    have hstore : (do
        storeUpdate id (some new) ps
        modifyTracker fun t ↦ t.remember id new
        if (some new).isSome || !ps.isEmpty then do
          let others := ((← tally).watchers id).filter (· ≠ o)
          sendAll others (.update id (some new) ps)
        else pure () : TurnM σ Unit).Keeps I fun _ ↦ True :=
      (keeps_storeUpdate id hnew ps).bind fun _ _ ↦ (keeps_modifyTracker _).bind fun _ _ ↦ hrelay
    split
    · exact (keeps_writeThrough hI hw id (hnew new rfl)).bind fun _ _ ↦ hstore
    · exact hstore

omit [Application σ] in
theorem keeps_destroy (requester : Option Observer) (id : VarId) :
    (destroy requester id : TurnM σ Unit).Keeps I fun _ ↦ True := by
  rw [destroy]
  refine keeps_look.bind fun tally _ ↦ keeps_store.bind fun s _ ↦ ?_
  dsimp only
  split
  · refine (keeps_modifyStore fun s hs ↦ hs.destroy id).bind fun _ _ ↦ ?_
    refine (keeps_modifyTally _).bind fun _ _ ↦ (keeps_modifyTracker _).bind fun _ _ ↦ ?_
    exact keeps_sendAll _ fun v hv ↦ absurd hv (by simp [Message.value?])
  · exact keeps_pure trivial

/-! ## Detecting changes

A change is reported with the value that was presented, and this value is kept in the store and
told. -/

theorem keeps_examine (hI : Application.Orderly I) (hw : w.Orderly) (id : VarId) :
    (examine w id : TurnM σ (Option Change)).Keeps I
      fun c ↦ ∀ change ∈ c, change.value.Ordered := by
  rw [examine]
  refine (keeps_present hI hw id).attempt.bind fun r hr ↦ ?_
  split
  · exact keeps_pure fun change h ↦ absurd h (by simp)
  · next v =>
    refine keeps_look.bind fun tracker _ ↦ ?_
    split
    · refine (keeps_modifyTracker _).bind fun _ _ ↦ keeps_pure ?_
      rintro change ⟨⟩
      exact hr v rfl
    · exact keeps_pure fun change h ↦ absurd h (by simp)

theorem keeps_examineAll (hI : Application.Orderly I) (hw : w.Orderly) (ids : List VarId) :
    (examineAll w ids : TurnM σ (List Change)).Keeps I
      fun cs ↦ ∀ change ∈ cs, change.value.Ordered := by
  induction ids with
  | nil => exact keeps_pure fun change h ↦ absurd h (by simp)
  | cons id ids ih =>
    refine (keeps_examine hI hw id).bind fun c hc ↦ ih.bind fun cs hcs ↦ keeps_pure ?_
    exact List.forall_mem_append.mpr ⟨fun change h ↦ hc change (Option.mem_toList.mp h), hcs⟩

omit [Application σ] in
theorem keeps_tellChanges {changes : List Change}
    (h : ∀ change ∈ changes, change.value.Ordered) :
    (tellChanges changes : TurnM σ Unit).Keeps I fun _ ↦ True := by
  induction changes with
  | nil => exact keeps_pure trivial
  | cons change changes ih =>
    rw [List.forall_mem_cons] at h
    refine keeps_look.bind fun tally _ ↦ (keeps_sendAll _ ?_).bind fun _ _ ↦ ih h.2
    rintro v ⟨⟩
    exact h.1

theorem keeps_detectChanges (hI : Application.Orderly I) (hw : w.Orderly) :
    (detectChanges w : TurnM σ Nat).Keeps I fun _ ↦ True := by
  rw [detectChanges, detect]
  refine (keeps_look.bind fun t _ ↦ keeps_examineAll hI hw _).bind fun changes hchanges ↦ ?_
  exact (keeps_tellChanges hchanges).bind fun _ _ ↦ keeps_pure trivial

/-! ## Messages

What is handled is a batch that has been decoded, so the hypothesis on its messages is what the
reader of JSON guarantees. -/

theorem keeps_obey (hI : Application.Orderly I) (hw : w.Orderly) (o : Observer)
    {m : Message} (hm : m.Ordered) : (obey w o m : TurnM σ Unit).Keeps I fun _ ↦ True := by
  rcases m with ⟨parent, value, ps, id, noWatch, unbound⟩ | ⟨id, value, ps⟩ | id | id | id | _
  · have hvalue : ∀ v ∈ value, v.Ordered := hm
    exact (keeps_create hI hw (some o) hvalue).bind fun _ _ ↦ keeps_pure trivial
  · exact keeps_update hI hw o id hm ps
  · refine keeps_store.bind fun s _ ↦ ?_
    split
    · exact keeps_watch hI hw o id true
    · exact keeps_refuse _
  · exact keeps_unwatch o id
  · exact keeps_destroy (some o) id
  · exact keeps_pure trivial

theorem keeps_handle (hI : Application.Orderly I) (hw : w.Orderly) (o : Observer)
    {m : Message} (hm : m.Ordered) : (handle w o m : TurnM σ Unit).Keeps I fun _ ↦ True := by
  rw [handle]
  refine (keeps_obey hI hw o hm).attempt.bind fun r _ ↦ ?_
  split
  · exact keeps_pure trivial
  · exact keeps_send o fun v hv ↦ absurd hv (by simp [SyncError.message, Message.value?])

theorem keeps_handleAll (hI : Application.Orderly I) (hw : w.Orderly) (o : Observer)
    {ms : List Message} (hms : ∀ m ∈ ms, m.Ordered) :
    (handleAll w o ms : TurnM σ Unit).Keeps I fun _ ↦ True := by
  induction ms with
  | nil => exact keeps_pure trivial
  | cons m ms ih =>
    rw [List.forall_mem_cons] at hms
    exact (keeps_handle hI hw o hms.1).bind fun _ _ ↦ ih hms.2

/-- **Processing a batch keeps all values in order.** -/
theorem keeps_receiveBatch (hI : Application.Orderly I) (hw : w.Orderly) (o : Observer) {b : Batch}
    (hb : ∀ m ∈ b.ordered, m.Ordered) :
    (receiveBatch w o b : TurnM σ Nat).Keeps I fun _ ↦ True := by
  rw [receiveBatch]
  exact (keeps_handleAll hI hw o hb).bind fun _ _ ↦ keeps_detectChanges hI hw

end Application

end ReactiveVars
