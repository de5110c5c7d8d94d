import ReactiveVars.Proofs.Backend.Addressees
import ReactiveVars.Proofs.Backend.StoreSteps
import ReactiveVars.Proofs.Backend.Walks
import ReactiveVars.Proofs.Frontend.Edits

/-!
# Creates without number

Since the numbers of both sides stay ahead, a number that is given out is always free. A create that
leaves the choice of the number to the store may be refused for other reasons, but never because the
number is in use.

## Main statement

* `numbers_given_out_new`: what the two sides give out is new, from ranges that do not meet, and a
  create without number never meets a number in use.
-/

namespace ReactiveVars

open TurnM

variable {σ α β : Type}

/-! ## Why a create is cut short

A create goes through many hands before its number is used, and each may refuse it.
`MeetsNoDuplicate` goes from one to the next along the binds, so that only the insertion itself is
left to look at. -/

/-- Whether the reason is that a number is in use. -/
def Halt.isDuplicate : Halt → Bool
  | .refused (.duplicateId _) => true
  | _ => false

/-- Whether a part is not cut short because a number is in use. -/
def TurnM.MeetsNoDuplicate (x : TurnM σ α) (t : Turn σ) : Prop :=
  ∀ halt t', x t = .error halt t' → halt.isDuplicate = false

namespace TurnM

variable {x : TurnM σ α} {f : α → TurnM σ β} {t t' : Turn σ}

theorem meetsNoDuplicate_of_ok {a : α} (h : x t = .ok a t') : x.MeetsNoDuplicate t := by
  intro halt t'' herror
  rw [h] at herror
  exact absurd herror (by simp)

theorem meetsNoDuplicate_of_error {halt : Halt} (h : x t = .error halt t')
    (hhalt : halt.isDuplicate = false) : x.MeetsNoDuplicate t := by
  intro halt' t'' herror
  rw [h] at herror
  rwa [← (EStateM.Result.error.inj herror).1]

theorem MeetsNoDuplicate.bind (hx : x.MeetsNoDuplicate t)
    (hf : ∀ a t', x t = .ok a t' → (f a).MeetsNoDuplicate t') : (x >>= f).MeetsNoDuplicate t := by
  intro halt t' h
  rw [bind_run] at h
  rcases hxt : x t with ⟨a, t₁⟩ | ⟨halt₁, t₁⟩
  · rw [hxt] at h
    exact hf a t₁ hxt halt t' h
  · rw [hxt] at h
    obtain ⟨rfl, rfl⟩ := EStateM.Result.error.inj h
    exact hx halt₁ t₁ hxt

end TurnM

variable [Application σ] {w : WrapperRegistry} {t : Turn σ} {id : VarId}

private theorem presentedIn_isDuplicate (w : WrapperRegistry) (id : VarId) (vs : List Variable)
    (app : σ)
    {halt : Halt} (h : (presentedIn w id vs app).1 = .error halt) : halt.isDuplicate = false := by
  induction vs generalizing id app with
  | nil =>
    rw [← Except.error.inj h]
    rfl
  | cons v older ih =>
    rw [presentedIn] at h
    by_cases hid : v.id = id
    · rw [if_pos hid] at h
      rcases hraw : v.path? with _ | raw
      · simp only [hraw] at h
        exact absurd h (by simp)
      rcases hparse : Path.parse raw with e | path
      · simp only [hraw, hparse] at h
        rw [← Except.error.inj h]
        rfl
      · simp only [hraw, hparse] at h
        rcases v.presentFrom_error h with hbase | rfl
        · split at hbase
          · exact ih v.parent app hbase
          · exact absurd hbase (by simp)
        · rfl
    · rw [if_neg hid] at h
      exact ih id app h

theorem presented_isDuplicate {halt : Halt} {app : σ} (h : t.presented w id = (.error halt, app)) :
    halt.isDuplicate = false := by
  rw [Turn.presented] at h
  exact presentedIn_isDuplicate w id _ t.app (congrArg Prod.fst h)

theorem createMessage_meetsNoDuplicate (noWatch : Bool) :
    (createMessage w id noWatch).MeetsNoDuplicate t := by
  rcases hp : t.presented w id with ⟨halt | v, app⟩
  · exact meetsNoDuplicate_of_error (createMessage_of_error hp noWatch) (presented_isDuplicate hp)
  · obtain ⟨u, hu⟩ := Store.contains_iff.mp (contains_of_presented hp)
    exact meetsNoDuplicate_of_ok (createMessage_of_ok hp hu noWatch)

theorem watch_meetsNoDuplicate (o : Observer) (snapshot : Bool) :
    (watch w o id snapshot).MeetsNoDuplicate t := by
  rcases hp : t.presented w id with ⟨halt | v, app⟩
  · exact meetsNoDuplicate_of_error (watch_of_error hp snapshot) (presented_isDuplicate hp)
  · exact meetsNoDuplicate_of_ok (watch_of_ok hp snapshot)

theorem introduce_meetsNoDuplicate (creator : Option Observer) (request : CreateRequest)
    (ps : Properties) : (introduce w creator request id ps).MeetsNoDuplicate t := by
  rcases creator with _ | o
  · rw [introduce, announce]
    exact (createMessage_meetsNoDuplicate false).bind fun m t' _ ↦ meetsNoDuplicate_of_ok rfl
  · have hwatch (t : Turn σ) : (if (!request.noWatch) = true then watch w o id ps.areDerived
        else pure ()).MeetsNoDuplicate t := by
      split
      · exact watch_meetsNoDuplicate o ps.areDerived
      · exact meetsNoDuplicate_of_ok rfl
    rw [introduce, answerCreator]
    split
    · refine (createMessage_meetsNoDuplicate request.noWatch).bind fun m t' _ ↦ ?_
      exact hwatch { t' with dispatch := t'.dispatch ++ [(o, m)] }
    · exact hwatch t

omit [Application σ] in
theorem orRefuse_meetsNoDuplicate {r : Except SyncError α}
    (h : ∀ e, r = .error e → (Halt.refused e).isDuplicate = false) :
    (orRefuse r : TurnM σ α).MeetsNoDuplicate t := by
  rcases hr : r with e | a
  · exact meetsNoDuplicate_of_error (refuse_run e t) (h e hr)
  · exact meetsNoDuplicate_of_ok (orRefuse_ok_run a t)

omit [Application σ] in
private theorem eq_of_orRefuse {r : Except SyncError α} {a : α} {t' : Turn σ}
    (h : (orRefuse r : TurnM σ α) t = .ok a t') : r = .ok a ∧ t' = t := by
  rcases r with e | b
  · exact absurd h (by simp [orRefuse])
  · obtain ⟨rfl, rfl⟩ := EStateM.Result.ok.inj h
    exact ⟨rfl, rfl⟩

theorem initialValue_meetsNoDuplicate (id : VarId) (ps : Properties) (value : Option Json) :
    (initialValue id ps value).MeetsNoDuplicate t := by
  rcases htype : ps.createType? with _ | typeName
  · exact meetsNoDuplicate_of_ok (by rw [initialValue, htype]; rfl)
  · rw [initialValue, htype]
    have hask : (ask fun app ↦ Application.instantiate app typeName ps).MeetsNoDuplicate t := by
      obtain ⟨app, ⟨r, hr⟩ | hcrash⟩ :=
        ask_run (fun app ↦ Application.instantiate app typeName ps) t
      · exact meetsNoDuplicate_of_ok hr
      · exact meetsNoDuplicate_of_error hcrash rfl
    refine hask.bind fun r t' _ ↦ ?_
    rcases r with reason | r
    · exact meetsNoDuplicate_of_error (refuse_run _ t') rfl
    · exact meetsNoDuplicate_of_ok (pure_run _ t')

private theorem session_of_initialValue {ps : Properties} {value : Option Json} {v : Json}
    {t' : Turn σ} (h : initialValue id ps value t = .ok v t') : t'.session = t.session := by
  obtain ⟨v', app, hrun, -⟩ | ⟨halt, app, hrun, -⟩ := initialValue_run id ps value t
  · rw [h, EStateM.Result.ok.injEq] at hrun
    rw [hrun.2]
  · rw [h] at hrun
    exact absurd hrun (by simp)

private theorem isDuplicate_of_withPathParams {ps : Properties} {e : SyncError}
    (h : withPathParams id ps = .error e) : (Halt.refused e).isDuplicate = false := by
  rw [withPathParams] at h
  split at h
  · exact absurd h (by simp)
  · split at h
    · exact absurd h (by simp)
    · rw [← Except.error.inj h]
      rfl

omit [Application σ] in
theorem insertVariable_meetsNoDuplicate {new : NewVariable}
    (h : ∀ e, t.session.store.checkNew id new.parent = .error e →
      (Halt.refused e).isDuplicate = false) : (insertVariable id new).MeetsNoDuplicate t := by
  rw [insertVariable]
  refine (meetsNoDuplicate_of_ok (store_run _)).bind fun s t' hs ↦ ?_
  obtain ⟨rfl, rfl⟩ := EStateM.Result.ok.inj hs
  refine (orRefuse_meetsNoDuplicate fun e he ↦ ?_).bind fun s t' _ ↦
    meetsNoDuplicate_of_ok (modifyStore_run _ t')
  rw [Store.insertAs_eq_error_iff] at he
  exact h e he

theorem register_meetsNoDuplicate {start : IdSource} {used : List NumberUse}
    (h : t.session.store.Ahead start used)
    (parent : VarId) (value : Option Json) (ps : Properties) (noWatch unbound : Bool) :
    (register ⟨parent, value, ps, none, noWatch, unbound⟩).MeetsNoDuplicate t := by
  have hcheck (e : SyncError)
      (he : t.session.store.vend.2.checkNew t.session.store.vend.1 parent = .error e) :
      (Halt.refused e).isDuplicate = false := by
    rcases e with _ | _ | k | _
    case duplicateId => exact absurd he (h.checkNew_next_ne_duplicateId parent k)
    all_goals rfl
  rw [register]
  refine (meetsNoDuplicate_of_ok (chooseId_run _ t)).bind fun id t₁ hid ↦ ?_
  obtain ⟨rfl, rfl⟩ := EStateM.Result.ok.inj hid
  refine (meetsNoDuplicate_of_ok (store_run _)).bind fun s t₂ hs ↦ ?_
  obtain ⟨rfl, rfl⟩ := EStateM.Result.ok.inj hs
  refine (orRefuse_meetsNoDuplicate hcheck).bind fun _ t₃ ht₃ ↦ ?_
  obtain ⟨-, rfl⟩ := eq_of_orRefuse ht₃
  refine (orRefuse_meetsNoDuplicate fun _ ↦ isDuplicate_of_withPathParams).bind
    fun ps' t₄ ht₄ ↦ ?_
  obtain ⟨-, rfl⟩ := eq_of_orRefuse ht₄
  refine (initialValue_meetsNoDuplicate _ ps' value).bind fun value' t₅ ht₅ ↦ ?_
  refine MeetsNoDuplicate.bind ?_ fun _ t₆ _ ↦ meetsNoDuplicate_of_ok rfl
  -- the insertion repeats the check, in the store in which it was made
  refine insertVariable_meetsNoDuplicate fun e he ↦ hcheck e ?_
  rw [session_of_initialValue ht₅] at he
  exact he

/-- **A create without number does not meet a number in use.** -/
theorem create_meetsNoDuplicate {start : IdSource} {used : List NumberUse}
    (h : t.session.store.Ahead start used)
    (creator : Option Observer) (parent : VarId) (value : Option Json) (ps : Properties)
    (noWatch unbound : Bool) :
    (create w creator ⟨parent, value, ps, none, noWatch, unbound⟩).MeetsNoDuplicate t := by
  rw [create_eq]
  refine (register_meetsNoDuplicate h parent value ps noWatch unbound).bind fun r t₁ _ ↦ ?_
  refine (introduce_meetsNoDuplicate creator _ r.2).bind fun _ t₂ _ ↦ ?_
  exact meetsNoDuplicate_of_ok (pure_run r.1 t₂)

/-! ## Both sides

The backend counts up from the root and the copy of a frontend counts down, so their ranges do not
meet. What the answers are and what a copy returns come from the same fact about stores. -/

/-- The code of an error message. -/
def Message.code? : Message → Option String
  | .error _ code _ => code
  | _ => none

private theorem SyncError.code_ne_duplicate {e : SyncError}
    (h : (Halt.refused e).isDuplicate = false) : e.code ≠ "duplicate-id" := by
  rcases e with _ | _ | k | _
  case duplicateId => exact absurd h (by simp [Halt.isDuplicate])
  all_goals simp [code]

/-- A create without number is not answered with the error that its number is in use. -/
theorem sent_create_code? {start : IdSource} {used : List NumberUse}
    (h : t.session.store.Ahead start used) (o : Observer)
    (parent : VarId) (value : Option Json) (ps : Properties) (noWatch unbound : Bool) :
    ∀ e ∈ (Operation.handle o (.create parent value ps none noWatch unbound)).sent w t,
      e.2.code? ≠ some "duplicate-id" := by
  have hobey : (obey w o (.create parent value ps none noWatch unbound)).MeetsNoDuplicate t := by
    rw [obey]
    exact (create_meetsNoDuplicate h (some o) parent value ps noWatch unbound).bind fun _ t' _ ↦
      meetsNoDuplicate_of_ok (pure_run _ t')
  obtain ⟨d, hd, htell⟩ := obey_tells w o (.create parent value ps none noWatch unbound) t
  have htold (e : Observer × Message) (he : e ∈ d) : e.2.code? ≠ some "duplicate-id" := by
    have hno := (htell e he).1
    rcases e with ⟨o', _ | _ | _ | _ | _ | _⟩
    case error => exact absurd hno (by simp [Message.isError])
    all_goals simp [Message.code?]
  obtain hsame | ⟨e, t', hresult, hmore⟩ :=
    dispatch_handle_cases w o (.create parent value ps none noWatch unbound) t
  · rw [sent_eq (d := d)]
    · exact htold
    · exact hsame.trans hd
  · rw [sent_eq (d := d ++ [(o, e.message)])]
    · intro e' he'
      rcases List.mem_append.mp he' with he' | he'
      · exact htold e' he'
      · rw [List.mem_singleton.mp he']
        exact fun hcode ↦ SyncError.code_ne_duplicate (hobey _ _ hresult) (Option.some_inj.mp hcode)
    · rw [Operation.part, hmore, hd, List.append_assoc]

/-- The copy of a frontend gives out numbers that are free, too. -/
theorem LocalStore.create_ne_duplicateId {start : IdSource} {used : List NumberUse}
    {l : LocalStore} (h : l.store.Ahead start used) (now : Nat) (parent : VarId)
    (value : Option Json) (ps : Properties) (o : Option Observer) (unbound : Bool) (k : VarId) :
    (l.create now parent value ps o unbound).1 ≠ .error (.duplicateId k) := by
  have hcheck : l.store.checkNew l.store.ids.next parent ≠ .error (.duplicateId k) :=
    h.checkNew_next_ne_duplicateId parent k
  rw [create, Store.insert_vended]
  rcases hnew : l.store.checkNew l.store.ids.next parent with e | _
  · rw [hnew] at hcheck
    exact fun he ↦ hcheck (congrArg _ (Except.error.inj he))
  · simp

/-- Whether the numbers that edits of a store are given out are new, and of a range. -/
structure Store.GivesOutNew (s : Store) (es : List Store.Edit) (range : VarId → Prop) : Prop where
  /-- A number that is given out differs from all that have been given out before, and from all
  under which a variable has been inserted before, also if that is gone. -/
  fresh : (s.uses es).Pairwise fun u u' ↦ u'.MayFollow u
  in_range : ∀ id, .vended id ∈ s.uses es → range id

theorem Store.givesOutNew {start : IdSource} (h : start.InRange start.next)
    (es : List Store.Edit) : (Store.withIds start).GivesOutNew es start.InRange := by
  have hahead := (Store.ahead_withIds h).run es
  rw [List.nil_append] at hahead
  exact ⟨hahead.fresh, hahead.in_range⟩

/-- **Numbers that are given out are new**, and the two sides give out different ones. So a create
without number is not refused because of its number: the backend does not answer it so, whatever the
session has gone through, nor does a frontend. -/
theorem numbers_given_out_new (h : t.Attainable w) :
    (∀ es, (Store.withIds .backend).GivesOutNew es (· < 0)) ∧
    (∀ start es, (Store.withIds (.frontendFrom start)).GivesOutNew es (rootId < ·)) ∧
    (∀ o parent value ps noWatch unbound,
      ∀ e ∈ (Operation.handle o (.create parent value ps none noWatch unbound)).sent w t,
        e.2.code? ≠ some "duplicate-id") ∧
    (∀ creator parent value ps noWatch unbound k t',
      create w creator ⟨parent, value, ps, none, noWatch, unbound⟩ t
        ≠ .error (.refused (.duplicateId k)) t') ∧
    ∀ window base as now parent value ps o unbound k,
      (((LocalStore.withBase window base).run as).create now parent value ps o unbound).1
        ≠ .error (.duplicateId k) := by
  -- both sides stay ahead of the numbers they have used
  obtain ⟨used, hused⟩ := h.ahead
  refine ⟨?_, ?_, ?_, ?_, ?_⟩
  · exact fun es ↦ Store.givesOutNew IdSource.inRange_backend es
  · exact fun start es ↦ Store.givesOutNew (IdSource.inRange_frontendFrom start) es
  · exact sent_create_code? hused
  · intro creator parent value ps noWatch unbound k t' hcreate
    have hhalt := create_meetsNoDuplicate hused creator parent value ps noWatch unbound _ t' hcreate
    exact absurd hhalt (by simp [Halt.isDuplicate])
  · intro window base as
    obtain ⟨used', hused'⟩ := LocalStore.ahead_run window base as
    exact LocalStore.create_ne_duplicateId hused'

/-- An observer has chosen numbers from the range of the backend, the second one out of turn. -/
def ContactBook.numbered : Turn ObjectSpace :=
  turn.run .standard [.handle "a" (.create rootId none .empty (some (-1)) true false),
    .handle "a" (.create rootId none .empty (some (-3)) true false)]

/-- The backend goes on behind the numbers that were chosen. -/
theorem numbered_given_out_new :
    ContactBook.numbered.Attainable .standard ∧
      (Operation.handle "b" (.create rootId none .empty none true false)).sent .standard
        ContactBook.numbered = [("b", .create rootId (some .null) .empty (some (-4)) true false)] ∧
      ∀ e ∈ (Operation.handle "b" (.create rootId none .empty none true false)).sent .standard
        ContactBook.numbered, e.2.code? ≠ some "duplicate-id" := by
  have hattainable : ContactBook.numbered.Attainable .standard := (Turn.Attainable.fresh _ _).run _
  refine ⟨hattainable, by rfl, ?_⟩
  exact (numbers_given_out_new hattainable).2.2.1 "b" rootId none .empty true false

end ReactiveVars
