import ReactiveVars.Proofs.Backend.Operations
import ReactiveVars.Proofs.Delivery.Parcels

/-!
# What a turn of a session does to its connections

The messages of a turn are handed to the batchers of those they are for. A turn that is refused
hands over nothing; so nothing is lost as long as a turn has nothing to send when it is refused.
This is so of every turn that a session runs: answers to messages are never refused, since a refusal
is an answer itself, and a create on the backend's own account tells the watchers of the parent last
of all.

## Main statement

* `get?_runTurn`: what becomes of the batcher of each observer by a turn.
-/

namespace ReactiveVars

open TurnM

variable {σ α β : Type}

/-! ## Turns that are refused

What a turn has to send is lost if it ends in a refusal. Most turns never do, and the one that can
has not sent anything yet. -/

namespace TurnM

/-- Whether a part is never refused, but at most cut short by a crash. -/
def NeverRefused (x : TurnM σ α) : Prop := ∀ t e t', x t ≠ .error (.refused e) t'

/-- Whether a part has sent nothing when it is refused. -/
def RefusesUnsent (x : TurnM σ α) : Prop :=
  ∀ t e t', x t = .error (.refused e) t' → t'.dispatch = t.dispatch

theorem NeverRefused.refusesUnsent {x : TurnM σ α} (h : x.NeverRefused) : x.RefusesUnsent :=
  fun t e t' hx ↦ absurd hx (h t e t')

theorem neverRefused_of_ok {x : TurnM σ α} (h : ∀ t, ∃ a t', x t = .ok a t') :
    x.NeverRefused := by
  intro t e t' hx
  obtain ⟨a, t'', hok⟩ := h t
  rw [hok] at hx
  exact absurd hx (by simp)

theorem NeverRefused.bind {x : TurnM σ α} {f : α → TurnM σ β} (hx : x.NeverRefused)
    (hf : ∀ a, (f a).NeverRefused) : (x >>= f).NeverRefused := by
  intro t e t' h
  rw [bind_run] at h
  cases hxt : x t with
  | ok a t₁ =>
    rw [hxt] at h
    exact hf a t₁ e t' h
  | error halt t₁ =>
    rw [hxt] at h
    obtain ⟨rfl, rfl⟩ := EStateM.Result.error.inj h
    exact hx t e t₁ hxt

theorem neverRefused_pure (a : α) : (pure a : TurnM σ α).NeverRefused :=
  neverRefused_of_ok fun t ↦ ⟨a, t, rfl⟩

theorem neverRefused_attempt (x : TurnM σ α) : (attempt x).NeverRefused := by
  intro t e t' h
  rw [attempt] at h
  split at h <;> exact absurd h (by simp)

end TurnM

section Application

variable [Application σ]

theorem neverRefused_examineAll (w : WrapperRegistry) (ids : List VarId) :
    (examineAll w ids : TurnM σ _).NeverRefused := by
  induction ids with
  | nil => exact neverRefused_pure []
  | cons id ids ih =>
    have hexamine : (examine w id : TurnM σ _).NeverRefused := by
      refine (neverRefused_attempt (present w id)).bind fun value ↦ ?_
      cases value with
      | error e => exact neverRefused_pure none
      | ok value =>
        refine (neverRefused_of_ok fun t ↦ ⟨_, _, tracker_run t⟩).bind fun tracker ↦ ?_
        cases tracker.isNews id value with
        | true => exact neverRefused_of_ok fun t ↦ ⟨_, _, rfl⟩
        | false => exact neverRefused_pure none
    exact hexamine.bind fun change ↦ ih.bind fun changes ↦ neverRefused_pure _

theorem neverRefused_detectChanges (w : WrapperRegistry) :
    (detectChanges w : TurnM σ Nat).NeverRefused := by
  intro t e t' h
  rw [detectChanges_run] at h
  split at h
  · next halt t₁ hexamine =>
    obtain ⟨rfl, rfl⟩ := EStateM.Result.error.inj h
    exact neverRefused_examineAll w _ t e t₁ hexamine
  · exact absurd h (by simp)

theorem neverRefused_receiveBatch (w : WrapperRegistry) (o : Observer) (b : Batch) :
    (receiveBatch w o b : TurnM σ Nat).NeverRefused := by
  have hhandle (m : Message) : (handle w o m : TurnM σ Unit).NeverRefused := by
    refine (neverRefused_attempt (obey w o m)).bind fun r ↦ ?_
    cases r with
    | error e => exact neverRefused_of_ok fun t ↦ ⟨_, _, send_run o e.message t⟩
    | ok _ => exact neverRefused_pure ()
  have hall (ms : List Message) : (handleAll w o ms : TurnM σ Unit).NeverRefused := by
    induction ms with
    | nil => exact neverRefused_pure ()
    | cons m ms ih => exact (hhandle m).bind fun _ ↦ ih
  exact (hall b.ordered).bind fun _ ↦ neverRefused_detectChanges w

private theorem dispatch_of_announce_error {w : WrapperRegistry} {parent id : VarId} {t t' : Turn σ}
    {halt : Halt} (h : announce w parent id t = .error halt t') : t'.dispatch = t.dispatch := by
  rw [announce, bind_run] at h
  rcases hp : t.presented w id with ⟨halt' | v, app⟩
  · rw [createMessage_of_error hp] at h
    rw [← (EStateM.Result.error.inj h).2]
  · obtain ⟨u, hu⟩ := Store.contains_iff.mp (contains_of_presented hp)
    rw [createMessage_of_ok hp hu] at h
    exact absurd h (by simp [bind_run])

/-- A create on the backend's own account is refused before the watchers are told. -/
theorem refusesUnsent_create (w : WrapperRegistry) (request : CreateRequest) :
    (create w none request : TurnM σ VarId).RefusesUnsent := by
  intro t e t' h
  rw [create_eq, bind_run] at h
  rcases register_run request t with ⟨-, ps, value, app, -, hregister⟩ | ⟨-, halt, app, hregister⟩
  · rw [hregister] at h
    simp only [introduce, bind_run] at h
    split at h
    · exact absurd h (by simp)
    · next halt t₁ hannounce =>
      rw [← (EStateM.Result.error.inj h).2, dispatch_of_announce_error hannounce]
  · rw [hregister] at h
    rw [← (EStateM.Result.error.inj h).2]

end Application

/-! ## Handing over the messages of a turn

The messages are posted one after another, each to one batcher. For one observer this is what it
would be if only its own messages were there. -/

/-- The batcher after messages of a turn: those that answer a user event are sent at once. -/
def Batcher.deliver (b : Batcher) (now : Nat) (userEvent : Bool) (ms : List Message) : Batcher :=
  let b' := ms.foldl (fun b m ↦ b.queue now m) b
  if userEvent && !ms.isEmpty then b'.flush true else b'

theorem Batcher.deliver_nil (b : Batcher) (now : Nat) (userEvent : Bool) :
    b.deliver now userEvent [] = b := by
  cases userEvent <;> rfl

theorem Batcher.Fed.deliver {b : Batcher} {ms : List Message} (h : b.Fed ms) (now : Nat)
    (userEvent : Bool) (more : List Message) : (b.deliver now userEvent more).Fed (ms ++ more) := by
  have hqueue : (more.foldl (fun b m ↦ b.queue now m) b).Fed (ms ++ more) := by
    induction more generalizing b ms with
    | nil => rwa [List.append_nil]
    | cons m more ih =>
      rw [List.append_cons]
      exact ih (h.queue now m)
  rw [Batcher.deliver]
  split
  · exact hqueue.flush true
  · exact hqueue

theorem Dispatch.forObserver_cons (e : Observer × Message) (d : Dispatch) (o : Observer) :
    Dispatch.forObserver (e :: d) o
      = if e.1 = o then e.2 :: d.forObserver o else d.forObserver o := by
  rw [forObserver, List.filter_cons]
  by_cases h : e.1 = o <;> simp [h, forObserver]

namespace Session

theorem get?_post (s : Session σ) (now : Nat) (o : Observer) (m : Message) (k : Observer) :
    (s.post now o m).connections.get? k
      = (s.connections.get? k).map fun b ↦ if o = k then b.queue now m else b := by
  rw [post, KeyMap.get?_modify]
  by_cases h : o = k <;> simp [h]

private theorem get?_postAll (s : Session σ) (now : Nat) (d : Dispatch) (o : Observer) :
    (s.postAll now d).connections.get? o
      = (s.connections.get? o).map fun b ↦
        (d.forObserver o).foldl (fun b m ↦ b.queue now m) b := by
  induction d generalizing s with
  | nil => simp [postAll, Dispatch.forObserver]
  | cons e d ih =>
    rw [postAll, List.foldl_cons, ← postAll, ih, get?_post, Option.map_map,
      Dispatch.forObserver_cons]
    by_cases h : e.1 = o <;> simp [h, Function.comp_def]

theorem get?_deliver (s : Session σ) (now : Nat) (userEvent : Bool) (d : Dispatch) (o : Observer) :
    (s.deliver now userEvent d).connections.get? o
      = (s.connections.get? o).map fun b ↦ b.deliver now userEvent (d.forObserver o) := by
  have htold : (d.any fun e ↦ e.1 = o) = !(d.forObserver o).isEmpty := by
    induction d with
    | nil => rfl
    | cons e d ih =>
      rw [List.any_cons, ih, Dispatch.forObserver_cons]
      by_cases h : e.1 = o <;> simp [h]
  rw [deliver]
  cases userEvent with
  | false => exact get?_postAll s now d o
  | true =>
    rw [if_pos rfl, flushTold]
    simp only [KeyMap.get?_filterMap, get?_postAll, htold, Batcher.deliver, Bool.true_and]
    cases s.connections.get? o <;> rfl

/-- The messages of a turn, whether it is refused or not. -/
def dispatchOf (s : Session σ) (x : TurnM σ α) : Dispatch :=
  match s.executor.owned with
  | none => []
  | some app => (x.after ⟨s.state, app, []⟩).dispatch

/-- **A turn hands every message to the batcher it is for**, and leaves the others alone, unless it
crashes the application. -/
theorem get?_runTurn {s : Session σ} {x : TurnM σ α} (hx : x.RefusesUnsent) {now : Nat}
    {userEvent : Bool} (alive : (s.runTurn now userEvent x).2.executor.owned.isSome = true)
    (o : Observer) :
    (s.runTurn now userEvent x).2.connections.get? o
      = (s.connections.get? o).map fun b ↦
        b.deliver now userEvent ((s.dispatchOf x).forObserver o) := by
  rw [runTurn, perform] at alive ⊢
  cases howned : s.executor.owned with
  | none =>
    simp only [howned] at alive
    exact absurd alive (by simp)
  | some app =>
    have hdispatch : s.dispatchOf x = (x.after ⟨s.state, app, []⟩).dispatch := by
      rw [dispatchOf, howned]
    have hrun : x.run ⟨s.state, app, []⟩ = x ⟨s.state, app, []⟩ := rfl
    simp only [howned, hrun] at alive ⊢
    cases hresult : x ⟨s.state, app, []⟩ with
    | ok a t =>
      rw [hdispatch, after_of_ok hresult]
      exact get?_deliver _ now userEvent t.dispatch o
    | error halt t =>
      rw [hresult] at alive
      cases halt with
      | refused e =>
        have hnone : s.dispatchOf x = [] := by
          rw [hdispatch, after_of_error hresult, hx _ e t hresult]
        simp only [hnone, Dispatch.forObserver, List.filter_nil, List.map_nil,
          Batcher.deliver_nil, Option.map_id']
      | crashed => exact absurd alive (by simp)

end Session

end ReactiveVars
