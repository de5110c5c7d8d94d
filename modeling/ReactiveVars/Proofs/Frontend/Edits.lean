import ReactiveVars.Proofs.Frontend.Actions
import ReactiveVars.Proofs.Variable.Numbers

/-!
# Actions are edits of the copy

What is done with a frontend, batches from the backend included, edits its copy of the variables. So
the copy is a forest, and its numbers are ahead of all it has used.

## Main statements

* `run_editedTo`: actions are edits of the copy.
* `EditedTo.grown`, `EditedTo.ahead`: what the copy is after edits.
-/

namespace ReactiveVars.LocalStore

open Store

variable {l l' l'' : LocalStore}

/-- Whether the variables of one copy become those of another by edits. -/
def EditedTo (l l' : LocalStore) : Prop := ∃ es, l'.store = l.store.edited es

theorem editedTo_of_eq (h : l'.store = l.store) : l.EditedTo l' := ⟨[], h⟩

theorem editedTo_of_edit (e : Edit) (h : l'.store = e.after l.store) : l.EditedTo l' := ⟨[e], h⟩

theorem EditedTo.onward (h : l.EditedTo l') : l.store.ids.Onward l'.store.ids := by
  obtain ⟨es, hes⟩ := h
  rw [hes]
  exact onward_edited _ es

theorem EditedTo.trans (h : l.EditedTo l') (h' : l'.EditedTo l'') : l.EditedTo l'' := by
  obtain ⟨es, hes⟩ := h
  obtain ⟨es', hes'⟩ := h'
  refine ⟨es ++ es', ?_⟩
  rw [hes', hes, edited, edited, edited, List.foldl_append]

theorem takeIn_edit {s s' : Store} {id parent : VarId} {value : Option Json}
    {ps : Properties} {unbound : Bool} (h : takeIn s id parent value ps unbound = .ok s') :
    ∃ e : Edit, s' = e.after s := by
  rw [takeIn] at h
  split at h
  · exact ⟨.update id value ps, by rw [Edit.after, h]⟩
  · refine ⟨.insert ⟨some id, parent, value.getD .null, ps, unbound⟩, ?_⟩
    rw [Edit.after, Store.insert]
    simp only [h]

theorem applyMessage_edited (l : LocalStore) (m : Message) :
    l.EditedTo (l.applyMessage m).2 := by
  rcases m with ⟨parent, value, ps, _ | id, noWatch, unbound⟩ | ⟨id, value, ps⟩ | id | id | id |
    ⟨id, code, description⟩
  · exact editedTo_of_eq rfl
  · rw [applyMessage]
    rcases htake : takeIn l.store id parent value ps unbound with e | s
    · exact editedTo_of_eq rfl
    · obtain ⟨e, he⟩ := takeIn_edit htake
      exact editedTo_of_edit e he
  · rw [applyMessage]
    rcases hupdate : l.store.update id value ps with e | s
    · exact editedTo_of_eq rfl
    · exact editedTo_of_edit (.update id value ps) (by rw [Edit.after, hupdate])
  · exact editedTo_of_eq rfl
  · exact editedTo_of_eq rfl
  · exact editedTo_of_edit (.destroy id) rfl
  · exact editedTo_of_eq rfl

theorem applyAll_edited (l : LocalStore) (ms : List Message) :
    l.EditedTo (ms.foldl (fun l m ↦ (l.applyMessage m).2) l) := by
  induction ms generalizing l with
  | nil => exact editedTo_of_eq rfl
  | cons m ms ih => exact (l.applyMessage_edited m).trans (ih _)

theorem create_edited (l : LocalStore) (now : Nat) (parent : VarId) (value : Option Json)
    (ps : Properties) (o : Option Observer) (unbound : Bool) :
    l.EditedTo (l.create now parent value ps o unbound).2 := by
  refine editedTo_of_edit (.insert ⟨none, parent, value.getD .null, ps, unbound⟩) ?_
  rw [Edit.after, create]
  rcases l.store.insert ⟨none, parent, value.getD .null, ps, unbound⟩ with ⟨e | id, s⟩
  · rfl
  · rcases unbound with _ | _ <;> rfl

/-- **What an action does to the copy is a sequence of edits.** -/
theorem act_edited (l : LocalStore) (a : Action) : l.EditedTo (l.act a) := by
  rcases a with ⟨now, parent, value, ps, o, unbound⟩ | ⟨now, id, value, ps⟩ | ⟨now, id, o⟩ |
    ⟨now, id, o⟩ | ⟨now, id⟩ | b | now | _
  · exact l.create_edited now parent value ps o unbound
  · refine editedTo_of_edit (.update id value ps) ?_
    by_cases hc : l.store.contains id = true
    · rw [act_update_of_contains hc, Edit.after, update_eq_ok_iff.mpr ⟨hc, rfl⟩]
    · rw [act_update_of_not_contains (by simpa using hc), Edit.after, Store.update, if_neg hc]
  · refine editedTo_of_eq ?_
    by_cases hc : l.store.contains id = true
    · rw [act_watch_of_contains hc]
    · rw [act_watch_of_not_contains (by simpa using hc)]
  · exact editedTo_of_eq (by rw [act_unwatch])
  · exact editedTo_of_edit (.destroy id) (by rw [act_destroy]; rfl)
  · rw [act_apply]
    exact l.applyAll_edited b.ordered
  · exact editedTo_of_eq (by rw [act_poll])
  · exact editedTo_of_eq rfl

theorem run_editedTo (l : LocalStore) (as : List Action) : l.EditedTo (l.run as) := by
  induction as generalizing l with
  | nil => exact editedTo_of_eq rfl
  | cons a as ih => exact (l.act_edited a).trans (ih (l.act a))

/-! ## Copies that began as new -/

variable {window : Nat} {base : VarId}

/-- An edited copy is the new store after some edits. -/
theorem EditedTo.edited (h : (withBase window base).EditedTo l) :
    ∃ es, l.store = (withIds (.frontendFrom base)).edited es := by
  obtain ⟨es, hes⟩ := h
  refine ⟨.insert ⟨some rootId, noParent, .null, .empty, false⟩ :: es, ?_⟩
  rw [hes]
  rfl

/-- An edited copy is a forest. -/
theorem EditedTo.grown (h : (withBase window base).EditedTo l) : Grown l.store.entries := by
  obtain ⟨es, hes⟩ := h.edited
  rw [hes]
  exact grown_edited _ es

/-- The numbers of an edited copy are ahead of all it has used. -/
theorem EditedTo.ahead (h : (withBase window base).EditedTo l) :
    ∃ used, l.store.Ahead (.frontendFrom base) used := by
  obtain ⟨es, hes⟩ := h.edited
  rw [hes]
  exact ⟨_, (ahead_withIds (IdSource.inRange_frontendFrom base)).run es⟩

/-- The numbers of the copy are ahead of all it has used. -/
theorem ahead_run (window : Nat) (base : VarId) (as : List Action) :
    ∃ used, ((withBase window base).run as).store.Ahead (.frontendFrom base) used :=
  (run_editedTo _ as).ahead

end ReactiveVars.LocalStore
