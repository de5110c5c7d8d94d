import ReactiveVars.Application.ContactBook
import ReactiveVars.Proofs.Application.Readings
import ReactiveVars.Wrapper

/-!
# Applications that keep values in order

An application hands out values whose objects have their fields in order, as long as it is given
such values. An object space does so if its objects are in order, and its types and methods make
such values from such values. The methods may be called on the way of any path, so each step of a
read or a write may change the space, and each leaves it in order.

## Main statement

* `ObjectSpace.application_orderly`: an object space in order is an application of this kind.
-/

namespace ReactiveVars

/-! ## What is meant by it -/

/-- Whether a reply is a value in order, or none, in a state from which this will stay so. -/
def RepliesOrdered {σ : Type} (I : σ → Prop) (r : Reply Json × σ) : Prop :=
  I r.2 ∧ ∀ v, r.1 = .ok v → v.Ordered

/-- An application in the states `I` that is given values in order hands out values in order. -/
structure Application.Orderly {σ : Type} [Application σ] (I : σ → Prop) : Prop where
  instantiate : ∀ app, I app → ∀ name ps, I (Application.instantiate app name ps).2
  resolve : ∀ app, I app → ∀ r segments, RepliesOrdered I (Application.resolve app r segments)
  write : ∀ app, I app → ∀ r segments v, v.Ordered → I (Application.write app r segments v).2

theorem ObjectRef.ordered_json (r : ObjectRef) : r.json.Ordered :=
  Json.ordered_empty.insert "obj" (Json.ordered_int r.number)

theorem Application.ordered_rootValue {σ : Type} [Application σ] (app : σ) :
    (rootValue app).Ordered := by
  rw [rootValue]
  rcases Application.root app with _ | r
  · exact Json.ordered_null
  · exact r.ordered_json

/-- Whether wrappers present values in order in order. -/
def WrapperRegistry.Orderly (w : WrapperRegistry) : Prop :=
  ∀ name transform, w.wrappers.get? name = some transform →
    ∀ raw ps, raw.Ordered → (transform raw ps).Ordered

theorem WrapperRegistry.Orderly.present {w : WrapperRegistry} (h : w.Orderly)
    (name : Option String) {raw : Json} (hraw : raw.Ordered) (ps : Properties) :
    (w.present name raw ps).Ordered := by
  rw [WrapperRegistry.present]
  split
  · next transform hname =>
    obtain ⟨k, -, hk⟩ := Option.bind_eq_some_iff.mp hname
    exact h k transform hk raw ps hraw
  · exact hraw

/-! ## The list view

The standard wrappers are a list of transforms, and each gives a row for an item. A row is put
together of values at hand. -/

theorem Transform.ordered_listRow (itemType : Option String) (index : Nat) {item : Json}
    (hitem : item.Ordered) : (listRow itemType index item).Ordered := by
  have hint := Json.ordered_int (index + 1)
  rw [listRow, Json.ordered_object]
  rcases itemType with _ | name
  · refine ⟨List.pairwise_map.mp ?_, by simp [hint, hitem]⟩
    exact show ["index", "item"].Pairwise (· < ·) by decide
  · refine ⟨List.pairwise_map.mp ?_, by simp [hint, hitem, Json.ordered_string name]⟩
    exact show ["index", "item", "type"].Pairwise (· < ·) by decide

theorem WrapperRegistry.orderly_standard : WrapperRegistry.standard.Orderly := by
  intro name transform hget raw ps hraw
  rw [WrapperRegistry.standard, KeyMap.get?_insert] at hget
  split at hget
  · obtain rfl := Option.some.inj hget
    unfold Transform.viewList
    split
    · next items =>
      refine Json.ordered_array.mpr fun v hv ↦ ?_
      obtain ⟨k, hk, rfl⟩ := List.mem_mapIdx.mp hv
      exact Transform.ordered_listRow _ k (Json.ordered_array.mp hraw _ (List.getElem_mem hk))
    · exact Json.ordered_array.mpr (by simp)
  · exact absurd hget (by simp)

/-! ## Object spaces

There is one lemma for each function that a space has, in the order in which they call one another.
Each says that the space stays in order and that what is handed out is. -/

/-- Whether the objects of a space are in order, and will stay so. -/
structure ObjectSpace.Orderly (a : ObjectSpace) : Prop where
  objects : ∀ o ∈ a.objects, o.Ordered
  types : ∀ name factory, a.types.get? name = some factory → ∀ ps, (factory ps).Ordered
  methods : ∀ name method, a.methods.get? name = some method →
    ∀ receiver arg r, receiver.Ordered → arg.Ordered → method receiver arg = some r →
      r.1.Ordered ∧ r.2.Ordered

namespace ObjectSpace

variable {a a' : ObjectSpace} {r : ObjectRef} {raw v : Json} {c : Cursor}

private theorem replies_ok (ha : a.Orderly) (hv : v.Ordered) :
    RepliesOrdered Orderly (.ok v, a) := by
  refine ⟨ha, fun u hu ↦ ?_⟩
  obtain ⟨⟩ := hu
  exact hv

private theorem replies_failed (ha : a.Orderly) (reason : String) :
    RepliesOrdered Orderly (.failed reason, a) := ⟨ha, fun _ hu ↦ absurd hu (by simp)⟩

private theorem replies_crashed (ha : a.Orderly) : RepliesOrdered Orderly (.crashed, a) :=
  ⟨ha, fun _ hu ↦ absurd hu (by simp)⟩

namespace Orderly

theorem object? (h : a.Orderly) (hv : a.object? r = some v) : v.Ordered := by
  obtain ⟨k, -, hk⟩ := Option.bind_eq_some_iff.mp hv
  exact h.objects v (List.mem_of_getElem? hk)

theorem follow (h : a.Orderly) (hraw : raw.Ordered) : (a.follow raw).Ordered := by
  rw [ObjectSpace.follow]
  split
  · next r _ =>
    rcases hobject : a.object? r with _ | o
    · exact Json.ordered_null
    · exact h.object? hobject
  · exact hraw

theorem setObject (h : a.Orderly) (r : ObjectRef) (hv : v.Ordered) : (a.setObject r v).Orderly := by
  rw [ObjectSpace.setObject]
  split
  · refine ⟨fun o ho ↦ ?_, h.types, h.methods⟩
    obtain ho | rfl := List.mem_or_eq_of_mem_set ho
    · exact h.objects o ho
    · exact hv
  · exact h

theorem insert (h : a.Orderly) (hv : v.Ordered) : (a.insert v).2.Orderly where
  objects := List.forall_mem_append.mpr ⟨h.objects, List.forall_mem_singleton.mpr hv⟩
  types := h.types
  methods := h.methods

theorem instantiate (h : a.Orderly) (name : String) (ps : Properties) :
    (a.instantiate name ps).2.Orderly := by
  rw [ObjectSpace.instantiate]
  split
  · next factory hfactory => exact h.insert (h.types name factory hfactory ps)
  · exact h

theorem call (h : a.Orderly) (name : String) {target arg : Json} (htarget : target.Ordered)
    (harg : arg.Ordered) : RepliesOrdered Orderly (a.call name target arg) := by
  rw [ObjectSpace.call]
  split
  · exact replies_failed h _
  next method hmethod =>
  split
  · next r _ =>
    split
    · exact replies_failed h _
    · next receiver hreceiver =>
      split
      · next receiver' result hcall =>
        obtain ⟨hreceiver', hresult⟩ :=
          h.methods name method hmethod receiver arg _ (h.object? hreceiver) harg hcall
        exact replies_ok (h.setObject r hreceiver') hresult
      · exact replies_crashed h
  · split
    · next receiver' result hcall =>
      exact replies_ok h (h.methods name method hmethod target arg _ htarget harg hcall).2
    · exact replies_crashed h

/-! ### Reading -/

theorem stepFrom (h : a.Orderly) (hraw : raw.Ordered) (s : Segment) :
    RepliesOrdered Orderly (a.stepFrom raw s) := by
  have hlookup (s : Segment) : ((Document.step? (a.follow raw) s).getD .null).Ordered := by
    rcases hstep : Document.step? (a.follow raw) s with _ | v
    · exact Json.ordered_null
    · exact Document.ordered_of_step? (h.follow hraw) hstep
  rcases s with name | k | name | _ | name
  · exact replies_ok h (hlookup _)
  · exact replies_ok h (hlookup _)
  · exact h.call name hraw Json.ordered_null
  · exact replies_ok h (hlookup _)
  · refine replies_ok h ?_
    rcases a.standard.get? name with _ | r
    · exact Json.ordered_null
    · exact r.ordered_json

/-- **A read hands out a value in order** and leaves the space in order. -/
theorem resolveFrom (h : a.Orderly) {trail : List Json} (htrail : ∀ v ∈ trail, v.Ordered)
    (hraw : raw.Ordered) (segments : List Segment) :
    RepliesOrdered Orderly (a.resolveFrom trail raw segments) := by
  induction segments generalizing a trail raw with
  | nil => exact replies_ok h hraw
  | cons s rest ih =>
    by_cases hparent : s = .parent
    · rw [hparent, resolveFrom_parent_cons]
      refine ih h (fun v hv ↦ htrail v (List.mem_of_mem_tail hv)) ?_
      rcases trail with _ | ⟨previous, trail⟩
      · exact Json.ordered_null
      · exact htrail previous List.mem_cons_self
    · have hstep := h.stepFrom hraw s
      rw [ObjectSpace.resolveFrom]
      · split
        · next next a' heq =>
          rw [heq] at hstep
          have hnext := hstep.2 next rfl
          split
          · exact replies_ok hstep.1 Json.ordered_null
          · exact ih hstep.1 (List.forall_mem_cons.mpr ⟨hraw, htrail⟩) hnext
        · next heq =>
          rw [heq] at hstep
          exact replies_failed hstep.1 _
        · next heq =>
          rw [heq] at hstep
          exact replies_crashed hstep.1
      · exact hparent

/-! ### Writing -/

theorem stepTowards (h : a.Orderly) (hc : c.current.Ordered) (s : Segment) :
    RepliesOrdered Orderly (a.stepTowards c s) := by
  have hpass (s : Segment) (missing : String) :
      RepliesOrdered Orderly (passThrough c s missing, a) := by
    rw [passThrough]
    split
    · next next hstep =>
      split
      · exact replies_failed h _
      · exact replies_ok h (Document.ordered_of_step? hc hstep)
    · exact replies_failed h _
  rcases s with name | k | name | _ | name
  · exact hpass _ _
  · exact hpass _ _
  · rw [ObjectSpace.stepTowards]
    split
    · exact h.call name c.anchor.ordered_json Json.ordered_null
    · exact replies_failed h _
  · exact replies_failed h _
  · rw [ObjectSpace.stepTowards]
    split
    · next r _ => exact replies_ok h r.ordered_json
    · exact replies_failed h _

theorem moveTo (h : a.Orderly) {s : Segment} {next : Json} (hnext : next.Ordered)
    {c' : Cursor} (hmove : a.moveTo c s next = .ok c') : c'.current.Ordered := by
  rw [ObjectSpace.moveTo] at hmove
  split at hmove
  · rw [← Except.ok.inj hmove]
    exact h.follow hnext
  · split at hmove
    · rw [← Except.ok.inj hmove]
      exact hnext
    · obtain ⟨⟩ := hmove

theorem finishWrite (h : a.Orderly) (c : Cursor) (last : Segment) (hv : v.Ordered) :
    (a.finishWrite c last v).2.Orderly := by
  rw [ObjectSpace.finishWrite.eq_def]
  split
  · next name =>
    split
    · have hcall := h.call name c.anchor.ordered_json hv
      split
      all_goals
        next heq =>
        rw [heq] at hcall
        exact hcall.1
    · exact h
  · split
    · exact h
    · next object hobject =>
      split
      · next object' hassign =>
        exact h.setObject _ (Document.ordered_of_assign (h.object? hobject) hv hassign)
      · exact h

/-- **A write of a value in order leaves the space in order**, also if it fails. -/
theorem writeFrom (h : a.Orderly) (hc : c.current.Ordered) (segments : List Segment)
    (hv : v.Ordered) : (a.writeFrom c segments v).2.Orderly := by
  induction segments generalizing a c with
  | nil => exact h
  | cons s rest ih =>
    rcases rest with _ | ⟨next, rest⟩
    · exact h.finishWrite c s hv
    have hstep := h.stepTowards hc s
    rw [ObjectSpace.writeFrom]
    split
    · next found a' heq =>
      rw [heq] at hstep
      split
      · next c' hmove =>
        exact ih hstep.1 (Orderly.moveTo hstep.1 (hstep.2 found rfl) hmove)
      · exact hstep.1
    all_goals
      next heq =>
      rw [heq] at hstep
      exact hstep.1

end Orderly

/-- **An object space in order hands out values in order.** -/
theorem application_orderly : Application.Orderly Orderly where
  instantiate _ ha name ps := ha.instantiate name ps
  resolve _ ha r segments := ha.resolveFrom (fun _ hv ↦ absurd hv (by simp)) r.ordered_json segments
  write _ ha r segments v hv := ha.writeFrom (ha.follow r.ordered_json) segments hv

end ObjectSpace

/-! ## The contact book -/

theorem Method.ordered_setField? {receiver receiver' v : Json} {name : String}
    (hreceiver : receiver.Ordered) (hv : v.Ordered)
    (h : setField? receiver name v = some receiver') : receiver'.Ordered := by
  rw [setField?.eq_def] at h
  split at h
  · rw [← Option.some.inj h]
    exact hreceiver.insert name hv
  · rw [← Option.some.inj h]
    exact Json.ordered_empty.insert name hv
  · obtain ⟨⟩ := h

namespace ContactBook

private theorem ordered_contact (name email : String) : (contact name email).Ordered :=
  Json.ordered_object.mpr ⟨List.pairwise_pair.mpr (show "email" < "name" by decide),
    by simp [Json.ordered_string]⟩

private theorem ordered_person (spouse : ObjectRef) (contacts : List ObjectRef) :
    (person spouse contacts).Ordered := by
  refine Json.ordered_object.mpr ⟨?_, ?_⟩
  · exact List.pairwise_map.mp
      (show ["contacts", "count", "name", "selected", "spouse"].Pairwise (· < ·) by decide)
  · have hcontacts : (Json.array (contacts.map ObjectRef.json)).Ordered :=
      Json.ordered_array.mpr (List.forall_mem_map.mpr fun r _ ↦ r.ordered_json)
    simp [hcontacts, spouse.ordered_json, Json.ordered_int, Json.ordered_string, Json.ordered_null]

/-- The methods of the contact book set one field. -/
theorem orderly_space : space.Orderly where
  objects := by
    show ∀ o ∈ [contact "Marge" "marge@example.com", contact "Bart" "bart@example.com",
      person ⟨1⟩ [⟨1⟩, ⟨2⟩]], o.Ordered
    simp only [List.forall_mem_cons]
    exact ⟨ordered_contact _ _, ordered_contact _ _, ordered_person _ _, nofun⟩
  types name factory hget ps := by
    have htypes : space.types = KeyMap.empty.insert "Contact" contactOf := rfl
    rw [htypes, KeyMap.get?_insert] at hget
    split at hget
    · rw [← Option.some.inj hget]
      exact ordered_contact _ _
    · exact absurd hget (by simp)
  methods name method hget receiver arg r hreceiver harg hcall := by
    have hmethods : space.methods
        = (KeyMap.empty.insert "increment" increment).insert "select" select := rfl
    rw [hmethods, KeyMap.get?_insert, KeyMap.get?_insert] at hget
    split at hget
    · rw [← Option.some.inj hget] at hcall
      obtain ⟨receiver', hset, rfl⟩ := Option.map_eq_some_iff.mp hcall
      exact ⟨Method.ordered_setField? hreceiver harg hset, harg⟩
    split at hget
    · rw [← Option.some.inj hget] at hcall
      obtain ⟨receiver', hset, rfl⟩ := Option.map_eq_some_iff.mp hcall
      exact ⟨Method.ordered_setField? hreceiver (Json.ordered_int _) hset, Json.ordered_int _⟩
    · exact absurd hget (by simp)

end ContactBook

end ReactiveVars
