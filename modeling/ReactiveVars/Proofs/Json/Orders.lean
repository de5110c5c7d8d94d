import ReactiveVars.Proofs.Json.Readings

/-!
# Objects in order

The fields of an object that is read from a text ascend, and so do those of the objects inside it:
the reader puts every field in its place. Nothing but this order and the range of the integers makes
a value well-formed.

## Main statement

* `ordered_of_read`: what is read from a text is in order.
-/

namespace ReactiveVars.Json

mutual

/-- Whether the fields of objects ascend, at any depth. -/
def Ordered : Json → Prop
  | array items => OrderedItems items
  | object fields => Entries.Ascending fields ∧ OrderedFields fields
  | _ => True

/-- All items are in order. -/
def OrderedItems : List Json → Prop
  | [] => True
  | v :: vs => Ordered v ∧ OrderedItems vs

/-- The values of all fields are in order. -/
def OrderedFields : List (String × Json) → Prop
  | [] => True
  | (_, v) :: es => Ordered v ∧ OrderedFields es

end

mutual

/-- The integers in a value. -/
def integers : Json → List Int
  | int n => [n]
  | array items => integersOfItems items
  | object fields => integersOfFields fields
  | _ => []

/-- The integers in items. -/
def integersOfItems : List Json → List Int
  | [] => []
  | v :: vs => integers v ++ integersOfItems vs

/-- The integers in the values of fields. -/
def integersOfFields : List (String × Json) → List Int
  | [] => []
  | (_, v) :: es => integers v ++ integersOfFields es

end

private theorem orderedItems_iff {vs : List Json} : OrderedItems vs ↔ ∀ v ∈ vs, v.Ordered := by
  induction vs with
  | nil => simp [OrderedItems]
  | cons v vs ih => rw [OrderedItems, ih, List.forall_mem_cons]

private theorem orderedFields_iff {es : List (String × Json)} :
    OrderedFields es ↔ ∀ e ∈ es, e.2.Ordered := by
  induction es with
  | nil => simp [OrderedFields]
  | cons e es ih => rw [OrderedFields, ih, List.forall_mem_cons]

theorem ordered_array {items : List Json} : (array items).Ordered ↔ ∀ v ∈ items, v.Ordered :=
  orderedItems_iff

theorem ordered_object {fields : List (String × Json)} :
    (object fields).Ordered ↔ Entries.Ascending fields ∧ ∀ e ∈ fields, e.2.Ordered := by
  rw [Ordered, orderedFields_iff]

mutual

/-- A value in order is well-formed if its integers fit into 64 bits. -/
theorem Ordered.wellFormed {v : Json} (h : v.Ordered)
    (hints : ∀ n ∈ v.integers, minSigned ≤ n ∧ n < UInt64.size) : v.WellFormed := by
  match v with
  | null | bool _ | double _ | string _ => trivial
  | int n => exact hints n List.mem_cons_self
  | array items => exact OrderedItems.wellFormed h hints
  | object fields => exact ⟨h.1, OrderedFields.wellFormed h.2 hints⟩

theorem OrderedItems.wellFormed {vs : List Json} (h : OrderedItems vs)
    (hints : ∀ n ∈ integersOfItems vs, minSigned ≤ n ∧ n < UInt64.size) : WellFormedItems vs := by
  match vs with
  | [] => trivial
  | v :: vs =>
    rw [integersOfItems, List.forall_mem_append] at hints
    exact ⟨Ordered.wellFormed h.1 hints.1, OrderedItems.wellFormed h.2 hints.2⟩

theorem OrderedFields.wellFormed {es : List (String × Json)} (h : OrderedFields es)
    (hints : ∀ n ∈ integersOfFields es, minSigned ≤ n ∧ n < UInt64.size) :
    WellFormedFields es := by
  match es with
  | [] => trivial
  | (k, v) :: es =>
    rw [integersOfFields, List.forall_mem_append] at hints
    exact ⟨Ordered.wellFormed h.1 hints.1, OrderedFields.wellFormed h.2 hints.2⟩

end

theorem Ordered.insert {fields : List (String × Json)} (h : (object fields).Ordered) (name : String)
    {v : Json} (hv : v.Ordered) : (object (Entries.insert name v fields)).Ordered := by
  rw [ordered_object] at h ⊢
  have hascending := h.1.insert name v
  refine ⟨hascending, fun e he ↦ ?_⟩
  have hfind := hascending.find?_eq_some he
  rw [Entries.find?_insert] at hfind
  split at hfind
  · rwa [← Option.some.inj hfind]
  · exact h.2 _ (Entries.mem_of_find? hfind)

theorem ordered_null : null.Ordered := trivial

theorem ordered_bool (b : Bool) : (bool b).Ordered := trivial

theorem ordered_int (n : Int) : (int n).Ordered := trivial

theorem ordered_string (s : String) : (string s).Ordered := trivial

theorem ordered_empty : (object []).Ordered := ⟨Entries.ascending_nil, trivial⟩

/-! ## Reading

What has been read so far lies on the stack of the reader and in its current place. Both are in
order before and after every token, and in the end the place holds the value. -/

/-- Whether what an open array or object holds is in order. -/
def Frame.Ordered : Frame → Prop
  | .items done => ∀ v ∈ done, v.Ordered
  | .fields done _ => (object done).Ordered

/-- Whether what has been read at a place is in order. -/
def Place.Ordered : Place → Prop
  | .name fields _ | .colon fields _ => (object fields).Ordered
  | .after v => v.Ordered
  | .value | .item => True

section Reading

variable {stack stack' : List Frame} {place place' : Place} {token : Token}

private theorem ordered_of_startValue (hstack : ∀ f ∈ stack, f.Ordered)
    (htoken : ∀ v, token = .constant v → v.Ordered)
    (h : startValue stack token = .ok (place', stack')) :
    place'.Ordered ∧ ∀ f ∈ stack', f.Ordered := by
  rw [startValue.eq_def] at h
  split at h <;> try split at h
  all_goals obtain ⟨⟩ := h
  all_goals refine ⟨?_, hstack⟩
  · trivial
  · exact ordered_empty
  · exact htoken _ rfl
  · trivial
  · trivial
  · trivial

private theorem ordered_of_endValue {v : Json} (hstack : ∀ f ∈ stack, f.Ordered) (hv : v.Ordered)
    (h : endValue v stack token = .ok (place', stack')) :
    place'.Ordered ∧ ∀ f ∈ stack', f.Ordered := by
  rcases stack with _ | ⟨frame, stack⟩
  · exact absurd h (by simp [endValue])
  obtain ⟨hframe, hrest⟩ := List.forall_mem_cons.mp hstack
  rcases frame with done | ⟨done, name⟩
  · have hdone : ∀ u ∈ v :: done, u.Ordered := List.forall_mem_cons.mpr ⟨hv, hframe⟩
    rcases token <;> obtain ⟨⟩ := h
    · exact ⟨ordered_array.mpr fun u hu ↦ hdone u (List.mem_reverse.mp hu), hrest⟩
    · exact ⟨trivial, List.forall_mem_cons.mpr ⟨hdone, hrest⟩⟩
  · have hdone : (object (Entries.insert name v done)).Ordered := Ordered.insert hframe name hv
    rcases token <;> obtain ⟨⟩ := h
    · exact ⟨hdone, hrest⟩
    · exact ⟨hdone, hrest⟩

/-- **A token keeps what has been read in order.** -/
theorem ordered_of_advance (hstack : ∀ f ∈ stack, f.Ordered) (hplace : place.Ordered)
    (htoken : ∀ v, token = .constant v → v.Ordered)
    (h : advance stack place token = .ok (place', stack')) :
    place'.Ordered ∧ ∀ f ∈ stack', f.Ordered := by
  rw [advance.eq_def] at h
  split at h
  · exact ordered_of_startValue hstack htoken h
  · obtain ⟨⟩ := h
    exact ⟨ordered_array.mpr (by simp), hstack⟩
  · refine ordered_of_startValue (List.forall_mem_cons.mpr ⟨?_, hstack⟩) htoken h
    exact fun v hv ↦ absurd hv (by simp)
  · obtain ⟨⟩ := h
    exact ⟨hplace, hstack⟩
  · obtain ⟨⟩ := h
    exact ⟨hplace, hstack⟩
  · obtain ⟨⟩ := h
  · obtain ⟨⟩ := h
  · obtain ⟨⟩ := h
    exact ⟨trivial, List.forall_mem_cons.mpr ⟨hplace, hstack⟩⟩
  · obtain ⟨⟩ := h
  · exact ordered_of_endValue hstack hplace h

theorem ordered_of_readFrom {ts : List Token} (hts : ∀ v, .constant v ∈ ts → v.Ordered)
    (hstack : ∀ f ∈ stack, f.Ordered) (hplace : place.Ordered) {v : Json}
    (h : readFrom place stack ts = .ok v) : v.Ordered := by
  induction ts generalizing place stack with
  | nil =>
    rw [readFrom.eq_def] at h
    simp only at h
    split at h
    · rwa [← Except.ok.inj h]
    · obtain ⟨⟩ := h
  | cons token ts ih =>
    rw [readFrom] at h
    split at h
    · next place' stack' hadvance =>
      obtain ⟨hplace', hstack'⟩ := ordered_of_advance hstack hplace
        (fun u hu ↦ hts u (hu ▸ List.mem_cons_self)) hadvance
      exact ih (fun u hu ↦ hts u (List.mem_cons_of_mem _ hu)) hstack' hplace' h
    · exact absurd h (by simp)

end Reading

private theorem ordered_of_tokenAt {b : UInt8} {rest rest' : List UInt8} {v : Json}
    (h : tokenAt b rest = (.constant v, rest')) : v.Ordered := by
  have hword {u : Json} (hu : u.Ordered) {word : List UInt8}
      (h : wordToken u word rest = (.constant v, rest')) : v.Ordered := by
    rw [wordToken] at h
    split at h <;> obtain ⟨⟩ := h
    exact hu
  have hnumber {negative : Bool} {bytes : List UInt8}
      (h : numberToken negative bytes = (.constant v, rest')) : v.Ordered := by
    rw [numberToken] at h
    split at h <;> obtain ⟨⟩ := h
  have hstring (h : stringToken rest = (.constant v, rest')) : v.Ordered := by
    rw [stringToken] at h
    split at h <;> obtain ⟨⟩ := h
  -- by the first character: only words are read as constants
  unfold tokenAt at h
  split at h
  · obtain ⟨⟩ := h
  · obtain ⟨⟩ := h
  · obtain ⟨⟩ := h
  · obtain ⟨⟩ := h
  · obtain ⟨⟩ := h
  · obtain ⟨⟩ := h
  · exact hstring h
  · exact hword ordered_null h
  · exact hword (ordered_bool true) h
  · exact hword (ordered_bool false) h
  · exact hnumber h
  · split at h
    · exact hnumber h
    · obtain ⟨⟩ := h

private theorem ordered_of_mem_tokens {bytes : List UInt8} {v : Json}
    (h : .constant v ∈ tokens bytes) : v.Ordered := by
  induction hn : bytes.length using Nat.strong_induction_on generalizing bytes with
  | _ n ih =>
    rcases hnext : nextToken bytes with _ | ⟨token, rest⟩
    · rw [tokens, readTokens.eq_def] at h
      split at h
      · exact absurd h (by simp)
      · next hsome => exact absurd (hsome.symm.trans hnext) (by simp)
    · rw [tokens_of_nextToken hnext, List.mem_cons] at h
      rcases h with rfl | h
      · rw [nextToken] at hnext
        split at hnext
        · exact absurd hnext (by simp)
        · exact ordered_of_tokenAt (Option.some.inj hnext)
      · exact ih rest.length (hn ▸ Token.next_shorter hnext) h rfl

/-- **What is read from a text is in order.** -/
theorem ordered_of_read {bytes : List UInt8} {v : Json} (h : read bytes = .ok v) : v.Ordered := by
  have hplace : Place.value.Ordered := trivial
  exact ordered_of_readFrom (fun _ hu ↦ ordered_of_mem_tokens hu) (fun _ hf ↦ absurd hf (by simp))
    hplace h

end ReactiveVars.Json
