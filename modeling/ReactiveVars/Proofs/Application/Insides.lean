import ReactiveVars.Proofs.Application.Writes
import ReactiveVars.Proofs.Path.InPlace

/-!
# Paths inside one object

A value that a variable holds and an object of the application are read and written along paths by
different means: the one goes down into a value, the other from object to object with a trail or a
cursor. As long as a path comes, before its end, to no value that refers to an object (`RefFree`),
there is only one object and the two agree, also where a value is missing, null or of the wrong
kind, or an item is out of range.

For reading this is `resolveFrom_of_refFree`. A write keeps a cursor, and what the cursor has found
inside the object is what the path finds in its value; so each step of the write goes on or fails
as the write into the value does.

## Main statement

* `actsAsValue_of_refFree`: reading and writing inside one object.
-/

namespace ReactiveVars.ObjectSpace

variable {a : ObjectSpace} {r : ObjectRef} {o : Json} {segments : List Segment} {c : Cursor}
  {s : Segment}

private theorem isMethod_of_isLookup (hs : s.isLookup = true) : s.isMethod = false := by
  rcases s with _ | _ | _ | _ | _ <;> first | rfl | exact absurd hs (by simp [Segment.isLookup])

private theorem exists_step_of_assign {place rest : List Segment} {o' value : Json}
    (hinside : Document.find? o place = some c.current) (hrest : rest ≠ [])
    (h : Document.assign o (place ++ s :: rest) value = .ok o') :
    ∃ next, Document.step? c.current s = some next ∧ next.isNull = false := by
  obtain ⟨v, v', hv, hassign, -⟩ := Document.find?_of_assign_append (by simp) h
  obtain rfl := Option.some.inj (hv.symm.trans hinside)
  obtain ⟨child', -, ⟨hnil, -⟩ | ⟨-, next, hstep, hnull, -⟩⟩ := Document.assign_cons hassign
  · exact absurd hnil hrest
  · exact ⟨next, hstep, hnull⟩

/-- **A write that stays inside its object** succeeds as the write into the value does, or fails and
leaves the objects as they are. -/
theorem writeFrom_of_refFree (ho : a.object? c.anchor = some o)
    (hinside : Document.find? o c.inside.reverse = some c.current) (hsegments : segments ≠ [])
    (hlookup : ∀ s ∈ segments, s.isLookup = true) (hfree : RefFree c.current segments)
    (value : Json) :
    (∃ o', Document.assign o (c.inside.reverse ++ segments) value = .ok o' ∧
      a.writeFrom c segments value = (.ok (), a.setObject c.anchor o')) ∨
    ∃ e reason, Document.assign o (c.inside.reverse ++ segments) value = .error e ∧
      a.writeFrom c segments value = (.failed reason, a) := by
  -- the cursor goes down as the path gets shorter, and stands where the value is found
  induction segments generalizing c with
  | nil => exact absurd rfl hsegments
  | cons s segments ih =>
    obtain ⟨hs, hlookup⟩ := List.forall_mem_cons.mp hlookup
    rcases segments with _ | ⟨next, rest⟩
    · rw [writeFrom, finishWrite_of_object (isMethod_of_isLookup hs) ho]
      rcases hassign : Document.assign o (c.inside.reverse ++ [s]) value with e | o'
      · exact .inr ⟨e, e.message, rfl, rfl⟩
      · exact .inl ⟨o', rfl, rfl⟩
    · rw [writeFrom]
      obtain ⟨reason, hfail, hnone⟩ | ⟨found, hok, hstep, hnull⟩ :=
        stepTowards_of_isLookup (a := a) (c := c) hs
      · right
        rcases hassign : Document.assign o (c.inside.reverse ++ s :: next :: rest) value with e | o'
        · exact ⟨e, reason, rfl, by rw [hfail]⟩
        · -- the write into the value would have gone on
          obtain ⟨found, hstep, hnull⟩ := exists_step_of_assign hinside (by simp) hassign
          rw [hnone found hstep] at hnull
          exact absurd hnull (by simp)
      · obtain ⟨href, hfree⟩ := (refFree_cons (by simp)).mp hfree found hstep
        -- the value found is no reference, so the cursor stays in its object
        have hmove : a.moveTo c s found = .ok ⟨c.anchor, s :: c.inside, found⟩ := by
          rw [moveTo, href]
          exact if_pos hs
        have hbelow : Document.find? o (s :: c.inside).reverse = some found := by
          rw [List.reverse_cons, Document.find?_append, hinside, Option.bind_some,
            Document.find?_singleton, hstep]
        have hcut : c.inside.reverse ++ s :: next :: rest
            = (s :: c.inside).reverse ++ next :: rest := by simp
        simp only [hok, hmove, hcut]
        exact ih (c := ⟨c.anchor, s :: c.inside, found⟩) ho hbelow (by simp) hlookup hfree

/-- **What reading and writing along a path do** that do the same with the object `r` as with the
value `o`. -/
structure ActsAsValue (a : ObjectSpace) (r : ObjectRef) (o : Json) (segments : List Segment)
    (value : Json) : Prop where
  reads : a.resolve r segments = (.ok (Document.resolve o segments), a)
  succeeds_iff : (a.write r segments value).1 = .ok () ↔
    ∃ o', Document.assign o segments value = .ok o'
  /-- The object is what a write in place makes of the value, successful or not. -/
  object : (a.write r segments value).2.object? r
    = some (Document.writeInPlace o [] segments value).2
  others : ∀ x, x ≠ r → (a.write r segments value).2.object? x = a.object? x

/-- **Inside one object paths do what they do in its value.** -/
theorem actsAsValue_of_refFree (hr : Json.IsSigned r.number) (ho : a.object? r = some o)
    (hsegments : segments ≠ []) (hlookup : ∀ s ∈ segments, s.isLookup = true)
    (hfree : RefFree o segments) (value : Json) : a.ActsAsValue r o segments value := by
  have href := ObjectRef.ofJson?_eq_some_iff.mpr ⟨rfl, hr, ne_zero_of_object? ho⟩
  have hfollow : a.follow r.json = o := by rw [follow_of_ref href, ho, Option.getD_some]
  have hread : a.resolve r segments = (.ok (Document.resolve o segments), a) := by
    rw [resolve, resolveFrom_of_refFree hlookup hsegments (hfollow.symm ▸ hfree), hfollow]
  have hwrite := writeFrom_of_refFree (c := ⟨r, [], o⟩) ho rfl hsegments hlookup hfree value
  rw [List.reverse_nil, List.nil_append] at hwrite
  obtain ⟨o', hassign, hok⟩ | ⟨e, reason, hassign, hfail⟩ := hwrite
  · have hw : a.write r segments value = (.ok (), a.setObject r o') := by rwa [write, hfollow]
    constructor
    case reads => exact hread
    case succeeds_iff => exact iff_of_true (by rw [hw]) ⟨o', hassign⟩
    case object =>
      rw [hw, Document.writeInPlace_root, hassign, object?_setObject ho, if_pos rfl]
      rfl
    case others =>
      intro x hx
      rw [hw, object?_setObject ho, if_neg hx]
  · have hw : a.write r segments value = (.failed reason, a) := by rwa [write, hfollow]
    constructor
    case reads => exact hread
    case succeeds_iff => exact iff_of_false (by simp [hw]) (by simp [hassign])
    case object =>
      rw [hw, Document.writeInPlace_root, hassign]
      exact ho
    case others =>
      intro x _
      rw [hw]

/-- The second contact is replaced in the list of the person. -/
theorem actsAsValue_contacts :
    Json.IsSigned 3 ∧
      ContactBook.space.object? ⟨3⟩ = some (ContactBook.person ⟨1⟩ [⟨1⟩, ⟨2⟩]) ∧
      [Segment.property "contacts", .index 2] ≠ [] ∧
      (∀ s ∈ [Segment.property "contacts", .index 2], s.isLookup = true) ∧
      RefFree (ContactBook.person ⟨1⟩ [⟨1⟩, ⟨2⟩]) [.property "contacts", .index 2] ∧
      ContactBook.space.ActsAsValue ⟨3⟩ (ContactBook.person ⟨1⟩ [⟨1⟩, ⟨2⟩])
        [.property "contacts", .index 2] (.string "Lisa") := by
  have hsigned : Json.IsSigned 3 := ⟨by decide, by decide⟩
  have hlookup : ∀ s ∈ [Segment.property "contacts", .index 2], s.isLookup = true := by
    simp [Segment.isLookup]
  have hfree : RefFree (ContactBook.person ⟨1⟩ [⟨1⟩, ⟨2⟩]) [.property "contacts", .index 2] := by
    refine (refFree_cons (by simp)).mpr fun c hc ↦ ?_
    obtain rfl := Option.some.inj hc
    exact ⟨rfl, refFree_singleton _ _⟩
  exact ⟨hsigned, rfl, by simp, hlookup, hfree,
    actsAsValue_of_refFree hsigned rfl (by simp) hlookup hfree (.string "Lisa")⟩

end ReactiveVars.ObjectSpace
