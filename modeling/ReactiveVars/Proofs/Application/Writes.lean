import ReactiveVars.Application.ContactBook
import ReactiveVars.Proofs.Application.Readings

/-!
# Writing without methods

A write goes along its path from object to object and remembers how it got into the last of them; a
read keeps the value that it has reached. The two agree on where they are (`Reaches`), so a write
along a path without methods changes the very place that a read along it comes to, and nothing else.

The write may change the way that the read takes. It does so if the object has been passed through
before, and it can do so at the place itself: a value that is left with the single field `obj` has
become a reference, which reading follows (`Refers`).

## Main statement

* `write_exact`: what a write does that calls no method.
-/

namespace ReactiveVars.ObjectSpace

variable {a a' : ObjectSpace} {r x y : ObjectRef} {front place segments : List Segment} {c : Cursor}
  {s : Segment} {value : Json}

/-! ## Objects -/

private theorem place?_eq_some_iff {k : Nat} : place? x = some k ↔ x = ⟨k + 1⟩ := by
  rcases x with ⟨n⟩
  rw [place?]
  constructor
  · intro h
    obtain ⟨hn, hk⟩ := Option.ite_none_right_eq_some.mp h
    simp only [Option.some.injEq] at hn hk
    rw [ObjectRef.mk.injEq]
    omega
  · rintro ⟨-, rfl⟩
    simp

theorem ne_zero_of_object? {o : Json} (h : a.object? x = some o) : x.number ≠ 0 := by
  obtain ⟨k, hk, -⟩ := Option.bind_eq_some_iff.mp h
  rw [place?_eq_some_iff.mp hk]
  show (k : Int) + 1 ≠ 0
  omega

@[simp] theorem standard_setObject (a : ObjectSpace) (x : ObjectRef) (v : Json) :
    (a.setObject x v).standard = a.standard := by
  rw [setObject]
  split <;> rfl

theorem object?_setObject {o : Json} (h : a.object? x = some o) (v : Json) (y : ObjectRef) :
    (a.setObject x v).object? y = if y = x then some v else a.object? y := by
  obtain ⟨k, hk, hobject⟩ := Option.bind_eq_some_iff.mp h
  obtain ⟨hlt, -⟩ := List.getElem?_eq_some_iff.mp hobject
  simp only [setObject, hk, object?]
  rcases hj : place? y with _ | j
  · have hne : y ≠ x := by
      rintro rfl
      simp [hk] at hj
    rw [if_neg hne]
    rfl
  · simp only [Option.bind_some, List.getElem?_set]
    have hiff : k = j ↔ y = x := by
      rw [place?_eq_some_iff.mp hk, place?_eq_some_iff.mp hj, ObjectRef.mk.injEq]
      omega
    by_cases hkj : k = j
    · rw [if_pos hkj, if_pos (hkj ▸ hlt), if_pos (hiff.mp hkj)]
    · rw [if_neg hkj, if_neg fun hyx ↦ hkj (hiff.mpr hyx)]

/-! ## The way of a write

A read remembers the values that it has come through, a write only the object it is in and how it
got into it. `Reaches` relates the two: the cursor stands where the read stands, and its way inside
the object is plain. -/

private theorem noMethodIn_of_find? {o v : Json} (h : Document.find? o place = some v) :
    Segment.noMethodIn place = true := by
  refine List.all_eq_true.mpr fun s hs ↦ ?_
  have hlookup := Document.isLookup_of_find? h s hs
  rcases s with _ | _ | _ | _ | _ <;> simp_all [Segment.isLookup, Segment.isMethod]

private theorem PlainInside.concat {o v : Json} (h : PlainInside o place)
    (hv : Document.find? o place = some v) (hnull : v.isNull = false)
    (href : ObjectRef.ofJson? v = none) (s : Segment) : PlainInside o (place ++ [s]) := by
  intro q rest hsplit hq hrest
  obtain ⟨rest, s', rfl⟩ := List.eq_nil_or_concat rest |>.resolve_left hrest
  rw [List.concat_eq_append, ← List.append_assoc] at hsplit
  obtain ⟨hplace, -⟩ := List.append_inj' hsplit rfl
  by_cases hend : rest = []
  · rw [hend, List.append_nil] at hplace
    exact ⟨v, hplace ▸ hv, hnull, href⟩
  · exact h q rest hplace hq hend

/-- Whether a write has got to a cursor along `front` and what the cursor has inside its object:
reading along `front` leads to the object, and no value behind it is null or refers to another. -/
structure Reaches (a : ObjectSpace) (r : ObjectRef) (front : List Segment) (c : Cursor) : Prop where
  free : Segment.noMethodIn front = true
  signed : Json.IsSigned c.anchor.number
  leads : a.resolve r front = (.ok c.anchor.json, a)
  holds : Document.find? (a.follow c.anchor.json) c.inside.reverse = some c.current
  /-- Whatever segment comes next. -/
  plain : ∀ s, PlainInside (a.follow c.anchor.json) (c.inside.reverse ++ [s])

theorem reaches_start (hr : Json.IsSigned r.number) : a.Reaches r [] ⟨r, [], a.follow r.json⟩ where
  free := rfl
  signed := hr
  leads := rfl
  holds := rfl
  plain s q rest hsplit hq hrest := by
    have hlength := congrArg List.length hsplit
    have := List.length_pos_iff.mpr hq
    have := List.length_pos_iff.mpr hrest
    simp only [List.reverse_nil, List.nil_append, List.length_singleton, List.length_append]
      at hlength
    omega

namespace Reaches

theorem free_inside (h : a.Reaches r front c) :
    Segment.noMethodIn (front ++ c.inside.reverse) = true :=
  Segment.noMethodIn_append.mpr ⟨h.free, noMethodIn_of_find? h.holds⟩

/-- A read along the same way has got to the value of the cursor, or to the reference to its
object. -/
private theorem reading (h : a.Reaches r front c) : ∃ raw, a.resolve r (front ++ c.inside.reverse)
    = (.ok raw, a) ∧ raw.isNull = false ∧ a.follow raw = c.current := by
  by_cases hinside : c.inside.reverse = []
  · have hholds := h.holds
    rw [hinside] at hholds ⊢
    refine ⟨c.anchor.json, ?_, rfl, Option.some.inj hholds⟩
    rw [List.append_nil]
    exact h.leads
  · obtain ⟨trail, htrail⟩ := resolveFrom_append h.free h.leads rfl
    obtain ⟨v, hv, hnull, href⟩ := h.plain .parent c.inside.reverse [.parent] rfl hinside (by simp)
    obtain rfl := Option.some.inj (hv.symm.trans h.holds)
    refine ⟨c.current, ?_, hnull, follow_of_not_ref href⟩
    have hplain : PlainInside (a.follow c.anchor.json) c.inside.reverse := by
      intro q rest hsplit hq hrest
      refine h.plain .parent q (rest ++ [.parent]) ?_ hq (by simp)
      rw [hsplit, List.append_assoc]
    rw [resolve, htrail, resolveFrom_of_plainInside (Document.isLookup_of_find? h.holds) hinside
      hplain, Document.resolve, h.holds]
    rfl

/-- What the read finds one step on. -/
private theorem resolve_step (h : a.Reaches r front c) (hs : s.isMethod = false)
    (hparent : s ≠ .parent)
    {next : Json} (hnext : ∀ raw, a.follow raw = c.current → a.found raw s = next) :
    a.resolve r (front ++ c.inside.reverse ++ [s]) = (.ok next, a) := by
  obtain ⟨raw, hread, hnull, hfollow⟩ := h.reading
  obtain ⟨trail, htrail⟩ := resolveFrom_append h.free_inside hread hnull
  rw [resolve, htrail, resolveFrom_cons hs hparent, hnext raw hfollow]
  split
  · next hisnull => rw [Json.eq_null_of_isNull hisnull]
  · rfl

theorem enter (h : a.Reaches r front c) (hs : s.isMethod = false) (hparent : s ≠ .parent)
    {next : Json} (hnext : ∀ raw, a.follow raw = c.current → a.found raw s = next)
    (href : ObjectRef.ofJson? next = some y) :
    a.Reaches r (front ++ c.inside.reverse ++ [s]) ⟨y, [], a.follow next⟩ := by
  obtain ⟨rfl, hsigned, -⟩ := ObjectRef.ofJson?_eq_some_iff.mp href
  have hstart := reaches_start (a := a) hsigned
  constructor
  case free =>
    rw [Segment.noMethodIn_append, Segment.noMethodIn_cons]
    exact ⟨h.free_inside, hs, rfl⟩
  case leads => exact h.resolve_step hs hparent hnext
  case signed => exact hsigned
  case holds => exact hstart.holds
  case plain => exact hstart.plain

theorem descend (h : a.Reaches r front c) {next : Json}
    (hnext : Document.step? c.current s = some next) (hnull : next.isNull = false)
    (href : ObjectRef.ofJson? next = none) :
    a.Reaches r front ⟨c.anchor, s :: c.inside, next⟩ := by
  have hfind : Document.find? (a.follow c.anchor.json) (c.inside.reverse ++ [s]) = some next := by
    rw [Document.find?_append, h.holds, Option.bind_some, Document.find?_singleton, hnext]
  constructor
  case free => exact h.free
  case signed => exact h.signed
  case leads => exact h.leads
  case holds =>
    rw [List.reverse_cons]
    exact hfind
  case plain =>
    intro s'
    rw [List.reverse_cons]
    exact (h.plain s).concat hfind hnull href s'

end Reaches

/-- A step by name or index finds what is there, and fails if that is null. -/
theorem stepTowards_of_isLookup (hs : s.isLookup = true) :
    (∃ reason, a.stepTowards c s = (.failed reason, a) ∧
      ∀ next, Document.step? c.current s = some next → next.isNull = true) ∨
      ∃ next, a.stepTowards c s = (.ok next, a) ∧ Document.step? c.current s = some next ∧
        next.isNull = false := by
  have hpass : ∃ missing, a.stepTowards c s = (passThrough c s missing, a) := by
    rcases s with name | k | _ | _ | _
    · exact ⟨_, rfl⟩
    · exact ⟨_, rfl⟩
    all_goals exact absurd hs (by simp [Segment.isLookup])
  obtain ⟨missing, htowards⟩ := hpass
  rw [htowards, passThrough]
  rcases hstep : Document.step? c.current s with _ | next
  · exact .inl ⟨missing, rfl, by simp⟩
  rcases hnull : next.isNull with _ | _
  · exact .inr ⟨next, by simp [hnull], rfl, hnull⟩
  · exact .inl ⟨missing, by simp [hnull], fun _ h ↦ Option.some.inj h ▸ hnull⟩

/-- What one step of a write finds that calls no method. -/
private theorem stepTowards_cases (hs : s.isMethod = false) :
    (∃ reason, a.stepTowards c s = (.failed reason, a)) ∨
      ∃ next, a.stepTowards c s = (.ok next, a) ∧ s ≠ .parent ∧
        (∀ raw, a.follow raw = c.current → a.found raw s = next) ∧
        (s.isLookup = true → Document.step? c.current s = some next ∧ next.isNull = false) := by
  by_cases hlookup : s.isLookup = true
  · obtain ⟨reason, hfail, -⟩ | ⟨next, hok, hstep, hnull⟩ := stepTowards_of_isLookup (a := a)
      (c := c) hlookup
    · exact .inl ⟨reason, hfail⟩
    · refine .inr ⟨next, hok, ?_, fun raw hraw ↦ ?_, fun _ ↦ ⟨hstep, hnull⟩⟩
      · rintro rfl
        exact absurd hlookup (by simp [Segment.isLookup])
      · rw [found, hraw, hstep, Option.getD_some]
        rintro name rfl
        exact absurd hlookup (by simp [Segment.isLookup])
  -- of the other segments only one that names an object of the application leads on
  rcases s with name | k | name | _ | name
  · exact absurd rfl hlookup
  · exact absurd rfl hlookup
  · exact absurd hs (by simp [Segment.isMethod])
  · exact .inl ⟨_, rfl⟩
  · rw [stepTowards]
    rcases hy : a.standard.get? name with _ | y
    · exact .inl ⟨_, rfl⟩
    · refine .inr ⟨y.json, rfl, by simp, fun raw _ ↦ ?_, fun h ↦ absurd h hlookup⟩
      rw [found, hy]
      rfl

/-- **One step of a write** fails, or gets to where a read gets. -/
theorem Reaches.step (h : a.Reaches r front c) (hs : s.isMethod = false) :
    (∃ reason, a.stepTowards c s = (.failed reason, a)) ∨
      ∃ next, a.stepTowards c s = (.ok next, a) ∧
        ((∃ reason, a.moveTo c s next = .error reason) ∨
          ∃ front' c', a.moveTo c s next = .ok c' ∧ a.Reaches r front' c' ∧
            front' ++ c'.inside.reverse = front ++ c.inside.reverse ++ [s]) := by
  obtain ⟨reason, hfail⟩ | ⟨next, hok, hparent, hread, hlookup⟩ := stepTowards_cases (a := a)
    (c := c) hs
  · exact .inl ⟨reason, hfail⟩
  refine .inr ⟨next, hok, ?_⟩
  rw [moveTo]
  rcases href : ObjectRef.ofJson? next with _ | y
  · by_cases hs' : s.isLookup = true
    · obtain ⟨hstep, hnull⟩ := hlookup hs'
      refine .inr ⟨front, _, if_pos hs', h.descend hstep hnull href, ?_⟩
      rw [List.reverse_cons, List.append_assoc]
    · exact .inl ⟨_, if_neg hs'⟩
  · refine .inr ⟨_, _, rfl, h.enter hs hparent hread href, ?_⟩
    rw [List.reverse_nil, List.append_nil]

private theorem ne_method (hs : s.isMethod = false) (name : String) : s ≠ .method name := by
  rintro rfl
  exact absurd hs (by simp [Segment.isMethod])

theorem finishWrite_of_object {o : Json} (hs : s.isMethod = false)
    (ho : a.object? c.anchor = some o) (value : Json) :
    a.finishWrite c s value
      = match Document.assign o (c.inside.reverse ++ [s]) value with
        | .ok o' => (.ok (), a.setObject c.anchor o')
        | .error e => (.failed e.message, a) := by
  have hfinish := finishWrite.eq_2 a c s value (ne_method hs)
  rw [ho] at hfinish
  exact hfinish

theorem finishWrite_cases (hs : s.isMethod = false) (value : Json) :
    (∃ reason, a.finishWrite c s value = (.failed reason, a)) ∨
      ∃ o o', a.object? c.anchor = some o ∧
        Document.assign o (c.inside.reverse ++ [s]) value = .ok o' ∧
        a.finishWrite c s value = (.ok (), a.setObject c.anchor o') := by
  rcases ho : a.object? c.anchor with _ | o
  · refine .inl ⟨goneMessage c.anchor, ?_⟩
    rw [finishWrite, ho]
    exact ne_method hs
  · rw [finishWrite_of_object hs ho]
    rcases hassign : Document.assign o (c.inside.reverse ++ [s]) value with e | o'
    · exact .inl ⟨e.message, by simp only⟩
    · exact .inr ⟨o, o', rfl, hassign, by simp only⟩

/-- **A write** fails and leaves the objects as they are, or it writes inside the object that it has
got to. -/
theorem Reaches.writeFrom_cases (h : a.Reaches r front c)
    (hfree : Segment.noMethodIn segments = true) (value : Json) :
    (∃ reason, a.writeFrom c segments value = (.failed reason, a)) ∨
      ∃ front' c' last o o', a.Reaches r front' c' ∧
        front' ++ (c'.inside.reverse ++ [last]) = front ++ c.inside.reverse ++ segments ∧
        a.object? c'.anchor = some o ∧
        Document.assign o (c'.inside.reverse ++ [last]) value = .ok o' ∧
        a.writeFrom c segments value = (.ok (), a.setObject c'.anchor o') := by
  -- the cursor stands where the read along the front stands, at every step
  induction segments generalizing front c with
  | nil => exact .inl ⟨_, rfl⟩
  | cons s segments ih =>
    obtain ⟨hs, hsegments⟩ := Segment.noMethodIn_cons.mp hfree
    rcases segments with _ | ⟨next, rest⟩
    · obtain ⟨reason, hfail⟩ | ⟨o, o', ho, hassign, hok⟩ := finishWrite_cases hs value
      · exact .inl ⟨reason, hfail⟩
      · refine .inr ⟨front, c, s, o, o', h, ?_, ho, hassign, hok⟩
        rw [List.append_assoc]
    · rw [writeFrom]
      obtain ⟨reason, hfail⟩ | ⟨found, hok, hmove⟩ := h.step hs
      · exact .inl ⟨reason, by rw [hfail]⟩
      · obtain ⟨reason, hfail⟩ | ⟨front', c', hok', hreaches, hsplit⟩ := hmove
        · exact .inl ⟨reason, by simp only [hok, hfail]⟩
        · simp only [hok, hok']
          rw [show front ++ c.inside.reverse ++ s :: next :: rest
            = front' ++ c'.inside.reverse ++ next :: rest by rw [hsplit]; simp]
          exact ih hreaches hsegments

/-! ## Reading what has been written

After the write the path is read once more from its start. The front of it leads to the object as
before if it does not pass through it, and inside the object the way is plain again unless the value
that was written has made it a reference. -/

/-- Whether reading along a path passes through an object before it ends. -/
def PassesThrough (a : ObjectSpace) (r : ObjectRef) (front : List Segment) (x : ObjectRef) : Prop :=
  ∃ q rest, front = q ++ rest ∧ rest ≠ [] ∧ a.resolve r q = (.ok x.json, a)

/-- Whether the place is the field `obj` of a value inside an object that refers to `y`. -/
def Refers (o : Json) (place : List Segment) (y : ObjectRef) : Prop :=
  ∃ inside v, inside ≠ [] ∧ place = inside ++ [.property "obj"] ∧
    Document.find? o inside = some v ∧ ObjectRef.ofJson? v = some y

/-- What the field `obj` of an object holds, null if there is none. -/
def shownBy (a : ObjectSpace) (y : ObjectRef) : Json :=
  ((a.object? y).bind fun o ↦ o.field? "obj").getD .null

/-- A write can make a value a reference only by setting its field `obj`. -/
private theorem reference_of_assign {o o' : Json} (hplace : place ≠ [])
    (h : Document.assign o place value = .ok o') (href : ObjectRef.ofJson? o' = some y) :
    place = [.property "obj"] ∧ value = .int y.number := by
  obtain ⟨rfl, -⟩ := ObjectRef.ofJson?_eq_some_iff.mp href
  rcases place with _ | ⟨s, rest⟩
  · exact absurd rfl hplace
  obtain ⟨child, hput, hchild⟩ := Document.assign_cons h
  obtain ⟨name, fields, rfl, -, -⟩ | ⟨k, items, -, -, -, hitems⟩ := Document.put_cases hput
  · have hstep := Document.step?_of_put hput (.property name)
    rw [if_pos rfl, ObjectRef.json, Document.step?, Entries.find?_cons] at hstep
    obtain ⟨rfl, hint⟩ := Option.ite_none_right_eq_some.mp hstep
    obtain rfl : Json.int y.number = child := Option.some.inj hint
    obtain ⟨rfl, hvalue⟩ | ⟨hrest, _, -, -, hassign⟩ := hchild
    · exact ⟨rfl, hvalue.symm⟩
    · -- a value with fields or items is no number
      rcases Document.alike_of_assign hrest hassign
  · simp [ObjectRef.json] at hitems

/-- What stands on the way of a write afterwards is not null, and if it is a reference, the write
has set its field `obj`. -/
private theorem find?_of_assign_on_the_way {o o' : Json} {q rest : List Segment} (hrest : rest ≠ [])
    (h : Document.assign o (q ++ rest) value = .ok o') :
    ∃ v, Document.find? o' q = some v ∧ v.isNull = false ∧ ∀ y, ObjectRef.ofJson? v = some y →
      rest = [.property "obj"] ∧ value = .int y.number := by
  obtain ⟨_, v, -, hassign, hv⟩ := Document.find?_of_assign_append hrest h
  refine ⟨v, hv, (Document.alike_of_assign hrest hassign).not_null, fun y hy ↦ ?_⟩
  exact reference_of_assign hrest hassign hy

/-- Afterwards the way to the place is plain, unless the write has made a reference on it. -/
private theorem plainInside_of_assign {o o' : Json} (h : Document.assign o place value = .ok o')
    (hrefers : ∀ y, ¬ Refers o' place y) : PlainInside o' place := by
  rintro q rest rfl hq hrest
  obtain ⟨v, hv, hnull, hobj⟩ := find?_of_assign_on_the_way hrest h
  refine ⟨v, hv, hnull, ?_⟩
  rcases href : ObjectRef.ofJson? v with _ | y
  · rfl
  · obtain ⟨rfl, -⟩ := hobj y href
    exact absurd ⟨q, v, hq, rfl, hv, href⟩ (hrefers y)

private theorem plainInside_front_of_assign {o o' : Json} {inside : List Segment}
    (h : Document.assign o (inside ++ [s]) value = .ok o') : PlainInside o' inside := by
  rintro q rest rfl hq hrest
  rw [List.append_assoc] at h
  obtain ⟨v, hv, hnull, hobj⟩ := find?_of_assign_on_the_way (by simp) h
  refine ⟨v, hv, hnull, ?_⟩
  rcases href : ObjectRef.ofJson? v with _ | y
  · rfl
  · -- the write would set the field `obj` further down
    have hlength := congrArg List.length (hobj y href).1
    have := List.length_pos_iff.mpr hrest
    simp only [List.length_append, List.length_singleton] at hlength
    omega

theorem resolve_front_of_setObject {o : Json} (hx : a.object? x = some o)
    (hfree : Segment.noMethodIn front = true) (hleads : a.resolve r front = (.ok x.json, a))
    (hpasses : ¬ a.PassesThrough r front x) (o' : Json) :
    (a.setObject x o').resolve r front = (.ok x.json, a.setObject x o') := by
  refine resolveFrom_congr (standard_setObject a x o') hfree (fun q rest v hq hrest hv ↦ ?_) hleads
  rcases href : ObjectRef.ofJson? v with _ | y
  · rw [follow_of_not_ref href, follow_of_not_ref href]
  · obtain ⟨rfl, -⟩ := ObjectRef.ofJson?_eq_some_iff.mp href
    have hne : y ≠ x := by
      rintro rfl
      exact hpasses ⟨q, rest, hq, hrest, hv⟩
    rw [follow_of_ref href, follow_of_ref href, object?_setObject hx, if_neg hne]

private theorem resolveFrom_obj (hy : ObjectRef.ofJson? y.json = some y) (trail : List Json) :
    a.resolveFrom trail y.json [.property "obj"] = (.ok (a.shownBy y), a) := by
  have hfound : a.found y.json (.property "obj") = a.shownBy y := by
    rw [found, follow_of_ref hy, shownBy]
    · rcases a.object? y with _ | o
      · rfl
      · rcases o with _ | _ | _ | _ | _ | _ | _ <;> rfl
    · simp
  rw [resolveFrom_cons rfl (by simp), hfound]
  split
  · next hnull => rw [Json.eq_null_of_isNull hnull]
  · rfl

/-- **What a write leaves behind** that has put a value at a place inside the object `x`. -/
structure Written (a : ObjectSpace) (r : ObjectRef) (front place : List Segment) (value : Json)
    (x : ObjectRef) (a' : ObjectSpace) : Prop where
  /-- The front of the path leads to the object. -/
  leads : a.resolve r front = (.ok x.json, a)
  /-- Something is left of the path. -/
  inside : place ≠ []
  /-- The object has changed at the place, which lies behind the last reference on the way. -/
  alters : ∃ o o', a.object? x = some o ∧ PlainInside o place ∧
    Document.AltersAt place value o o' ∧ a' = a.setObject x o' ∧ a'.object? x = some o'
  /-- Every other object is as before. -/
  others : ∀ y, y ≠ x → a'.object? y = a.object? y
  /-- Reading along the path finds the value. -/
  reads_back : ¬ a.PassesThrough r front x →
    (∀ o' y, a'.object? x = some o' → ¬ Refers o' place y) →
    a'.resolve r (front ++ place) = (.ok value, a')
  /-- If the write has made a reference of the value around the place, reading follows it. -/
  reads_on : ¬ a.PassesThrough r front x → ∀ o' y, a'.object? x = some o' → Refers o' place y →
    value = .int y.number ∧ a'.resolve r (front ++ place) = (.ok (a'.shownBy y), a')

/-- The value around a place in the object that has been written to. -/
theorem resolve_of_reaches {o o' v : Json} (h : a.Reaches r front c)
    (hobject : a.object? c.anchor = some o) {q : List Segment} (hq : q ≠ [])
    (hplain : PlainInside o' q) (hv : Document.find? o' q = some v)
    (hpasses : ¬ a.PassesThrough r front c.anchor) :
    (a.setObject c.anchor o').resolve r (front ++ q) = (.ok v, a.setObject c.anchor o') := by
  have href := ObjectRef.ofJson?_eq_some_iff.mpr ⟨rfl, h.signed, ne_zero_of_object? hobject⟩
  have hfollow : (a.setObject c.anchor o').follow c.anchor.json = o' := by
    rw [follow_of_ref href, object?_setObject hobject, if_pos rfl, Option.getD_some]
  obtain ⟨trail, htrail⟩ := resolveFrom_append h.free
    (resolve_front_of_setObject hobject h.free h.leads hpasses o') rfl
  rw [resolve, htrail, resolveFrom_of_plainInside (Document.isLookup_of_find? hv) hq
    (hfollow.symm ▸ hplain), hfollow, Document.resolve, hv, Option.getD_some]

theorem Reaches.written {last : Segment} {o o' : Json} (h : a.Reaches r front c)
    (hobject : a.object? c.anchor = some o)
    (hassign : Document.assign o (c.inside.reverse ++ [last]) value = .ok o') :
    a.Written r front (c.inside.reverse ++ [last]) value c.anchor (a.setObject c.anchor o') := by
  have hchanged : (a.setObject c.anchor o').object? c.anchor = some o' := by
    rw [object?_setObject hobject, if_pos rfl]
  have href := ObjectRef.ofJson?_eq_some_iff.mpr ⟨rfl, h.signed, ne_zero_of_object? hobject⟩
  have hplain : PlainInside o (c.inside.reverse ++ [last]) := by
    have := h.plain last
    rwa [follow_of_ref href, hobject, Option.getD_some] at this
  have halters := Document.altersAt_of_assign hassign
  constructor
  case leads => exact h.leads
  case inside => simp
  case alters => exact ⟨o, o', hobject, hplain, halters, rfl, hchanged⟩
  case others =>
    intro y hy
    rw [object?_setObject hobject, if_neg hy]
  case reads_back =>
    intro hpasses hrefers
    refine resolve_of_reaches h hobject (by simp) ?_ halters.holds hpasses
    exact plainInside_of_assign hassign fun y ↦ hrefers o' y hchanged
  -- the write has made a reference on the way, and reading follows it into another object
  case reads_on =>
    rintro hpasses o'' y hobject' ⟨inside, v, hinside, hplace, hv, hy⟩
    obtain rfl := Option.some.inj (hchanged.symm.trans hobject')
    rw [hplace] at hassign ⊢
    obtain ⟨v', hv', hnull, hobj⟩ := find?_of_assign_on_the_way (by simp) hassign
    obtain rfl := Option.some.inj (hv'.symm.trans hv)
    have hinto := resolve_of_reaches h hobject hinside (plainInside_front_of_assign hassign) hv
      hpasses
    have hfree : Segment.noMethodIn (front ++ inside) = true :=
      Segment.noMethodIn_append.mpr ⟨h.free, noMethodIn_of_find? hv⟩
    obtain ⟨trail, htrail⟩ := resolveFrom_append hfree hinto hnull
    refine ⟨(hobj y hy).2, ?_⟩
    obtain ⟨rfl, -⟩ := ObjectRef.ofJson?_eq_some_iff.mp hy
    rw [← List.append_assoc, resolve, htrail, resolveFrom_obj hy]

/-- **A write that calls no method** is refused and changes nothing, or it changes one object at one
place. -/
theorem write_exact (hr : Json.IsSigned r.number) (hfree : Segment.noMethodIn segments = true)
    (value : Json) :
    (∃ reason, a.write r segments value = (.failed reason, a)) ∨
      ∃ front place x a', segments = front ++ place ∧ a.write r segments value = (.ok (), a') ∧
        a.Written r front place value x a' := by
  obtain hfail | ⟨front, c, last, o, o', hreaches, hsplit, hobject, hassign, hok⟩ :=
    (reaches_start (a := a) hr).writeFrom_cases hfree value
  · exact .inl hfail
  · exact .inr ⟨front, _, c.anchor, _, hsplit.symm, hok, hreaches.written hobject hassign⟩

/-- The name of the spouse is written in the object of the spouse. -/
theorem write_spouse_exact :
    Json.IsSigned 3 ∧
      Segment.noMethodIn [.property "spouse", .property "name"] = true ∧
      ∃ front place x a', [.property "spouse", .property "name"] = front ++ place ∧
        ContactBook.space.write ⟨3⟩ [.property "spouse", .property "name"] (.string "Lisa")
          = (.ok (), a') ∧
        ContactBook.space.Written ⟨3⟩ front place (.string "Lisa") x a' := by
  have hok : (ContactBook.space.write ⟨3⟩ [.property "spouse", .property "name"]
      (.string "Lisa")).1 = .ok () := by decide +kernel
  have hsigned : Json.IsSigned 3 := ⟨by decide, by decide⟩
  refine ⟨hsigned, rfl, ?_⟩
  obtain ⟨reason, hfail⟩ | hwritten := @write_exact ContactBook.space ⟨3⟩
    [.property "spouse", .property "name"] hsigned rfl (.string "Lisa")
  · rw [hfail] at hok
    simp at hok
  · exact hwritten

/-- An object with an empty object inside. -/
def nested : ObjectSpace := (ObjectSpace.empty.insert (.object [("a", .object [])])).2

/-- A number written as the field `obj` of the inner object is not read back: the inner object has
become a reference, to an object that does not exist. -/
theorem not_always_read_back :
    ¬ ∀ (a a' : ObjectSpace) (r x : ObjectRef) (front place : List Segment) (value o : Json),
      Json.IsSigned r.number → Segment.noMethodIn (front ++ place) = true → place ≠ [] →
      a.resolve r front = (.ok x.json, a) → a.object? x = some o → PlainInside o place →
      a.write r (front ++ place) value = (.ok (), a') → ¬ a.PassesThrough r front x →
      a'.resolve r (front ++ place) = (.ok value, a') := by
  intro h
  have hplain : PlainInside (.object [("a", .object [])]) [.property "a", .property "obj"] := by
    intro q rest hsplit hq hrest
    rcases q with _ | ⟨s, _ | ⟨s', q⟩⟩
    · exact absurd rfl hq
    · obtain ⟨rfl, -⟩ := List.cons.inj hsplit
      exact ⟨.object [], rfl, rfl, rfl⟩
    · have hlength := congrArg List.length hsplit
      have := List.length_pos_iff.mpr hrest
      simp only [List.length_cons, List.length_append, List.length_nil] at hlength
      omega
  have hpasses : ¬ nested.PassesThrough ⟨1⟩ [] ⟨1⟩ := by
    rintro ⟨q, rest, hsplit, hrest, -⟩
    exact hrest (List.append_eq_nil_iff.mp hsplit.symm).2
  have hread := h nested _ ⟨1⟩ ⟨1⟩ [] [.property "a", .property "obj"] (.int 5) _
    ⟨by decide, by decide⟩ rfl (by simp) rfl rfl hplain rfl hpasses
  have hnull : ((nested.write ⟨1⟩ [.property "a", .property "obj"] (.int 5)).2.resolve ⟨1⟩
      [.property "a", .property "obj"]).1 = .ok .null := rfl
  exact absurd (hnull.symm.trans (congrArg Prod.fst hread)) (by simp)

end ReactiveVars.ObjectSpace
