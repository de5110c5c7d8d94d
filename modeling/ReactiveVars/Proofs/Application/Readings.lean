import ReactiveVars.Application.ObjectSpace
import ReactiveVars.Proofs.Path.Documents
import ReactiveVars.Proofs.Wire.Batches

/-!
# Reading without methods

Reading along a path that calls no method leaves the objects as they are and always yields a value.
It can be taken apart where the path is, as long as it has not come to null, and it depends on no
object that it does not come through. Inside one object, as long as no value refers to another, it
finds what a path finds in the value of the object.
-/

namespace ReactiveVars

/-! ## References -/

theorem Json.eq_null_of_isNull {v : Json} (h : v.isNull = true) : v = .null := by
  rcases v with _ | _ | _ | _ | _ | _ | _ <;> first | rfl | simp [isNull] at h

namespace ObjectRef

/-- A value refers to an object exactly if it is the reference to it, and the number is one that
objects may have. -/
theorem ofJson?_eq_some_iff {v : Json} {r : ObjectRef} :
    ofJson? v = some r ↔ v = r.json ∧ Json.IsSigned r.number ∧ r.number ≠ 0 := by
  constructor
  · intro h
    unfold ofJson? at h
    split at h
    · next n =>
      rw [Option.map_eq_some_iff] at h
      obtain ⟨m, hm, rfl⟩ := h
      obtain ⟨hsigned, hne⟩ := Option.filter_eq_some_iff.mp hm
      rcases n with _ | _ | n | _ | _ | _ | _ <;> simp only [Json.signed?, reduceCtorEq] at hsigned
      obtain ⟨hbounds, hnm⟩ := Option.ite_none_right_eq_some.mp hsigned
      obtain rfl := Option.some.inj hnm
      exact ⟨rfl, hbounds, by simpa using hne⟩
    · simp at h
  · rintro ⟨rfl, hsigned, hne⟩
    rw [json, ofJson?, Json.signed?_int hsigned]
    simp [hne]

end ObjectRef

/-! ## Steps

A path without methods never changes the objects, so a step is a function of the value at hand, and
the state that the reading carries along can be dropped from what is said of it. -/

/-- Whether a path calls no method. -/
def Segment.noMethodIn (segments : List Segment) : Bool := segments.all fun s ↦ !s.isMethod

theorem Segment.noMethodIn_cons {s : Segment} {rest : List Segment} :
    noMethodIn (s :: rest) = true ↔ s.isMethod = false ∧ noMethodIn rest = true := by
  simp [noMethodIn]

theorem Segment.noMethodIn_append {front rest : List Segment} :
    noMethodIn (front ++ rest) = true ↔ noMethodIn front = true ∧ noMethodIn rest = true := by
  simp only [noMethodIn, List.all_append, Bool.and_eq_true]

namespace ObjectSpace

variable {a b : ObjectSpace} {trail : List Json} {raw v : Json} {segments rest : List Segment}
  {s : Segment}

/-- What a step finds that goes on from a value and calls nothing. -/
def found (a : ObjectSpace) (raw : Json) : Segment → Json
  | .standard name => ((a.standard.get? name).map ObjectRef.json).getD .null
  | s => (Document.step? (a.follow raw) s).getD .null

theorem stepFrom_of_not_method (h : s.isMethod = false) (raw : Json) :
    a.stepFrom raw s = (.ok (a.found raw s), a) := by
  rcases s with name | k | name | _ | name
  · rfl
  · rfl
  · exact absurd h (by simp [Segment.isMethod])
  · rfl
  · rfl

/-- A step that goes on either ends the reading, with null, or is remembered. -/
theorem resolveFrom_cons (h : s.isMethod = false) (hs : s ≠ .parent) :
    a.resolveFrom trail raw (s :: rest) = if (a.found raw s).isNull then (.ok .null, a)
      else a.resolveFrom (raw :: trail) (a.found raw s) rest := by
  rw [resolveFrom, stepFrom_of_not_method h]
  exact hs

/-- A step back goes to the value before, which is null at the start of the path. -/
theorem resolveFrom_parent_cons :
    a.resolveFrom trail raw (.parent :: rest)
      = a.resolveFrom trail.tail (trail.head?.getD .null) rest := by
  rcases trail with _ | ⟨previous, trail⟩ <;> rfl

/-- Reading along a path without methods leaves the objects as they are and does not fail. -/
theorem resolveFrom_of_noMethodIn (h : Segment.noMethodIn segments = true) (trail : List Json)
    (raw : Json) : ∃ v, a.resolveFrom trail raw segments = (.ok v, a) := by
  induction segments generalizing trail raw with
  | nil => exact ⟨raw, rfl⟩
  | cons s rest ih =>
    obtain ⟨hs, hrest⟩ := Segment.noMethodIn_cons.mp h
    by_cases hparent : s = .parent
    · rw [hparent, resolveFrom_parent_cons]
      exact ih hrest _ _
    · rw [resolveFrom_cons hs hparent]
      split
      · exact ⟨.null, rfl⟩
      · exact ih hrest _ _

/-- Reading on behind a path that does not lead to null starts from what it leads to. -/
theorem resolveFrom_append (h : Segment.noMethodIn segments = true)
    (hv : a.resolveFrom trail raw segments = (.ok v, a)) (hnull : v.isNull = false) :
    ∃ trail', ∀ rest, a.resolveFrom trail raw (segments ++ rest)
      = a.resolveFrom trail' v rest := by
  induction segments generalizing trail raw with
  | nil =>
    obtain rfl : raw = v := by simpa [resolveFrom] using hv
    exact ⟨trail, fun _ ↦ rfl⟩
  | cons s segments ih =>
    obtain ⟨hs, hsegments⟩ := Segment.noMethodIn_cons.mp h
    by_cases hparent : s = .parent
    · rw [hparent, resolveFrom_parent_cons] at hv
      obtain ⟨trail', hread⟩ := ih hsegments hv
      refine ⟨trail', fun rest ↦ ?_⟩
      rw [hparent, List.cons_append, resolveFrom_parent_cons]
      exact hread rest
    · rw [resolveFrom_cons hs hparent] at hv
      split at hv
      · obtain rfl : Json.null = v := by simpa using hv
        simp [Json.isNull] at hnull
      · next hgoes =>
        obtain ⟨trail', hread⟩ := ih hsegments hv
        refine ⟨trail', fun rest ↦ ?_⟩
        rw [List.cons_append, resolveFrom_cons hs hparent, if_neg hgoes]
        exact hread rest

/-- **Reading depends only on the objects that it comes through.** -/
theorem resolveFrom_congr (hstandard : b.standard = a.standard)
    (h : Segment.noMethodIn segments = true)
    (hfollow : ∀ q rest v, segments = q ++ rest → rest ≠ [] →
      a.resolveFrom trail raw q = (.ok v, a) → b.follow v = a.follow v)
    (hv : a.resolveFrom trail raw segments = (.ok v, a)) :
    b.resolveFrom trail raw segments = (.ok v, b) := by
  -- both readings go through the same values, so they follow the same references
  induction segments generalizing trail raw with
  | nil =>
    obtain rfl : raw = v := by simpa [resolveFrom] using hv
    rfl
  | cons s segments ih =>
    obtain ⟨hs, hsegments⟩ := Segment.noMethodIn_cons.mp h
    by_cases hparent : s = .parent
    · subst hparent
      rw [resolveFrom_parent_cons] at hv ⊢
      refine ih hsegments (fun q rest u hq hrest hu ↦ ?_) hv
      refine hfollow (.parent :: q) rest u (by rw [hq, List.cons_append]) hrest ?_
      rw [resolveFrom_parent_cons]
      exact hu
    · have hfound : b.found raw s = a.found raw s := by
        have hraw := hfollow [] (s :: segments) raw rfl (by simp) rfl
        rcases s with _ | _ | _ | _ | _ <;> simp only [found, hraw, hstandard]
      rw [resolveFrom_cons hs hparent] at hv ⊢
      rw [hfound]
      split at hv
      · next hnull =>
        rw [if_pos hnull]
        simpa using hv
      · next hgoes =>
        rw [if_neg hgoes]
        refine ih hsegments (fun q rest u hq hrest hu ↦ ?_) hv
        refine hfollow (s :: q) rest u (by rw [hq, List.cons_append]) hrest ?_
        rw [resolveFrom_cons hs hparent, if_neg hgoes]
        exact hu

/-! ## Reading inside an object

A value that refers to an object is followed as soon as it is come to. Where no such value lies on
the way of a path, reading goes down into the value of one object and is the lookup of a path in
it. -/

/-- Whether a path leads into a value without coming, before its end, to null or to a value that
refers to an object. -/
def PlainInside (o : Json) (place : List Segment) : Prop :=
  ∀ q rest, place = q ++ rest → q ≠ [] → rest ≠ [] →
    ∃ c, Document.find? o q = some c ∧ c.isNull = false ∧ ObjectRef.ofJson? c = none

theorem follow_of_not_ref (h : ObjectRef.ofJson? v = none) : a.follow v = v := by
  rw [follow, h]

theorem follow_of_ref {r : ObjectRef} (h : ObjectRef.ofJson? v = some r) :
    a.follow v = (a.object? r).getD .null := by
  rw [follow, h]

/-- Whether a path leads into a value without coming, before its end, to a value that refers to an
object. It may come to null, or to nothing. -/
def RefFree (o : Json) (place : List Segment) : Prop :=
  ∀ q rest v, place = q ++ rest → q ≠ [] → rest ≠ [] → Document.find? o q = some v →
    ObjectRef.ofJson? v = none

private theorem PlainInside.refFree {o : Json} {place : List Segment} (h : PlainInside o place) :
    RefFree o place := by
  intro q rest v hplace hq hrest hv
  obtain ⟨c, hc, -, href⟩ := h q rest hplace hq hrest
  rw [hc] at hv
  exact Option.some.inj hv ▸ href

theorem refFree_singleton (o : Json) (s : Segment) : RefFree o [s] := by
  intro q rest v hsplit hq hrest _
  have hlength := congrArg List.length hsplit
  have := List.length_pos_iff.mpr hq
  have := List.length_pos_iff.mpr hrest
  rw [List.length_singleton, List.length_append] at hlength
  omega

theorem refFree_cons {o : Json} {place : List Segment} (hplace : place ≠ []) :
    RefFree o (s :: place) ↔
      ∀ c, Document.step? o s = some c → ObjectRef.ofJson? c = none ∧ RefFree c place := by
  constructor
  · intro h c hc
    refine ⟨h [s] place c rfl (by simp) hplace (by rwa [Document.find?_singleton]), ?_⟩
    intro q rest v hsplit hq hrest hv
    refine h (s :: q) rest v (by rw [hsplit, List.cons_append]) (by simp) hrest ?_
    rwa [Document.find?, hc]
  · intro h q rest v hsplit hq hrest hv
    obtain ⟨t, q, rfl⟩ := List.exists_cons_of_ne_nil hq
    obtain ⟨rfl, hbehind⟩ := List.cons.inj hsplit
    obtain ⟨c, hc, hnext⟩ := Option.bind_eq_some_iff.mp hv
    obtain ⟨href, hfree⟩ := h c hc
    by_cases hend : q = []
    · subst hend
      exact Option.some.inj hnext ▸ href
    · exact hfree q rest v hbehind hend hrest hnext

/-- Inside an object, reading finds what the path finds in its value. -/
theorem resolveFrom_of_refFree {place : List Segment}
    (hlookup : ∀ s ∈ place, s.isLookup = true) (hplace : place ≠ [])
    (hfree : RefFree (a.follow raw) place) :
    a.resolveFrom trail raw place = (.ok (Document.resolve (a.follow raw) place), a) := by
  -- where no reference is on the way, each step goes down into the same value
  induction place generalizing trail raw with
  | nil => exact absurd rfl hplace
  | cons s place ih =>
    obtain ⟨hs, hlookup⟩ := List.forall_mem_cons.mp hlookup
    have hread : a.resolveFrom trail raw (s :: place) = if (a.found raw s).isNull then
        (.ok .null, a) else a.resolveFrom (raw :: trail) (a.found raw s) place := by
      rcases s with _ | _ | _ | _ | _ <;> simp only [Segment.isLookup, Bool.false_eq_true] at hs
      · exact resolveFrom_cons rfl (by simp)
      · exact resolveFrom_cons rfl (by simp)
    have hfound : a.found raw s = (Document.step? (a.follow raw) s).getD .null := by
      rcases s with _ | _ | _ | _ | _ <;> simp only [Segment.isLookup, Bool.false_eq_true] at hs
      · rfl
      · rfl
    rw [hread, hfound]
    rcases hstep : Document.step? (a.follow raw) s with _ | c
    · rw [Document.resolve_cons_of_step?_none hstep]
      rfl
    rw [Option.getD_some, Document.resolve_cons_of_step? hstep]
    by_cases hnull : c.isNull = true
    · rw [if_pos hnull, Json.eq_null_of_isNull hnull, Document.resolve_null]
    rw [if_neg hnull]
    by_cases hend : place = []
    · subst hend
      rfl
    · obtain ⟨href, hfree⟩ := (refFree_cons hend).mp hfree c hstep
      have hfollow : a.follow c = c := follow_of_not_ref href
      rw [ih hlookup hend (hfollow.symm ▸ hfree), hfollow]

theorem resolveFrom_of_plainInside {place : List Segment}
    (hlookup : ∀ s ∈ place, s.isLookup = true) (hplace : place ≠ [])
    (hplain : PlainInside (a.follow raw) place) :
    a.resolveFrom trail raw place = (.ok (Document.resolve (a.follow raw) place), a) :=
  resolveFrom_of_refFree hlookup hplace hplain.refFree

end ObjectSpace

end ReactiveVars
