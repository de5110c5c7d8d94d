import ReactiveVars.Application.ContactBook
import ReactiveVars.Proofs.Application.Readings

/-!
# Steps back

Reading keeps the values that it has come through, and a step back returns to the latest of them:
the value as it was before the step, be that a reference that the step has followed, the value that
an application object was named in front of, or the null that lies in front of the whole path. So as
many steps back as have been made in a row undo them, whatever has been read before and is read
behind.

This asks that the steps lead to something. Reading ends as soon as a step comes to null, and then
no step back is made any more. A step back that comes to null does not end it.

## Main statement

* `resolve_stepsBack`: steps and as many steps back are read as nothing.
-/

namespace ReactiveVars.ObjectSpace

variable {a : ObjectSpace} {r : ObjectRef} {trail : List Json} {raw : Json}
  {front steps : List Segment}

private theorem resolveFrom_step {s : Segment} (hs : s ≠ .parent) (a : ObjectSpace)
    (trail : List Json) (raw : Json) (rest : List Segment) :
    a.resolveFrom trail raw (s :: rest) = match a.stepFrom raw s with
      | (.ok next, a') =>
        if next.isNull then (.ok .null, a') else a'.resolveFrom (raw :: trail) next rest
      | (.failed reason, a') => (.failed reason, a')
      | (.crashed, a') => (.crashed, a') := by
  cases s with
  | parent => exact absurd rfl hs
  | _ => rfl

/-- Reading along a path either ends on it, whatever follows, or goes on behind it from one value
and one trail. -/
private theorem resolveFrom_append_cases (a : ObjectSpace) (trail : List Json) (raw : Json)
    (front : List Segment) :
    (∃ reply a', ∀ rest, a.resolveFrom trail raw (front ++ rest) = (reply, a')) ∨
    ∃ a' trail' raw', ∀ rest,
      a.resolveFrom trail raw (front ++ rest) = resolveFrom a' trail' raw' rest := by
  induction front generalizing a trail raw with
  | nil => exact .inr ⟨a, trail, raw, fun _ ↦ rfl⟩
  | cons s front ih =>
    by_cases hs : s = .parent
    · simp only [hs, List.cons_append, resolveFrom_parent_cons]
      exact ih a _ _
    · simp only [List.cons_append, resolveFrom_step hs]
      rcases a.stepFrom raw s with ⟨next | reason | _, a'⟩
      · by_cases hnull : next.isNull = true
        · simp only [if_pos hnull]
          exact .inl ⟨.ok .null, a', fun _ ↦ rfl⟩
        · simp only [if_neg hnull]
          exact ih a' (raw :: trail) next
      · exact .inl ⟨.failed reason, a', fun _ ↦ rfl⟩
      · exact .inl ⟨.crashed, a', fun _ ↦ rfl⟩

/-- As many steps back as steps return to the value and the trail in front of them. -/
theorem resolveFrom_stepsBack (hsteps : Segment.noMethodIn steps = true) (hback : .parent ∉ steps)
    (h : (a.resolveFrom trail raw steps).1 ≠ .ok .null) (rest : List Segment) :
    a.resolveFrom trail raw (steps ++ (List.replicate steps.length .parent ++ rest))
      = a.resolveFrom trail raw rest := by
  induction steps generalizing trail raw rest with
  | nil => rfl
  | cons s steps ih =>
    obtain ⟨hs, hsteps⟩ := Segment.noMethodIn_cons.mp hsteps
    rw [List.mem_cons, not_or] at hback
    have hcons (rest : List Segment) : a.resolveFrom trail raw (s :: rest)
        = if (a.found raw s).isNull then (.ok .null, a)
          else a.resolveFrom (raw :: trail) (a.found raw s) rest :=
      resolveFrom_cons hs (Ne.symm hback.1)
    have hgoes : ¬ (a.found raw s).isNull = true := by
      intro hnull
      rw [hcons, if_pos hnull] at h
      exact h rfl
    rw [hcons, if_neg hgoes] at h
    -- the last step back is the one over the first step
    rw [List.length_cons, List.replicate_succ', List.append_assoc, List.cons_append, hcons,
      if_neg hgoes, ih hsteps hback.2 h, List.singleton_append, resolveFrom_parent_cons]
    rfl

/-- **Steps and as many steps back are read as nothing.** The steps look something up or name an
object of the application, and lead to something other than null. The paths in front of them and
behind may step back themselves, and call methods. -/
theorem resolve_stepsBack (hsteps : Segment.noMethodIn steps = true) (hback : .parent ∉ steps)
    (h : (a.resolve r (front ++ steps)).1 ≠ .ok .null) (rest : List Segment) :
    a.resolve r (front ++ steps ++ List.replicate steps.length .parent ++ rest)
      = a.resolve r (front ++ rest) := by
  simp only [resolve, List.append_assoc] at h ⊢
  obtain ⟨reply, a', hends⟩ | ⟨a', trail, raw, hgoes⟩ := a.resolveFrom_append_cases [] r.json front
  · rw [hends, hends]
  · rw [hgoes] at h
    rw [hgoes, hgoes, resolveFrom_stepsBack hsteps hback h]

/-- From the name of the second contact back to the person, the contact being a reference that is
followed on the way. -/
theorem resolve_stepsBack_contacts :
    Segment.noMethodIn [.property "contacts", .index 2, .property "name"] = true ∧
    .parent ∉ [Segment.property "contacts", .index 2, .property "name"] ∧
    (ContactBook.space.resolve ⟨3⟩ ([.property "spouse", .parent]
      ++ [.property "contacts", .index 2, .property "name"])).1 ≠ .ok .null ∧
    ContactBook.space.resolve ⟨3⟩ ([.property "spouse", .parent]
        ++ [.property "contacts", .index 2, .property "name"]
        ++ [.parent, .parent, .parent] ++ [.property "name"])
      = (.ok (.string "Homer"), ContactBook.space) := by
  have hsteps : Segment.noMethodIn [.property "contacts", .index 2, .property "name"] = true := rfl
  have hback : .parent ∉ [Segment.property "contacts", .index 2, .property "name"] := by decide
  have hname : ContactBook.space.resolve ⟨3⟩ ([.property "spouse", .parent]
      ++ [.property "contacts", .index 2, .property "name"])
      = (.ok (.string "Bart"), ContactBook.space) := rfl
  have h : (ContactBook.space.resolve ⟨3⟩ ([.property "spouse", .parent]
      ++ [.property "contacts", .index 2, .property "name"])).1 ≠ .ok .null := by
    rw [hname]
    simp
  exact ⟨hsteps, hback, h, resolve_stepsBack hsteps hback h [.property "name"]⟩

/-- Nothing is selected, so reading ends there and the step back is not made. -/
example : ContactBook.space.resolve ⟨3⟩ [.property "selected", .parent, .property "name"]
    = (.ok .null, ContactBook.space) := rfl

end ReactiveVars.ObjectSpace
