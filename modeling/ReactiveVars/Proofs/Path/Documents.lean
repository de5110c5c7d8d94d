import ReactiveVars.Path.Document
import ReactiveVars.Proofs.Json.Orders

/-!
# Writing into values

A write along a path goes down to the value at its end and builds the values on the way anew on the
way back up. What it changes is stated by what paths find: its own path finds the new value, a path
that parts from it finds what it found, and a path that stops on the way finds a value of the same
kind.

## Main statements

* `altersAt_of_assign`: a write changes the value at its path and nothing beside it.
* `ordered_of_assign`: a write keeps the fields of all objects in order.
-/

namespace ReactiveVars.Document

variable {root root' child value : Json} {segment : Segment} {place rest q : List Segment}

/-! ## Finding -/

/-- Going down a path and then another is going down both at once. -/
theorem find?_append (root : Json) (p q : List Segment) :
    find? root (p ++ q) = (find? root p).bind fun v ↦ find? v q := by
  induction p generalizing root with
  | nil => rfl
  | cons segment p ih =>
    rw [List.cons_append, find?, find?]
    rcases step? root segment with _ | next
    · rfl
    · exact ih next

theorem find?_singleton (root : Json) (segment : Segment) :
    find? root [segment] = step? root segment := by
  rw [find?]
  exact Option.bind_fun_some _

private theorem isLookup_of_step? {v : Json} (h : step? root segment = some v) :
    segment.isLookup = true := by
  rcases segment with _ | _ | _ | _ | _ <;> first | rfl | rcases root <;> simp [step?] at h

/-- Only properties and items lead into a value. -/
theorem isLookup_of_find? {v : Json} (h : find? root q = some v) :
    ∀ s ∈ q, s.isLookup = true := by
  induction q generalizing root with
  | nil => simp
  | cons segment q ih =>
    obtain ⟨next, hstep, hnext⟩ := Option.bind_eq_some_iff.mp h
    exact List.forall_mem_cons.mpr ⟨isLookup_of_step? hstep, ih hnext⟩

/-! ## Resolving -/

theorem resolve_cons_of_step? (h : step? root segment = some child) (q : List Segment) :
    resolve root (segment :: q) = resolve child q := by
  rw [resolve, find?, h, Option.bind_some, resolve]

theorem resolve_cons_of_step?_none (h : step? root segment = none) (q : List Segment) :
    resolve root (segment :: q) = .null := by
  rw [resolve, find?, h, Option.bind_none, Option.getD_none]

theorem resolve_null (q : List Segment) : resolve .null q = .null := by
  rcases q with _ | ⟨segment, q⟩
  · rfl
  · exact resolve_cons_of_step?_none (by rcases segment <;> rfl) q

/-! ## One step

A value that something has been put into stays an object, or an array of as many items. `Alike` says
this of the two, and it is all that the ways of other paths through the value depend on. -/

/-- Whether two values are both objects, or both arrays with the same number of items. -/
inductive Alike : Json → Json → Prop
  | object (fields fields' : List (String × Json)) : Alike (.object fields) (.object fields')
  | array {items items' : List Json} (same : items'.length = items.length) :
    Alike (.array items) (.array items')

theorem Alike.not_null (h : Alike root root') : root'.isNull = false := by
  rcases h with _ | _ <;> rfl

/-- A value is put into an object under any name, or in place of an item of an array. -/
theorem put_cases (h : put root segment value = .ok root') :
    (∃ name fields, segment = .property name ∧ root = .object fields ∧
      root' = .object (Entries.set name value fields)) ∨
    ∃ k items, segment = .index (k + 1) ∧ root = .array items ∧ k < items.length ∧
      root' = .array (items.set k value) := by
  revert h
  fun_cases put root segment value <;> intro h
  · exact .inl ⟨_, _, rfl, rfl, (Except.ok.inj h).symm⟩
  · exact .inr ⟨_, _, rfl, rfl, ‹_›, (Except.ok.inj h).symm⟩
  · simp at h
  · simp at h

theorem alike_of_put (h : put root segment value = .ok root') : Alike root root' := by
  obtain ⟨name, fields, -, rfl, rfl⟩ | ⟨k, items, -, rfl, -, rfl⟩ := put_cases h
  · exact .object _ _
  · exact .array (by rw [List.length_set])

theorem step?_of_put (h : put root segment value = .ok root') (s : Segment) :
    step? root' s = if s = segment then some value else step? root s := by
  obtain ⟨name, fields, rfl, rfl, rfl⟩ | ⟨k, items, rfl, rfl, hk, rfl⟩ := put_cases h
  · rcases s with name' | _ | _ | _ | _ <;> try rfl
    rw [step?, step?, Entries.find?_set]
    simp only [Segment.property.injEq, eq_comm]
  · rcases s with _ | (_ | k') | _ | _ | _ <;> try rfl
    rw [step?, step?, List.getElem?_set]
    by_cases hkk : k = k'
    · subst hkk
      simp [hk]
    · rw [if_neg hkk, if_neg]
      intro heq
      exact hkk (by simpa using heq.symm)

theorem step?_of_enter (h : enter root segment = .ok child) :
    step? root segment = some child ∧ child.isNull = false := by
  have hnext {next : Json} {e : WriteError} (hstep : step? root segment = some next)
      (hok : (if next.isNull then Except.error e else .ok next) = .ok child) :
      step? root segment = some child ∧ child.isNull = false := by
    split at hok
    · simp at hok
    · next hnull =>
      obtain rfl := Except.ok.inj hok
      exact ⟨hstep, Bool.eq_false_iff.mpr hnull⟩
  unfold enter at h
  split at h
  · split at h
    · exact hnext ‹_› h
    · simp at h
  · split at h
    · exact hnext ‹_› h
    · simp at h
  · simp at h

/-! ## Writing along a path

The induction is on the path. What comes back from its first step is put where the step has looked,
so the facts about one step carry over to the whole. -/

/-- What the first step of a write puts in place: the value itself at the end of the path, and else
what became of the value that the step finds. -/
theorem assign_cons (h : assign root (segment :: rest) value = .ok root') :
    ∃ child', put root segment child' = .ok root' ∧
      ((rest = [] ∧ child' = value) ∨ (rest ≠ [] ∧ ∃ child, step? root segment = some child ∧
        child.isNull = false ∧ assign child rest value = .ok child')) := by
  rcases rest with _ | ⟨next, rest⟩
  · exact ⟨value, h, .inl ⟨rfl, rfl⟩⟩
  · rw [assign] at h
    rcases henter : enter root segment with e | child
    · rw [henter] at h
      simp [bind, Except.bind] at h
    · rcases hassign : assign child (next :: rest) value with e | child'
      · rw [henter] at h
        simp [bind, Except.bind, hassign] at h
      · rw [henter] at h
        simp only [bind, Except.bind, hassign] at h
        obtain ⟨hstep, hnull⟩ := step?_of_enter henter
        exact ⟨child', h, .inr ⟨by simp, child, hstep, hnull, hassign⟩⟩

theorem alike_of_assign (hplace : place ≠ []) (h : assign root place value = .ok root') :
    Alike root root' := by
  rcases place with _ | ⟨segment, rest⟩
  · exact absurd rfl hplace
  · obtain ⟨child', hput, -⟩ := assign_cons h
    exact alike_of_put hput

/-- The path of a write finds what was written. -/
theorem find?_of_assign (h : assign root place value = .ok root') :
    find? root' place = some value := by
  induction place generalizing root root' with
  | nil => rw [find?, Except.ok.inj h]
  | cons segment rest ih =>
    obtain ⟨child', hput, ⟨rfl, rfl⟩ | ⟨-, child, -, -, hrest⟩⟩ := assign_cons h
    · rw [find?_singleton, step?_of_put hput, if_pos rfl]
    · rw [find?, step?_of_put hput, if_pos rfl]
      exact ih hrest

/-- A path that parts from the one of a write finds what it found before. -/
theorem find?_of_assign_of_not_prefix (h : assign root place value = .ok root')
    (hq : ¬ q <+: place) (hplace : ¬ place <+: q) : find? root' q = find? root q := by
  induction place generalizing root root' q with
  | nil => exact absurd List.nil_prefix hplace
  | cons segment rest ih =>
    obtain ⟨child', hput, hchild⟩ := assign_cons h
    rcases q with _ | ⟨s, q⟩
    · exact absurd List.nil_prefix hq
    rw [find?, find?, step?_of_put hput]
    by_cases hs : s = segment
    · subst hs
      rw [List.cons_prefix_cons] at hq hplace
      have hrest : rest ≠ [] := fun hnil ↦ hplace ⟨rfl, hnil ▸ List.nil_prefix⟩
      obtain ⟨hnil, -⟩ | ⟨-, child, hstep, -, hassign⟩ := hchild
      · exact absurd hnil hrest
      · rw [if_pos rfl, hstep]
        exact ih hassign (fun hp ↦ hq ⟨rfl, hp⟩) fun hp ↦ hplace ⟨rfl, hp⟩
    · rw [if_neg hs]

/-- On the way of a write stands what became of the value there. -/
theorem find?_of_assign_append (hrest : rest ≠ [])
    (h : assign root (q ++ rest) value = .ok root') :
    ∃ v v', find? root q = some v ∧ assign v rest value = .ok v' ∧ find? root' q = some v' := by
  induction q generalizing root root' with
  | nil => exact ⟨root, root', rfl, h, rfl⟩
  | cons segment q ih =>
    obtain ⟨child', hput, ⟨hnil, -⟩ | ⟨-, child, hstep, -, hassign⟩⟩ := assign_cons h
    · exact absurd (List.append_eq_nil_iff.mp hnil).2 hrest
    · obtain ⟨v, v', hv, hv', hfind⟩ := ih hassign
      refine ⟨v, v', ?_, hv', ?_⟩
      · rw [find?, hstep]
        exact hv
      · rw [find?, step?_of_put hput, if_pos rfl]
        exact hfind

/-- **What a write changes**: `root'` differs from `root` at most in the value at `place`. -/
structure AltersAt (place : List Segment) (value root root' : Json) : Prop where
  /-- At the place stands the value. -/
  holds : find? root' place = some value
  /-- What does not lie on the way to the place, nor inside it, is as before. -/
  elsewhere : ∀ q, ¬ q <+: place → ¬ place <+: q → find? root' q = find? root q
  /-- An object on the way is an object, and an array one of the same length. -/
  on_the_way : ∀ q rest, place = q ++ rest → rest ≠ [] →
    ∃ v v', find? root q = some v ∧ find? root' q = some v' ∧ Alike v v'

theorem altersAt_of_assign (h : assign root place value = .ok root') :
    AltersAt place value root root' where
  holds := find?_of_assign h
  elsewhere _ hq hplace := find?_of_assign_of_not_prefix h hq hplace
  on_the_way := by
    rintro q rest rfl hrest
    obtain ⟨v, v', hv, hassign, hv'⟩ := find?_of_assign_append hrest h
    exact ⟨v, v', hv, hv', alike_of_assign hrest hassign⟩

/-! ## Values in order -/

theorem ordered_of_step? (hroot : root.Ordered) (h : step? root segment = some child) :
    child.Ordered := by
  rw [step?.eq_def] at h
  split at h
  · exact (Json.ordered_object.mp hroot).2 _ (Entries.mem_of_find? h)
  · exact Json.ordered_array.mp hroot child (List.mem_of_getElem? h)
  · obtain ⟨⟩ := h

theorem ordered_resolve (hroot : root.Ordered) (segments : List Segment) :
    (resolve root segments).Ordered := by
  rw [resolve]
  induction segments generalizing root with
  | nil => exact hroot
  | cons segment rest ih =>
    rw [find?]
    rcases hstep : step? root segment with _ | child
    · exact Json.ordered_null
    · exact ih (ordered_of_step? hroot hstep)

theorem ordered_of_put (hroot : root.Ordered) (hvalue : value.Ordered)
    (h : put root segment value = .ok root') : root'.Ordered := by
  obtain ⟨name, fields, -, rfl, rfl⟩ | ⟨k, items, -, rfl, -, rfl⟩ := put_cases h
  · rw [(Json.ordered_object.mp hroot).1.set_eq_insert]
    exact hroot.insert name hvalue
  · refine Json.ordered_array.mpr fun v hv ↦ ?_
    obtain hv | rfl := List.mem_or_eq_of_mem_set hv
    · exact Json.ordered_array.mp hroot v hv
    · exact hvalue

/-- **A write of a value in order keeps the whole in order.** -/
theorem ordered_of_assign (hroot : root.Ordered) (hvalue : value.Ordered)
    (h : assign root place value = .ok root') : root'.Ordered := by
  induction place generalizing root root' with
  | nil => rwa [← Except.ok.inj h]
  | cons segment rest ih =>
    obtain ⟨child', hput, ⟨-, rfl⟩ | ⟨-, child, hstep, -, hassign⟩⟩ := assign_cons h
    · exact ordered_of_put hroot hvalue hput
    · exact ordered_of_put hroot (ih (ordered_of_step? hroot hstep) hassign) hput

end ReactiveVars.Document
