import ReactiveVars.Proofs.Path.Documents

/-!
# Writing in place

A write along a path builds the values on its way anew. It can also go down the path with nothing
but the way that it has come, and change the value at the end, where it counts the items of an array
from zero. Whatever then stands at the end of the way stands inside the whole, also if the write is
given up there. So it is a question whether a write that is given up has changed something, and
whether an item is addressed that is not there. Neither happens: the write in place has the result
of `assign`, and without a result the whole is as before.

Together with when a write succeeds (`Writable`) and what paths find afterwards this makes reading
and writing along a path a lens.

## Main statements

* `exists_assign_iff`: when a write succeeds.
* `writeInPlace_eq`: the write in place has the result of `assign`.
* `assign_lens`: reading and writing along paths form a lens.
-/

namespace ReactiveVars.Document

variable {root root' current current' child value : Json} {s : Segment}
  {place way rest q : List Segment}

/-! ## When a write succeeds

Only the last step of a write may find nothing. Those before it have to find something that is not
null, and what the last one needs depends on the kind of the value that it is made in. -/

/-- Whether the last step of a write fits the value that it is made in. -/
inductive Takes : Json → Segment → Prop
  | property (fields : List (String × Json)) (name : String) :
    Takes (.object fields) (.property name)
  | index {items : List Json} {k : Nat} (counted : 1 ≤ k) (inside : k ≤ items.length) :
    Takes (.array items) (.index k)

theorem exists_put_iff (value : Json) : (∃ root', put root s value = .ok root') ↔ Takes root s := by
  constructor
  · rintro ⟨root', h⟩
    obtain ⟨name, fields, rfl, rfl, -⟩ | ⟨k, items, rfl, rfl, hk, -⟩ := put_cases h
    · exact .property fields name
    · exact .index (Nat.succ_le_succ (Nat.zero_le k)) hk
  · rintro (⟨fields, name⟩ | ⟨hcounted, hinside⟩)
    · exact ⟨_, rfl⟩
    · obtain ⟨k, rfl⟩ := Nat.exists_eq_succ_of_ne_zero (Nat.ne_zero_of_lt hcounted)
      exact ⟨_, if_pos hinside⟩

theorem takes_of_step? (h : step? root s = some child) : Takes root s := by
  rw [step?.eq_def] at h
  split at h
  · exact .property _ _
  · next items k =>
    obtain ⟨hk, -⟩ := List.getElem?_eq_some_iff.mp h
    exact .index (Nat.succ_le_succ (Nat.zero_le k)) hk
  · exact absurd h (by simp)

private theorem enter_eq_ok_iff :
    enter root s = .ok child ↔ step? root s = some child ∧ child.isNull = false := by
  refine ⟨step?_of_enter, fun ⟨hstep, hnull⟩ ↦ ?_⟩
  rcases takes_of_step? hstep with _ | _
  · rw [enter, hstep]
    exact if_neg (by simp [hnull])
  · rw [enter, hstep]
    exact if_neg (by simp [hnull])

/-- Whether a write along a path succeeds: nothing on the way is null, and the last step fits the
value that the way leads to. -/
def Writable (root : Json) (place : List Segment) : Prop :=
  place = [] ∨ ∃ front last, place = front ++ [last] ∧
    (∀ q, q ≠ [] → q <+: front → (resolve root q).isNull = false) ∧
    Takes (resolve root front) last

private theorem writable_concat (root : Json) (front : List Segment) (last : Segment) :
    Writable root (front ++ [last]) ↔
      (∀ q, q ≠ [] → q <+: front → (resolve root q).isNull = false) ∧
        Takes (resolve root front) last := by
  constructor
  · rintro (hnil | ⟨front', last', hplace, hway, htakes⟩)
    · exact absurd hnil (by simp)
    · obtain ⟨rfl, hlast⟩ := List.append_inj' hplace rfl
      obtain rfl : last = last' := by simpa using hlast
      exact ⟨hway, htakes⟩
  · rintro ⟨hway, htakes⟩
    exact .inr ⟨front, last, rfl, hway, htakes⟩

private theorem writable_singleton : Writable root [s] ↔ Takes root s := by
  rw [← List.nil_append [s], writable_concat]
  refine and_iff_right fun q hq hprefix ↦ ?_
  exact absurd (List.prefix_nil.mp hprefix) hq

private theorem writable_cons (hrest : rest ≠ []) : Writable root (s :: rest) ↔
    ∃ child, step? root s = some child ∧ child.isNull = false ∧ Writable child rest := by
  obtain ⟨front, last, rfl⟩ := (List.eq_nil_or_concat' rest).resolve_left hrest
  rw [← List.cons_append, writable_concat]
  constructor
  · rintro ⟨hway, htakes⟩
    have hnull := hway [s] (by simp) (List.prefix_append [s] front)
    rcases hstep : step? root s with _ | child
    · rw [resolve_cons_of_step?_none hstep] at hnull
      exact absurd hnull (by simp [Json.isNull])
    rw [resolve_cons_of_step? hstep] at hnull htakes
    refine ⟨child, rfl, hnull, (writable_concat child front last).mpr ⟨?_, htakes⟩⟩
    intro q _ hprefix
    rw [← resolve_cons_of_step? hstep]
    exact hway (s :: q) (by simp) (List.cons_prefix_cons.mpr ⟨rfl, hprefix⟩)
  · rintro ⟨child, hstep, hnull, hwritable⟩
    obtain ⟨hway, htakes⟩ := (writable_concat child front last).mp hwritable
    rw [resolve_cons_of_step? hstep]
    refine ⟨fun q hq hprefix ↦ ?_, htakes⟩
    obtain ⟨t, q, rfl⟩ := List.exists_cons_of_ne_nil hq
    obtain ⟨rfl, hfront⟩ := List.cons_prefix_cons.mp hprefix
    rw [resolve_cons_of_step? hstep]
    by_cases hend : q = []
    · rw [hend]
      exact hnull
    · exact hway q hend hfront

/-- **A write succeeds** if its way leads through values that are not null, to one that takes its
last step. -/
theorem exists_assign_iff :
    (∃ root', assign root place value = .ok root') ↔ Writable root place := by
  induction place generalizing root with
  | nil => exact ⟨fun _ ↦ .inl rfl, fun _ ↦ ⟨value, rfl⟩⟩
  | cons s rest ih =>
    by_cases hrest : rest = []
    · subst hrest
      rw [writable_singleton]
      exact exists_put_iff value
    rw [writable_cons hrest]
    constructor
    · rintro ⟨root', h⟩
      obtain ⟨child', -, ⟨hnil, -⟩ | ⟨-, child, hstep, hnull, hassign⟩⟩ := assign_cons h
      · exact absurd hnil hrest
      · exact ⟨child, hstep, hnull, ih.mp ⟨child', hassign⟩⟩
    · rintro ⟨child, hstep, hnull, hwritable⟩
      obtain ⟨child', hassign⟩ := ih.mpr hwritable
      -- what has been entered can be replaced
      obtain ⟨root', hput⟩ := (exists_put_iff child').mpr (takes_of_step? hstep)
      obtain ⟨next, rest, rfl⟩ := List.exists_cons_of_ne_nil hrest
      refine ⟨root', ?_⟩
      rw [assign, enter_eq_ok_iff.mpr ⟨hstep, hnull⟩]
      simp only [bind, Except.bind, hassign, hput]

/-! ## Writing in place

The write goes down with the way that it has come, in reverse. The invariant is that the way finds
the value at hand, so that whatever is left there can be compared with what the recursion on the
path builds. -/

/-- What comes of a write in place. -/
inductive Outcome where
  | written
  | refused (e : WriteError)
  /-- An item is addressed that the array does not have. -/
  | outOfBounds

/-- Where the item with a number stands, counted from zero. There is no such place if one cannot be
taken off the number, or if the array ends before. -/
def slot? (items : List Json) (k : Nat) : Option (Fin items.length) :=
  if h : 1 ≤ k ∧ k - 1 < items.length then some ⟨k - 1, h.2⟩ else none

/-- Changes one step into a value, where the number of an item is compared with the length of the
array before the item is addressed. -/
def setInside (current : Json) (last : Segment) (value : Json) : Outcome × Json :=
  match current, last with
  | .object fields, .property name => (.written, .object (Entries.set name value fields))
  | .array items, .index k =>
    if 1 ≤ k ∧ k ≤ items.length then
      match slot? items k with
      | some i => (.written, .array (items.set i value))
      | none => (.outOfBounds, .array items)
    else (.refused (.notAssignable (.index k)), .array items)
  | current, last => (.refused (.notAssignable last), current)

/-- The whole when the value at the end of a way has become another. -/
def overwrite (root : Json) : List Segment → Json → Json
  | [], v => v
  | s :: way, v =>
    match step? root s with
    | some child => (put root s (overwrite child way v)).toOption.getD root
    | none => root

/-- Goes on down a path from the end of `way` inside `root`, writes at the end of the path, and
returns the whole as it is then: with what has been left at the end of the way, whatever has come
of the write. -/
def writeInPlace (root : Json) (way : List Segment) : List Segment → Json → Outcome × Json
  | [], value => (.written, overwrite root way value)
  | [last], value =>
    let left := setInside (resolve root way) last value
    (left.1, overwrite root way left.2)
  | s :: next :: rest, value =>
    match enter (resolve root way) s with
    | .ok _ => writeInPlace root (way ++ [s]) (next :: rest) value
    | .error e => (.refused e, overwrite root way (resolve root way))

/-- A step to an item finds what stands in its place. -/
private theorem step?_index (items : List Json) (k : Nat) :
    step? (.array items) (.index k) = (slot? items k).map items.get := by
  rcases k with _ | k
  · rfl
  · rw [step?, slot?]
    by_cases hk : k < items.length
    · rw [dif_pos ⟨Nat.succ_le_succ (Nat.zero_le k), hk⟩, List.getElem?_eq_getElem hk]
      rfl
    · rw [dif_neg fun h ↦ hk h.2, List.getElem?_eq_none (Nat.not_lt.mp hk)]
      rfl

/-- The outcome of a write in place that leaves `v` if it is refused. -/
def outcomeOf (v : Json) : Except WriteError Json → Outcome × Json
  | .ok v' => (.written, v')
  | .error e => (.refused e, v)

/-- The item that is addressed is there. -/
theorem setInside_eq (current : Json) (last : Segment) (value : Json) :
    setInside current last value = outcomeOf current (put current last value) := by
  unfold setInside
  split
  · rfl
  · next items k =>
    rcases k with _ | k
    · exact if_neg (by simp)
    rw [put]
    -- an item is addressed by its number, counted from one
    by_cases hk : k < items.length
    · have hslot : slot? items (k + 1) = some ⟨k, hk⟩ :=
        dif_pos ⟨Nat.succ_le_succ (Nat.zero_le k), hk⟩
      rw [if_pos ⟨Nat.succ_le_succ (Nat.zero_le k), hk⟩, if_pos hk, hslot]
      rfl
    · rw [if_neg fun h ↦ hk h.2, if_neg hk]
      rfl
  · next hobject harray =>
    rw [put]
    · rfl
    · exact hobject
    · exact fun items k ↦ harray items (k + 1)

/-- To put back what a step finds changes nothing. -/
private theorem put_of_step? (h : step? root s = some child) : put root s child = .ok root := by
  rcases takes_of_step? h with ⟨fields, name⟩ | @⟨items, k, hcounted, hinside⟩
  · rw [put, Entries.set_of_find? h]
  · obtain ⟨k, rfl⟩ := Nat.exists_eq_succ_of_ne_zero (Nat.ne_zero_of_lt hcounted)
    obtain ⟨hk, hitem⟩ := List.getElem?_eq_some_iff.mp h
    rw [put, if_pos hk, ← hitem, List.set_getElem_self]

/-- To leave at the end of a way what is there leaves the whole as it is. -/
theorem overwrite_of_find? (h : find? root way = some current) :
    overwrite root way current = root := by
  induction way generalizing root with
  | nil => exact (Option.some.inj h).symm
  | cons s way ih =>
    obtain ⟨child, hstep, hchild⟩ := Option.bind_eq_some_iff.mp h
    rw [overwrite, hstep]
    simp only [ih hchild, put_of_step? hstep, Except.toOption, Option.getD_some]

/-- A change of what the last step of a way finds is a change of the value that it is made in. -/
private theorem overwrite_concat (hway : find? root way = some current)
    (hs : step? current s = some child) (hput : put current s value = .ok current') :
    overwrite root (way ++ [s]) value = overwrite root way current' := by
  induction way generalizing root with
  | nil =>
    obtain rfl : root = current := Option.some.inj hway
    rw [List.nil_append, overwrite, overwrite, hs]
    simp only [overwrite, hput, Except.toOption, Option.getD_some]
  | cons t way ih =>
    obtain ⟨next, hstep, hnext⟩ := Option.bind_eq_some_iff.mp hway
    rw [List.cons_append, overwrite, overwrite, hstep]
    simp only [ih hnext]

/-- **A write in place** has the result of a write that builds all values anew, and leaves what it
has found if it is refused. -/
theorem writeInPlace_eq (hway : find? root way = some current) (place : List Segment)
    (value : Json) : writeInPlace root way place value
      = outcomeOf root ((assign current place value).map (overwrite root way)) := by
  have hcurrent : resolve root way = current := by rw [resolve, hway, Option.getD_some]
  -- the way grows as the path gets shorter, and leads to the value that the path goes on in
  induction place generalizing way current with
  | nil => rfl
  | cons s rest ih =>
    rcases rest with _ | ⟨next, rest⟩
    · simp only [writeInPlace, assign, hcurrent, setInside_eq]
      rcases put current s value with e | current'
      · exact congrArg (Prod.mk _) (overwrite_of_find? hway)
      · rfl
    · rw [writeInPlace, assign, hcurrent]
      rcases henter : enter current s with e | child
      · exact congrArg (Prod.mk _) (overwrite_of_find? hway)
      obtain ⟨hstep, -⟩ := step?_of_enter henter
      have hchild : find? root (way ++ [s]) = some child := by
        rw [find?_append, hway, Option.bind_some, find?_singleton, hstep]
      have hresolve : resolve root (way ++ [s]) = child := by
        rw [resolve, hchild, Option.getD_some]
      simp only [ih hchild hresolve, bind, Except.bind]
      rcases hassign : assign child (next :: rest) value with e | child'
      · rfl
      obtain ⟨current', hput⟩ := (exists_put_iff child').mpr (takes_of_step? hstep)
      simp only [hput, Except.map, overwrite_concat hway hstep hput]

private theorem eq_of_assign_of_find? (h : assign root place value = .ok root')
    (hfind : find? root place = some value) : root' = root := by
  induction place generalizing root root' with
  | nil => exact (Except.ok.inj h).symm.trans (Option.some.inj hfind).symm
  | cons s rest ih =>
    obtain ⟨next, hstep, hnext⟩ := Option.bind_eq_some_iff.mp hfind
    obtain ⟨child', hput, hchild⟩ := assign_cons h
    obtain rfl : child' = next := by
      rcases hchild with ⟨rfl, rfl⟩ | ⟨-, child, hstep', -, hassign⟩
      · exact (Option.some.inj hnext).symm
      · obtain rfl := Option.some.inj (hstep'.symm.trans hstep)
        exact ih hassign hnext
    rw [put_of_step? hstep] at hput
    exact (Except.ok.inj hput).symm

theorem writeInPlace_root (root : Json) (place : List Segment) (value : Json) :
    writeInPlace root [] place value = outcomeOf root (assign root place value) := by
  rw [writeInPlace_eq rfl]
  rcases assign root place value with e | root' <;> rfl

/-! ## The lens

Reading and writing part at the first step in which two paths differ. `Parts` says that there is
such a step; where one path lies on the way of the other the write does show. -/

/-- Whether two paths differ at a position that both have. -/
def Parts (p q : List Segment) : Prop :=
  ∃ (i : Nat) (s t : Segment), p[i]? = some s ∧ q[i]? = some t ∧ s ≠ t

private theorem Parts.symm {p : List Segment} (h : Parts p q) : Parts q p := by
  obtain ⟨i, s, t, hs, ht, hne⟩ := h
  exact ⟨i, t, s, ht, hs, hne.symm⟩

theorem Parts.not_prefix {p : List Segment} (h : Parts p q) : ¬ p <+: q := by
  rintro ⟨rest, rfl⟩
  obtain ⟨i, s, t, hs, ht, hne⟩ := h
  obtain ⟨hi, -⟩ := List.getElem?_eq_some_iff.mp hs
  rw [List.getElem?_append_left hi, hs, Option.some_inj] at ht
  exact hne ht

/-- **What writing along a path and reading have to do with one another.** -/
structure IsLens (root : Json) (place : List Segment) (value : Json) : Prop where
  succeeds_iff : (∃ root', assign root place value = .ok root') ↔ Writable root place
  reads_back : ∀ root', assign root place value = .ok root' → resolve root' place = value
  /-- A write of what is found is no change. -/
  writes_back : ∀ root', assign root place value = .ok root' → find? root place = some value →
    root' = root
  elsewhere : ∀ root' q, assign root place value = .ok root' → Parts place q →
    resolve root' q = resolve root q
  /-- The write in place succeeds alike. -/
  in_place : ∀ root', assign root place value = .ok root' →
    writeInPlace root [] place value = (.written, root')
  /-- The write in place is refused alike, and the whole is as before. -/
  unchanged : ∀ e, assign root place value = .error e →
    writeInPlace root [] place value = (.refused e, root)

/-- **Reading and writing along paths form a lens**, and no item is addressed that is not there. -/
theorem assign_lens :
    (∀ items k, step? (.array items) (.index k) = (slot? items k).map items.get) ∧
      ∀ root place value, IsLens root place value := by
  refine ⟨step?_index, fun root place value ↦ ?_⟩
  constructor
  case succeeds_iff => exact exists_assign_iff
  case reads_back =>
    intro root' h
    rw [resolve, find?_of_assign h, Option.getD_some]
  case writes_back => exact fun root' h hfind ↦ eq_of_assign_of_find? h hfind
  case elsewhere =>
    intro root' q h hparts
    rw [resolve, find?_of_assign_of_not_prefix h hparts.symm.not_prefix hparts.not_prefix, resolve]
  case in_place =>
    intro root' h
    rw [writeInPlace_root, h, outcomeOf]
  case unchanged =>
    intro e h
    rw [writeInPlace_root, h, outcomeOf]

end ReactiveVars.Document
