import ReactiveVars.Proofs.Variable.ChildLists

/-!
# Numbers that are given out are new

A store uses a number when it gives it out, and when it inserts a variable under it. Numbers that
others have chosen come in any order, on either side of the number that comes next; a source goes on
behind those that lie ahead of it and ignores the others.

So a source that counts up has nothing used at its next number or above it, and one that counts down
nothing at its next number or below it. This is what every edit of a store keeps, and it makes each
number that is given out differ from all that have been used, whatever has become of them.

## Main statement

* `Store.Ahead.run`: whatever is done with a store, its numbers stay ahead.
-/

namespace ReactiveVars

/-! ## Sources that go on

Up and down are treated at once: `Onward` compares two sources of the same direction, and a number
is passed if the next one lies beyond it. -/

namespace IdSource

variable {s s' s'' : IdSource} {id : VarId}

/-- Whether a source goes on to another of the same direction. -/
def Onward (s s' : IdSource) : Prop :=
  s'.ascending = s.ascending ∧ if s.ascending then s.next ≤ s'.next else s'.next ≤ s.next

/-- Whether a number lies behind the one that comes next. -/
def Passed (s : IdSource) (id : VarId) : Prop :=
  if s.ascending then id < s.next else s.next < id

/-- Whether a number is one that the side of a source may give out: above the root on the way up,
negative on the way down. -/
def InRange (s : IdSource) (id : VarId) : Prop := if s.ascending then rootId < id else id < 0

theorem not_passed_next (s : IdSource) : ¬ s.Passed s.next := by
  rw [Passed]
  split <;> exact Int.lt_irrefl _

theorem Onward.passed (h : s.Onward s') (hid : s.Passed id) : s'.Passed id := by
  obtain ⟨hsame, hnext⟩ := h
  rw [Passed] at hid ⊢
  rw [hsame]
  split at hnext
  · next hup =>
    rw [if_pos hup] at hid ⊢
    exact Int.lt_of_lt_of_le hid hnext
  · next hdown =>
    rw [if_neg hdown] at hid ⊢
    exact Int.lt_of_le_of_lt hnext hid

theorem Onward.refl (s : IdSource) : s.Onward s := by
  refine ⟨rfl, ?_⟩
  split <;> exact Int.le_refl _

theorem Onward.trans (h : s.Onward s') (h' : s'.Onward s'') : s.Onward s'' := by
  obtain ⟨hsame, hnext⟩ := h
  obtain ⟨hsame', hnext'⟩ := h'
  refine ⟨hsame'.trans hsame, ?_⟩
  rw [hsame] at hnext'
  split at hnext
  · next hup =>
    rw [if_pos hup] at hnext' ⊢
    exact Int.le_trans hnext hnext'
  · next hdown =>
    rw [if_neg hdown] at hnext' ⊢
    exact Int.le_trans hnext' hnext

private theorem Onward.inRange_next (h : s.Onward s') (hs : s.InRange s.next) :
    s.InRange s'.next := by
  obtain ⟨-, hnext⟩ := h
  rw [InRange] at hs ⊢
  split at hnext
  · next hup =>
    rw [if_pos hup] at hs ⊢
    exact Int.lt_of_lt_of_le hs hnext
  · next hdown =>
    rw [if_neg hdown] at hs ⊢
    exact Int.lt_of_le_of_lt hnext hs

theorem onward_vend (s : IdSource) : s.Onward s.vend.2 ∧ s.vend.2.Passed s.vend.1 := by
  by_cases hup : s.ascending = true
  · obtain ⟨hsame, hlt⟩ := vend_of_ascending hup
    rw [Onward, Passed, hsame, if_pos hup, if_pos rfl]
    exact ⟨⟨hup.symm, Int.le_of_lt hlt⟩, hlt⟩
  · have hlt : s.vend.2.next < s.next := by
      rw [vend, if_neg hup]
      exact Int.sub_one_lt_of_le (Int.le_refl s.next)
    have hsame : s.vend.2.ascending = s.ascending := rfl
    rw [Onward, Passed, hsame, if_neg hup, if_neg hup]
    exact ⟨⟨rfl, Int.le_of_lt hlt⟩, hlt⟩

/-- A source takes note of a number by going past it, unless it has passed it before. -/
theorem onward_observe (s : IdSource) (id : VarId) :
    s.Onward (s.observe id) ∧ (s.observe id).Passed id := by
  by_cases hup : s.ascending = true
  · obtain ⟨hsame, hle, hlt⟩ := observe_of_ascending hup id
    rw [Onward, Passed, hsame, if_pos hup, if_pos rfl]
    exact ⟨⟨hup.symm, hle⟩, hlt⟩
  · rw [observe, if_neg hup]
    split
    · next hle =>
      have hlt : id - 1 < id := Int.sub_one_lt_of_le (Int.le_refl id)
      rw [Onward, Passed, if_neg hup, if_neg hup]
      exact ⟨⟨rfl, Int.le_trans (Int.le_of_lt hlt) hle⟩, hlt⟩
    · next hlt =>
      rw [Onward, Passed, if_neg hup, if_neg hup]
      exact ⟨⟨rfl, Int.le_refl _⟩, Int.not_le.mp hlt⟩

theorem inRange_backend : backend.InRange backend.next := by
  rw [InRange, backend]
  decide

theorem inRange_frontendFrom (start : VarId) :
    (frontendFrom start).InRange (frontendFrom start).next := by
  rw [InRange, frontendFrom]
  exact Int.lt_of_lt_of_le (by decide) (Int.le_max_right _ _)

/-- The number that stands for no parent is in no range. -/
private theorem InRange.ne_noParent (h : s.InRange id) : id ≠ noParent := by
  rintro rfl
  rw [InRange] at h
  split at h <;> exact absurd h (by decide)

end IdSource

/-! ## Uses of numbers

The account is a list of the uses, the latest last. Numbers that are given out have to be new to it;
one that somebody has chosen may have been used before, if its variable is gone. -/

/-- A use of a number. -/
inductive NumberUse where
  /-- The number is given out. -/
  | vended (id : VarId)
  /-- A variable is inserted under the number. -/
  | inserted (id : VarId)

/-- The number that is used. -/
def NumberUse.id : NumberUse → VarId
  | vended id | inserted id => id

/-- Whether a use may come after another: what is given out has not been used before. -/
def NumberUse.MayFollow (u' u : NumberUse) : Prop := ∀ id, u' = vended id → u.id ≠ id

namespace Store

variable {s s' : Store} {start : IdSource} {used : List NumberUse} {id : VarId}
variable {new : NewVariable}

/-- The numbers that an edit uses, in order. An insertion without number has one given out before it
is checked, so that number is used even if the variable is refused. -/
def Edit.uses (s : Store) (e : Edit) : List NumberUse :=
  (match e with
    | .vend => [.vended s.vend.1]
    | .insert new => if new.id.isNone then [.vended s.vend.1] else []
    | _ => []) ++ (e.inserted? s).toList.map .inserted

/-- The numbers that edits use, in order. -/
def uses (s : Store) : List Edit → List NumberUse
  | [] => []
  | e :: es => e.uses s ++ (e.after s).uses es

/-- The store after edits in order. -/
def edited (s : Store) (es : List Edit) : Store := es.foldl Edit.after s

/-- Edits of a new store grow a forest. -/
theorem grown_edited (ids : IdSource) (es : List Edit) :
    Grown ((withIds ids).edited es).entries := by
  have hstore : ((Listed.fresh ids).run es).store = (withIds ids).edited es :=
    (List.foldl_hom Listed.store fun _ _ ↦ rfl).symm
  rw [← hstore]
  exact ((Listed.agrees_fresh ids).run es).grown

theorem insert_of_id_none (h : new.id = none) (s : Store) :
    s.insert new = s.vend.2.insert { new with id := some s.vend.1 } := by
  rw [insert, h, insert]
  rfl

theorem onward_after (s : Store) (e : Edit) : s.ids.Onward (e.after s).ids := by
  have hinsert (s : Store) {new : NewVariable} {id : VarId} (hid : new.id = some id) :
      s.ids.Onward (s.insert new).2.ids := by
    rw [insert, hid]
    simp only
    rcases hnew : s.insertAs id new with e | s'
    · exact .refl _
    · obtain ⟨-, rfl⟩ := insertAs_eq_ok_iff.mp hnew
      exact (s.ids.onward_observe id).1
  rcases e with new | ⟨id, value, ps⟩ | id | ⟨id, active⟩ | _
  · rw [Edit.after]
    rcases hid : new.id with _ | id
    · rw [insert_of_id_none hid]
      exact s.ids.onward_vend.1.trans (hinsert s.vend.2 rfl)
    · exact hinsert s hid
  · rw [Edit.after, update]
    split
    · next s' hupdate =>
      split at hupdate
      · rw [← Except.ok.inj hupdate]
        exact .refl _
      · exact absurd hupdate (by simp)
    · exact .refl _
  · rw [Edit.after, destroy]
    split <;> exact .refl _
  · exact .refl _
  · exact s.ids.onward_vend.1

theorem onward_edited (s : Store) (es : List Edit) : s.ids.Onward (s.edited es).ids := by
  induction es generalizing s with
  | nil => exact .refl _
  | cons e es ih => exact (s.onward_after e).trans (ih (e.after s))

/-- Whether the source of a store, which was another at the start, is ahead of all numbers used so
far, each of which was new when it was given out. -/
structure Ahead (s : Store) (start : IdSource) (used : List NumberUse) : Prop where
  range : start.InRange start.next
  /-- What was given out had not been used before. -/
  fresh : used.Pairwise fun u u' ↦ u'.MayFollow u
  in_range : ∀ id, .vended id ∈ used → start.InRange id
  onward : start.Onward s.ids
  passed : ∀ u ∈ used, s.ids.Passed u.id
  stored : ∀ id, s.contains id = true → s.ids.Passed id

/-- A new store is ahead of everything. -/
theorem ahead_withIds (h : start.InRange start.next) : (withIds start).Ahead start [] where
  range := h
  fresh := .nil
  in_range _ hid := absurd hid (by simp)
  onward := .refl start
  passed _ hu := absurd hu (by simp)
  stored _ hid := absurd hid (by simp [contains, get?, withIds])

theorem Ahead.inRange_next (h : s.Ahead start used) : start.InRange s.ids.next :=
  h.onward.inRange_next h.range

/-- An edit that gives out no number and inserts nothing. -/
theorem Ahead.still (h : s.Ahead start used) (hids : s'.ids = s.ids)
    (hcontains : ∀ id, s'.contains id = true → s.contains id = true) : s'.Ahead start used where
  range := h.range
  fresh := h.fresh
  in_range := h.in_range
  onward := hids ▸ h.onward
  passed := hids ▸ h.passed
  stored id hid := hids ▸ h.stored id (hcontains id hid)

/-- A number is used: the next one if it is given out, and any that is free otherwise. -/
theorem Ahead.use (h : s.Ahead start used) (u : NumberUse) (honward : s.ids.Onward s'.ids)
    (hpassed : s'.ids.Passed u.id) (hnext : ∀ id, u = .vended id → id = s.ids.next)
    (hcontains : ∀ k, s'.contains k = true → u.id = k ∨ s.contains k = true) :
    s'.Ahead start (used ++ [u]) := by
  constructor
  case range => exact h.range
  case fresh =>
    rw [List.pairwise_append]
    refine ⟨h.fresh, List.pairwise_singleton _ _, ?_⟩
    -- what has been used lies behind the next number
    intro u' hu' _ hu id hid heq
    rw [List.mem_singleton.mp hu] at hid
    exact s.ids.not_passed_next (hnext id hid ▸ heq ▸ h.passed u' hu')
  case in_range =>
    intro id hid
    rcases List.mem_append.mp hid with hid | hid
    · exact h.in_range id hid
    · rw [hnext id (List.mem_singleton.mp hid).symm]
      exact h.inRange_next
  case onward => exact h.onward.trans honward
  case passed =>
    intro u' hu'
    rcases List.mem_append.mp hu' with hu' | hu'
    · exact honward.passed (h.passed u' hu')
    · rwa [List.mem_singleton.mp hu']
  case stored =>
    intro k hk
    rcases hcontains k hk with rfl | hk
    · exact hpassed
    · exact honward.passed (h.stored k hk)

theorem Ahead.vend (h : s.Ahead start used) :
    s.vend.2.Ahead start (used ++ [.vended s.vend.1]) := by
  obtain ⟨honward, hpassed⟩ := s.ids.onward_vend
  refine h.use (.vended s.vend.1) honward hpassed ?_ fun k hk ↦ .inr hk
  intro id hid
  exact (NumberUse.vended.inj hid).symm

/-- A variable may be inserted under a number that somebody has chosen. -/
theorem Ahead.insertAs (h : s.Ahead start used) (hinsert : s.insertAs id new = .ok s') :
    s'.Ahead start (used ++ [.inserted id]) := by
  obtain ⟨-, rfl⟩ := insertAs_eq_ok_iff.mp hinsert
  obtain ⟨honward, hpassed⟩ := s.ids.onward_observe id
  refine h.use (.inserted id) honward hpassed (fun k hk ↦ absurd hk (by simp)) fun k hk ↦ ?_
  rw [contains, get?_eq_findIn, findIn_cons] at hk
  split at hk
  · next hid => exact .inl hid
  · exact .inr hk

theorem Ahead.insert (h : s.Ahead start used) (hid : new.id = some id) :
    (s.insert new).2.Ahead start (used ++ (s.insert new).1.toOption.toList.map .inserted) := by
  rw [Store.insert, hid]
  simp only
  rcases hinsert : s.insertAs id new with e | s'
  · rw [Except.toOption, Option.toList_none, List.map_nil, List.append_nil]
    exact h
  · exact h.insertAs hinsert

/-- **An edit leaves the numbers ahead.** -/
theorem Ahead.after (h : s.Ahead start used) (e : Edit) :
    (e.after s).Ahead start (used ++ e.uses s) := by
  have hstill (e : Edit) (huses : e.uses s = []) (h : (e.after s).Ahead start used) :
      (e.after s).Ahead start (used ++ e.uses s) := by
    rwa [huses, List.append_nil]
  rcases e with new | ⟨id, value, ps⟩ | id | ⟨id, active⟩ | _
  · rw [Edit.uses, Edit.after, Edit.inserted?]
    rcases hid : new.id with _ | id
    · -- the number is given out first, and used again if the insertion succeeds
      rw [insert_of_id_none hid, ← List.append_assoc]
      exact h.vend.insert rfl
    · exact h.insert hid
  · refine hstill _ rfl ?_
    rw [Edit.after]
    rcases hupdate : s.update id value ps with e | s'
    · exact h
    · obtain ⟨-, rfl⟩ := update_eq_ok_iff.mp hupdate
      refine h.still rfl fun k hk ↦ ?_
      rwa [contains_modify _ _ fun _ ↦ by rfl] at hk
  · refine hstill _ rfl (h.still ?_ fun k hk ↦ ?_)
    · rw [Edit.after, destroy]
      split <;> rfl
    · rw [Edit.after, contains, get?_destroy] at hk
      split at hk
      · exact absurd hk (by simp)
      · exact hk
  · refine hstill _ rfl (h.still rfl fun k hk ↦ ?_)
    rwa [Edit.after, contains_setActive] at hk
  · exact h.vend

/-- **Whatever is done with a store, its numbers stay ahead.** -/
theorem Ahead.run (h : s.Ahead start used) (es : List Edit) :
    (s.edited es).Ahead start (used ++ s.uses es) := by
  induction es generalizing s used with
  | nil => rwa [uses, List.append_nil]
  | cons e es ih =>
    rw [uses, ← List.append_assoc]
    exact ih (h.after e)

/-- The next number is free, so an insertion without number is not refused because of it. -/
theorem Ahead.checkNew_next_ne_duplicateId (h : s.Ahead start used) (parent k : VarId) :
    s.vend.2.checkNew s.vend.1 parent ≠ .error (.duplicateId k) := by
  have hfree : ¬ (s.vend.1 = noParent ∨ s.vend.2.contains s.vend.1 = true) := by
    rintro (hzero | hstored)
    · exact h.inRange_next.ne_noParent hzero
    · exact s.ids.not_passed_next (h.stored _ hstored)
  rw [checkNew, if_neg hfree]
  split
  · simp
  · simp

end Store

end ReactiveVars
