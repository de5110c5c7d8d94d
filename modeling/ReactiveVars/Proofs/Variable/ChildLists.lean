import Mathlib.Data.List.Dedup
import ReactiveVars.Proofs.Order.Maps
import ReactiveVars.Proofs.Variable.Forest

/-!
# Child lists kept by hand

A store finds the children of a variable among its variables. They can also be kept in lists, one
for each parent, that are edited as variables come and go: an insertion appends to the list of the
parent, a destruction drops the lists of all that it removes and takes the destroyed variable off
the list of its parent. Such lists do not look at the variables again, so it is only by the edits
that they stay right.

`Listed.Agrees` says that they do: the list of a parent holds the children that the store finds. The
order is that of the insertions. A number may be inserted again when its variable has been removed,
and then its latest insertion counts, which is what `List.dedup` keeps.

## Main statement

* `Listed.Agrees.run`: lists and store agree after any edits, failing ones included.
-/

namespace ReactiveVars

namespace Store

variable {s : Store} {id k p : VarId} {v : Variable} {vs : List Variable}

/-! ## Edits

An edit may fail, and an insertion without number that fails has given out a number all the same.
`insert_cases` says what else can become of a store. -/

/-- Something that is done with a store. -/
inductive Edit where
  | insert (new : NewVariable)
  | update (id : VarId) (value : Option Json) (ps : Properties)
  | destroy (id : VarId)
  | setActive (id : VarId) (active : Bool)
  | vend

/-- The store after an edit. An insertion that fails may have spent a number. -/
def Edit.after (s : Store) : Edit → Store
  | .insert new => (s.insert new).2
  | .update id value ps =>
    match s.update id value ps with
    | .ok s' => s'
    | .error _ => s
  | .destroy id => (s.destroy id).2
  | .setActive id active => s.setActive id active
  | .vend => s.vend.2

/-- The number under which an edit inserts a variable, if it does. -/
def Edit.inserted? (s : Store) : Edit → Option VarId
  | .insert new => (s.insert new).1.toOption
  | _ => none

/-- The numbers under which edits insert variables, in the order of the insertions. -/
def insertions (s : Store) : List Edit → List VarId
  | [] => []
  | e :: es => (e.inserted? s).toList ++ (e.after s).insertions es

theorem insert_cases (s : Store) (new : NewVariable) :
    (∃ id ids, s.checkNew id new.parent = .ok () ∧
      s.insert new = (.ok id, ⟨newVariable id new :: s.entries, ids⟩)) ∨
    ∃ e ids, s.insert new = (.error e, ⟨s.entries, ids⟩) := by
  have hinsert (s' : Store) (hs : s'.entries = s.entries) (id : VarId) :
      (∃ ids, s.checkNew id new.parent = .ok () ∧
        s'.insertAs id new = .ok ⟨newVariable id new :: s.entries, ids⟩) ∨
      ∃ e, s'.insertAs id new = .error e := by
    have hcheck : s'.checkNew id new.parent = s.checkNew id new.parent := by
      rw [checkNew, checkNew]
      simp only [contains, get?, hs]
      rfl
    cases h : s'.insertAs id new with
    | error e => exact .inr ⟨e, rfl⟩
    | ok s'' =>
      obtain ⟨hok, rfl⟩ := insertAs_eq_ok_iff.mp h
      exact .inl ⟨_, hcheck ▸ hok, by rw [hs]⟩
  rw [insert]
  cases new.id with
  | some id =>
    rcases hinsert s rfl id with ⟨ids, hcheck, heq⟩ | ⟨e, heq⟩
    · exact .inl ⟨id, ids, hcheck, by simp only [heq]⟩
    · exact .inr ⟨e, s.ids, by simp only [heq]⟩
  | none =>
    rcases hinsert s.vend.2 rfl s.vend.1 with ⟨ids, hcheck, heq⟩ | ⟨e, heq⟩
    · exact .inl ⟨s.vend.1, ids, hcheck, by simp only [heq]⟩
    · exact .inr ⟨e, s.vend.2.ids, by simp only [heq]; rfl⟩

theorem Grown.insert (h : Grown s.entries) {new : NewVariable}
    (hcheck : s.checkNew id new.parent = .ok ()) : Grown (newVariable id new :: s.entries) := by
  obtain ⟨hid, hfree, hparent⟩ := checkNew_eq_ok_iff.mp hcheck
  exact .cons h hid (contains_eq_false_iff.mp hfree) hparent

/-! ## Variables of a grown list -/

/-- A variable of a grown list is found under its number. -/
theorem Grown.findIn_of_mem (h : Grown vs) (hv : v ∈ vs) : findIn v.id vs = some v := by
  induction h with
  | nil => exact absurd hv (by simp)
  | @cons u older _ _ fresh _ ih =>
    rw [findIn_cons]
    rcases List.mem_cons.mp hv with rfl | hmem
    · rw [if_pos rfl]
    · have hne : u.id ≠ v.id := (findIn_eq_none_iff.mp fresh v hmem).symm
      rw [if_neg hne, ih hmem]

/-- The parent of a descendant is the variable itself or another descendant. -/
private theorem Grown.parent_of_mem_below (h : Grown vs) (hk : k ∈ Store.below id vs.reverse)
    (hv : findIn k vs = some v) : v.parent = id ∨ v.parent ∈ Store.below id vs.reverse := by
  induction h with
  | nil => exact absurd hv (by simp)
  | @cons u older _ _ fresh _ ih =>
    have hup (h : v.parent = id ∨ v.parent ∈ Store.below id older.reverse) :
        v.parent = id ∨ v.parent ∈ Store.below id (u :: older).reverse :=
      h.imp_right fun hmem ↦ mem_below_reverse_cons.mpr (.inl hmem)
    rw [findIn_cons] at hv
    rcases mem_below_reverse_cons.mp hk with hmem | ⟨rfl, hparent⟩
    · -- a descendant among the older variables is not the latest one
      obtain ⟨u', hu', rfl⟩ := exists_of_mem_below hmem
      rw [if_neg (findIn_eq_none_iff.mp fresh u' hu').symm] at hv
      exact hup (ih hmem hv)
    · rw [if_pos rfl, Option.some_inj] at hv
      exact hup (hv ▸ hparent)

/-! ## Parents and children

The children that the store finds are the numbers in the order of insertion, filtered by their
parent. So an insertion appends to one list and a destruction filters them all. -/

/-- The parent of the variable with a number. -/
def parent? (s : Store) (id : VarId) : Option VarId := (s.get? id).map Variable.parent

theorem contains_of_parent? (h : s.parent? id = some p) : s.contains id = true := by
  obtain ⟨v, hv, -⟩ := Option.map_eq_some_iff.mp h
  exact contains_iff.mpr ⟨v, hv⟩

/-- The numbers in use in the order of their insertion. -/
def inOrder (s : Store) : List VarId := s.entries.reverse.map Variable.id

/-- The children are the numbers in order whose parent is the given one. -/
theorem Grown.children_eq (h : Grown s.entries) (hp : p ≠ noParent) :
    s.children p = s.inOrder.filter fun id ↦ s.parent? id = some p := by
  rw [children, if_neg hp, inOrder, List.filter_map]
  refine congrArg _ (List.filter_congr fun v hv ↦ ?_)
  rw [Function.comp_apply, parent?, get?_eq_findIn, h.findIn_of_mem (List.mem_reverse.mp hv),
    Option.map_some]
  simp only [Option.some_inj]

theorem Grown.parent?_of_mem_children (h : Grown s.entries) (hp : p ≠ noParent)
    (hk : k ∈ s.children p) : s.parent? k = some p := by
  rw [h.children_eq hp, List.mem_filter, decide_eq_true_eq] at hk
  exact hk.2

/-- A child of what a destruction removes is removed. -/
theorem Grown.mem_destroy_of_parent (h : Grown s.entries) (hp : p ∈ (s.destroy id).1)
    (hk : s.parent? k = some p) : k ∈ (s.destroy id).1 := by
  obtain ⟨v, hv, rfl⟩ := Option.map_eq_some_iff.mp hk
  have hc := contains_of_mem_destroy hp
  rw [destroy_of_contains hc, List.mem_append, List.mem_singleton] at hp ⊢
  rw [← id_of_get? hv]
  exact .inl (h.mem_below_of_parent (mem_of_get? hv) hp.symm)

private theorem Grown.parent_of_mem_destroy (h : Grown s.entries) (hmem : k ∈ (s.destroy id).1)
    (hk : s.parent? k = some p) : k = id ∨ p ∈ (s.destroy id).1 := by
  obtain ⟨v, hv, rfl⟩ := Option.map_eq_some_iff.mp hk
  have hc := contains_of_mem_destroy hmem
  rw [destroy_of_contains hc, List.mem_append, List.mem_singleton] at hmem ⊢
  exact hmem.symm.imp_right fun hbelow ↦ (h.parent_of_mem_below hbelow hv).symm

private theorem inOrder_map {f : Variable → Variable} (hid : ∀ v, (f v).id = v.id)
    (ids : IdSource) : inOrder ⟨s.entries.map f, ids⟩ = s.inOrder := by
  rw [inOrder, inOrder, ← List.map_reverse, List.map_map]
  exact List.map_congr_left fun v _ ↦ hid v

private theorem children_map {f : Variable → Variable} (hid : ∀ v, (f v).id = v.id)
    (hparent : ∀ v, (f v).parent = v.parent) (ids : IdSource) (p : VarId) :
    children ⟨s.entries.map f, ids⟩ p = s.children p := by
  rw [children, children]
  split
  · rfl
  · rw [← List.map_reverse, List.filter_map, List.map_map]
    simp only [Function.comp_def, hid, hparent]

theorem children_insert (s : Store) (id : VarId) (new : NewVariable) (ids : IdSource)
    (p : VarId) (hp : p ≠ noParent) : children ⟨newVariable id new :: s.entries, ids⟩ p
      = s.children p ++ if new.parent = p then [id] else [] := by
  rw [children, if_neg hp, children, if_neg hp, List.reverse_cons, List.filter_append,
    List.map_append, List.filter_singleton]
  by_cases h : new.parent = p <;> simp [h, newVariable]

theorem children_destroy (h : s.contains id = true) (p : VarId) :
    (s.destroy id).2.children p = (s.children p).filter fun k ↦ k ∉ (s.destroy id).1 := by
  rw [destroy_of_contains h, children, children]
  split
  · rfl
  · rw [← List.filter_reverse, List.filter_filter, List.filter_map, List.filter_filter]
    simp only [Function.comp_def, Bool.and_comm]

end Store

/-! ## Lists for each parent

The lists are edited by what an edit has done and not by what it was asked for: an insertion that
fails appends nothing, and a destruction drops what has been removed. -/

open Store

/-- For each parent the list of its children. -/
structure ChildLists where
  lists : KeyMap VarId (List VarId)

namespace ChildLists

variable {c : ChildLists} {id p : VarId}

/-- No lists. -/
def empty : ChildLists := ⟨.empty⟩

/-- The list of a parent. -/
def of (c : ChildLists) (p : VarId) : List VarId := (c.lists.get? p).getD []

/-- Appends a variable to the list of its parent, if it has one. -/
def add (c : ChildLists) (parent id : VarId) : ChildLists :=
  if parent = noParent then c else ⟨c.lists.insert parent (c.of parent ++ [id])⟩

/-- Drops the lists of what is removed, and takes the variable with a number off the list of its
parent. -/
def drop (c : ChildLists) (parent id : VarId) (removed : List VarId) : ChildLists :=
  ⟨(removed.foldl KeyMap.erase c.lists).modify parent fun ids ↦ ids.filter (· ≠ id)⟩

private theorem of_add (c : ChildLists) (parent id : VarId) (hp : p ≠ noParent) :
    (c.add parent id).of p = c.of p ++ if parent = p then [id] else [] := by
  rw [add]
  by_cases hparent : parent = noParent
  · rw [if_pos hparent, hparent, if_neg (Ne.symm hp), List.append_nil]
  · rw [if_neg hparent, of, KeyMap.get?_insert]
    by_cases h : parent = p
    · rw [if_pos h, if_pos h, Option.getD_some, h]
    · rw [if_neg h, if_neg h, List.append_nil, of]

private theorem get?_eraseAll (m : KeyMap VarId (List VarId)) (ids : List VarId) (p : VarId) :
    (ids.foldl KeyMap.erase m).get? p = if p ∈ ids then none else m.get? p := by
  have h := KeyMap.get?_foldl_erase id ids m p
  rw [List.map_id] at h
  exact h

theorem of_drop (c : ChildLists) (parent id : VarId) (removed : List VarId) (p : VarId) :
    (c.drop parent id removed).of p
      = if p ∈ removed then [] else if parent = p then (c.of p).filter (· ≠ id) else c.of p := by
  rw [of, drop, KeyMap.get?_modify]
  by_cases hp : parent = p
  · subst hp
    rw [if_pos rfl, if_pos rfl, get?_eraseAll, of]
    by_cases hr : parent ∈ removed
    · rw [if_pos hr, if_pos hr]
      rfl
    · rw [if_neg hr, if_neg hr]
      cases c.lists.get? parent <;> rfl
  · rw [if_neg hp, if_neg hp, get?_eraseAll, of]
    by_cases hr : p ∈ removed
    · rw [if_pos hr, if_pos hr]
      rfl
    · rw [if_neg hr, if_neg hr]

end ChildLists

/-- A store and child lists kept beside it. -/
structure Listed where
  store : Store
  lists : ChildLists

namespace Listed

/-- A new store and no lists. -/
def fresh (ids : IdSource) : Listed := ⟨.withIds ids, .empty⟩

/-- The lists after an edit of the store. -/
def relist (l : Listed) : Edit → ChildLists
  | .insert new =>
    match (l.store.insert new).1 with
    | .ok id => l.lists.add new.parent id
    | .error _ => l.lists
  | .destroy id =>
    match l.store.parent? id with
    | some parent => l.lists.drop parent id (l.store.destroy id).1
    | none => l.lists
  | _ => l.lists

/-- Store and lists after an edit. -/
def after (l : Listed) (e : Edit) : Listed := ⟨e.after l.store, l.relist e⟩

/-- Store and lists after edits in order. -/
def run (l : Listed) (es : List Edit) : Listed := es.foldl after l

/-- Whether the variables form a forest and the lists hold their children, when the given numbers
have been inserted in this order. -/
structure Agrees (l : Listed) (log : List VarId) : Prop where
  grown : Grown l.store.entries
  children : ∀ {p}, p ≠ noParent → l.lists.of p = l.store.children p
  inOrder : l.store.inOrder = log.dedup.filter l.store.contains

variable {l : Listed} {log : List VarId} {id : VarId}

theorem agrees_fresh (ids : IdSource) : (fresh ids).Agrees [] where
  grown := .nil
  children {p} hp := by rw [Store.children, if_neg hp]; rfl
  inOrder := rfl

/-- Of a number that is inserted again the latest insertion counts. -/
private theorem dedup_append_singleton (log : List VarId) (id : VarId) :
    (log ++ [id]).dedup = log.dedup.filter (· ≠ id) ++ [id] := by
  induction log with
  | nil => rfl
  | cons k log ih =>
    rw [List.cons_append, List.dedup_cons, List.dedup_cons, ih]
    by_cases hid : k = id
    · subst hid
      by_cases hk : k ∈ log <;> simp [hk]
    · by_cases hk : k ∈ log <;> simp [hk, hid]

theorem Agrees.still (h : l.Agrees log) {f : Variable → Variable} (hid : ∀ v, (f v).id = v.id)
    (hparent : ∀ v, (f v).parent = v.parent) (ids : IdSource) :
    Agrees ⟨⟨l.store.entries.map f, ids⟩, l.lists⟩ log where
  grown := h.grown.map hid hparent
  children {p} hp := by rw [children_map hid hparent, h.children hp]
  inOrder := by
    rw [inOrder_map hid, h.inOrder]
    apply List.filter_congr
    intro k _
    rw [contains, contains, get?_eq_findIn, get?_eq_findIn, findIn_map _ hid, Option.isSome_map]

theorem Agrees.spend (h : l.Agrees log) (ids : IdSource) :
    Agrees ⟨⟨l.store.entries, ids⟩, l.lists⟩ log := by
  have hstill := h.still (f := id) (fun _ ↦ rfl) (fun _ ↦ rfl) ids
  rwa [List.map_id] at hstill

theorem Agrees.modify (h : l.Agrees log) (id : VarId) {f : Variable → Variable}
    (hid : ∀ v, (f v).id = v.id) (hparent : ∀ v, (f v).parent = v.parent) :
    Agrees ⟨l.store.modify id f, l.lists⟩ log := by
  refine h.still (fun v ↦ ?_) (fun v ↦ ?_) l.store.ids
  · split
    · exact hid v
    · rfl
  · split
    · exact hparent v
    · rfl

/-- A new variable is the latest of its parent's children, and the latest of all. -/
theorem Agrees.add (h : l.Agrees log) {new : NewVariable}
    (hcheck : l.store.checkNew id new.parent = .ok ()) (ids : IdSource) :
    Agrees ⟨⟨newVariable id new :: l.store.entries, ids⟩, l.lists.add new.parent id⟩
      (log ++ [id]) where
  grown := h.grown.insert hcheck
  children {p} hp := by
    rw [children_insert _ _ _ _ _ hp, ChildLists.of_add _ _ _ hp, h.children hp]
  inOrder := by
    have hfree : l.store.contains id = false := (checkNew_eq_ok_iff.mp hcheck).2.1
    have hcontains (k : VarId) : contains ⟨newVariable id new :: l.store.entries, ids⟩ k
        = (decide (id = k) || l.store.contains k) := by
      rw [contains, get?_eq_findIn, findIn_cons, contains, get?_eq_findIn]
      by_cases hk : id = k <;> simp [newVariable, hk]
    -- the number is not in use, so taking it out of the log leaves the numbers in use alone
    have hlog : (log.dedup.filter (· ≠ id)).filter
        (contains ⟨newVariable id new :: l.store.entries, ids⟩)
          = log.dedup.filter l.store.contains := by
      rw [List.filter_filter]
      apply List.filter_congr
      intro k _
      rw [hcontains]
      by_cases hk : k = id
      · subst hk; simp [hfree]
      · simp [hk, Ne.symm hk]
    rw [Store.inOrder, List.reverse_cons, List.map_append, ← Store.inOrder, h.inOrder,
      dedup_append_singleton, List.filter_append, hlog, List.filter_singleton, hcontains]
    simp [newVariable]

/-- A destruction takes one variable off the list of a parent that stays, and the lists of all
others go. -/
theorem Agrees.drop (h : l.Agrees log) {parent : VarId}
    (hparent : l.store.parent? id = some parent) :
    Agrees ⟨(l.store.destroy id).2, l.lists.drop parent id (l.store.destroy id).1⟩ log where
  grown := h.grown.destroy id
  children {p} hp := by
    have hc := contains_of_parent? hparent
    rw [ChildLists.of_drop, children_destroy hc, h.children hp]
    by_cases hr : p ∈ (l.store.destroy id).1
    · -- all children of a removed variable are removed
      rw [if_pos hr, eq_comm, List.filter_eq_nil_iff]
      intro k hk
      have hgone := h.grown.mem_destroy_of_parent hr (h.grown.parent?_of_mem_children hp hk)
      simpa using hgone
    · -- a child of a variable that stays is not removed, unless it is the destroyed one itself
      have hself {k : VarId} (hk : k ∈ l.store.children p) :
          k ∈ (l.store.destroy id).1 ↔ k = id := by
        constructor
        · intro hmem
          have hpk := h.grown.parent?_of_mem_children hp hk
          exact (h.grown.parent_of_mem_destroy hmem hpk).resolve_right hr
        · rintro rfl
          exact mem_destroy_self hc
      rw [if_neg hr]
      split
      · exact List.filter_congr fun k hk ↦ by simp only [hself hk]
      · next hne =>
        rw [eq_comm, List.filter_eq_self]
        intro k hk
        rw [decide_eq_true_eq, hself hk]
        rintro rfl
        rw [h.grown.parent?_of_mem_children hp hk, Option.some_inj] at hparent
        exact hne hparent.symm
  inOrder := by
    have hc := contains_of_parent? hparent
    have hcontains (k : VarId) : (l.store.destroy id).2.contains k
        = (decide (k ∉ (l.store.destroy id).1) && l.store.contains k) := by
      rw [contains, get?_destroy, contains]
      split <;> simp_all
    -- both sides filter one list, and a number is there exactly if it was and is not removed
    have horder : (l.store.destroy id).2.inOrder
        = l.store.inOrder.filter fun k ↦ k ∉ (l.store.destroy id).1 := by
      rw [destroy_of_contains hc, Store.inOrder, Store.inOrder, List.filter_map,
        List.filter_reverse]
      rfl
    rw [horder, h.inOrder, List.filter_filter]
    exact List.filter_congr fun k _ ↦ (hcontains k).symm

theorem Agrees.insert (h : l.Agrees log) (new : NewVariable) :
    (l.after (.insert new)).Agrees (log ++ ((Edit.insert new).inserted? l.store).toList) := by
  rw [Listed.after, relist, Edit.after, Edit.inserted?]
  rcases l.store.insert_cases new with ⟨id, ids, hcheck, heq⟩ | ⟨e, ids, heq⟩
  · rw [heq]
    exact h.add hcheck ids
  · rw [heq, Except.toOption, Option.toList_none, List.append_nil]
    exact h.spend ids

theorem Agrees.update (h : l.Agrees log) (id : VarId) (value : Option Json) (ps : Properties) :
    (l.after (.update id value ps)).Agrees log := by
  have heq : l.after (.update id value ps)
      = ⟨(Edit.update id value ps).after l.store, l.lists⟩ := rfl
  rw [heq, Edit.after]
  cases hupdate : l.store.update id value ps with
  | error e => exact h
  | ok s' =>
    rw [(update_eq_ok_iff.mp hupdate).2]
    exact h.modify id (fun _ ↦ rfl) fun _ ↦ rfl

theorem Agrees.destroy (h : l.Agrees log) (id : VarId) : (l.after (.destroy id)).Agrees log := by
  rw [Listed.after, relist, Edit.after]
  cases hparent : l.store.parent? id with
  | some parent => exact h.drop hparent
  | none =>
    have hc : l.store.contains id = false :=
      contains_eq_false_iff.mpr (Option.map_eq_none_iff.mp hparent)
    rw [destroy_of_not_contains hc]
    exact h

/-- **Lists and store agree after an edit.** -/
theorem Agrees.after (h : l.Agrees log) (e : Edit) :
    (l.after e).Agrees (log ++ (e.inserted? l.store).toList) := by
  have hlog (hnone : e.inserted? l.store = none) (h : (l.after e).Agrees log) :
      (l.after e).Agrees (log ++ (e.inserted? l.store).toList) := by
    rwa [hnone, Option.toList_none, List.append_nil]
  cases e with
  | insert new => exact h.insert new
  | update id value ps => exact hlog rfl (h.update id value ps)
  | destroy id => exact hlog rfl (h.destroy id)
  | setActive id active => exact hlog rfl (h.modify id (fun _ ↦ rfl) fun _ ↦ rfl)
  | vend => exact hlog rfl (h.spend _)

/-- **Lists and store agree after any edits.** -/
theorem Agrees.run (h : l.Agrees log) (es : List Edit) :
    (l.run es).Agrees (log ++ l.store.insertions es) := by
  induction es generalizing l log with
  | nil => rwa [insertions, List.append_nil]
  | cons e es ih =>
    rw [insertions, ← List.append_assoc]
    exact ih (h.after e)

end Listed

end ReactiveVars
