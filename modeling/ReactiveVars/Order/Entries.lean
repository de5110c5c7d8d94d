/-!
# Lists of entries in the order of their keys

A finite map is kept as the list of its entries with strictly ascending keys. This module holds the
list operations; they look keys up by equality, so the two laws of `insert` below need no
assumption on the list.

A value can be stored in two ways that agree on ascending lists. `insert` goes to the place of the
key by the order, and `set` leaves an entry that is there where it stands. So on any list at all
storing what is found changes nothing, if it is stored by `set`.

## Main statements

* `find?_insert`, `find?_set`, `find?_erase`: what a key finds after a write.
* `set_of_find?`, `Ascending.set_eq_insert`: how `set` leaves the list.
* `Ascending.insert`, `Ascending.erase`: both operations keep the keys ascending.
* `eq_of_find?_eq`: two ascending lists in which every key finds the same are equal.
-/

namespace ReactiveVars

/-- What the keys of a map need: a strict order that compares any two different keys. -/
class KeyOrder (α : Type) [LT α] : Prop where
  irrefl : ∀ a : α, ¬ a < a
  trans : ∀ {a b c : α}, a < b → b < c → a < c
  connected : ∀ {a b : α}, ¬ a < b → a ≠ b → b < a

instance : KeyOrder String where
  irrefl := String.lt_irrefl
  trans := String.lt_trans
  connected := fun h hne ↦ Decidable.byContradiction fun h' ↦ hne (String.le_antisymm h' h)

instance : KeyOrder Int where
  irrefl := Int.lt_irrefl
  trans := Int.lt_trans
  connected := fun h hne ↦ by omega

instance : KeyOrder Nat where
  irrefl := Nat.lt_irrefl
  trans := Nat.lt_trans
  connected := fun h hne ↦ by omega

namespace Entries

variable {α β : Type}

/-- The value of the first entry with the key `k`. -/
def find? [DecidableEq α] (k : α) : List (α × β) → Option β
  | [] => none
  | e :: rest => if e.1 = k then some e.2 else find? k rest

/-- Puts an entry in its place, in place of an entry with the same key. -/
def insert [LT α] [DecidableLT α] [DecidableEq α] (k : α) (v : β) : List (α × β) → List (α × β)
  | [] => [(k, v)]
  | e :: rest =>
    if k < e.1 then (k, v) :: e :: rest
    else if k = e.1 then (k, v) :: rest
    else e :: insert k v rest

/-- Gives the first entry with the key `k` another value, where it stands. -/
def replace [DecidableEq α] (k : α) (v : β) : List (α × β) → List (α × β)
  | [] => []
  | e :: rest => if e.1 = k then (k, v) :: rest else e :: replace k v rest

/-- Stores a value in the entry that is there, or else puts a new entry in its place. -/
def set [LT α] [DecidableLT α] [DecidableEq α] (k : α) (v : β) (es : List (α × β)) :
    List (α × β) :=
  if (find? k es).isSome then replace k v es else insert k v es

/-- Removes the entries with the key `k`. -/
def erase [DecidableEq α] (k : α) : List (α × β) → List (α × β)
  | [] => []
  | e :: rest => if e.1 = k then erase k rest else e :: erase k rest

/-- The keys ascend strictly, so none occurs twice. -/
def Ascending [LT α] (es : List (α × β)) : Prop := es.Pairwise fun a b ↦ a.1 < b.1

/-! ## What a key finds -/

section Find

variable [DecidableEq α]

theorem erase_sublist (k : α) (es : List (α × β)) :
    (Entries.erase k es).Sublist es := by
  induction es with
  | nil => exact .slnil
  | cons e rest ih =>
    unfold Entries.erase
    split
    · exact ih.cons e
    · exact ih.cons_cons e

@[simp] theorem find?_nil (k : α) : find? k ([] : List (α × β)) = none := rfl

theorem find?_cons (k : α) (e : α × β) (es : List (α × β)) :
    find? k (e :: es) = if e.1 = k then some e.2 else find? k es := rfl

theorem find?_insert [LT α] [DecidableLT α] (k k' : α) (v : β) (es : List (α × β)) :
    find? k' (insert k v es) = if k = k' then some v else find? k' es := by
  induction es with
  | nil => simp [insert, find?]
  | cons e rest ih =>
    unfold insert
    split
    · simp [find?]
    · split
      · next h => subst h; by_cases hk : e.1 = k' <;> simp [find?, hk]
      · next hne =>
        by_cases hk : e.1 = k'
        · subst hk; simp [find?, hne]
        · simp [find?, hk, ih]

theorem find?_replace {k : α} {es : List (α × β)} (h : (find? k es).isSome = true) (k' : α)
    (v : β) : find? k' (replace k v es) = if k = k' then some v else find? k' es := by
  induction es with
  | nil => simp at h
  | cons e rest ih =>
    rw [find?_cons] at h
    rw [replace]
    split
    · next he => subst he; by_cases hk : e.1 = k' <;> simp [find?, hk]
    · next hne =>
      rw [if_neg hne] at h
      rw [find?_cons, find?_cons, ih h]
      by_cases hk : k = k'
      · rw [if_pos hk, if_pos hk, if_neg fun he ↦ hne (he.trans hk.symm)]
      · rw [if_neg hk, if_neg hk]

theorem find?_set [LT α] [DecidableLT α] (k k' : α) (v : β) (es : List (α × β)) :
    find? k' (set k v es) = if k = k' then some v else find? k' es := by
  rw [set]
  split
  · next h => exact find?_replace h k' v
  · exact find?_insert k k' v es

/-- To store what is found changes nothing. -/
theorem set_of_find? [LT α] [DecidableLT α] {k : α} {v : β} {es : List (α × β)}
    (h : find? k es = some v) : set k v es = es := by
  rw [set, if_pos (by rw [h]; rfl)]
  induction es with
  | nil => rfl
  | cons e rest ih =>
    rw [find?_cons] at h
    rw [replace]
    split at h
    · next he => rw [if_pos he, ← he, ← Option.some.inj h]
    · next hne => rw [if_neg hne, ih h]

theorem find?_erase (k k' : α) (es : List (α × β)) :
    find? k' (erase k es) = if k = k' then none else find? k' es := by
  induction es with
  | nil => simp [erase, find?]
  | cons e rest ih =>
    by_cases he : e.1 = k
    · subst he; by_cases hk : e.1 = k' <;> simp_all [erase, find?]
    · by_cases hk : e.1 = k'
      · subst hk; simp [erase, find?, he, Ne.symm he]
      · simp [erase, find?, he, hk, ih]

theorem mem_of_find? {k : α} {v : β} {es : List (α × β)} (h : find? k es = some v) :
    (k, v) ∈ es := by
  induction es with
  | nil => simp at h
  | cons e rest ih =>
    rw [find?_cons] at h
    split at h
    · next he => simp only [Option.some.injEq] at h; subst he h; simp
    · exact List.mem_cons_of_mem _ (ih h)

theorem find?_eq_none {k : α} {es : List (α × β)} (h : ∀ e ∈ es, e.1 ≠ k) :
    find? k es = none := by
  induction es with
  | nil => rfl
  | cons e rest ih =>
    rw [find?_cons, if_neg (h e (by simp))]
    exact ih fun e he ↦ h e (List.mem_cons_of_mem _ he)

end Find

/-! ## Ascending lists -/

section Ascending

variable [LT α]

theorem ascending_nil : Ascending ([] : List (α × β)) := List.Pairwise.nil

theorem fst_mem_insert [DecidableLT α] [DecidableEq α] {k : α} {v : β} {es : List (α × β)}
    {e : α × β} (h : e ∈ insert k v es) : e.1 = k ∨ e ∈ es := by
  induction es with
  | nil => simp only [insert, List.mem_singleton] at h; simp [h]
  | cons d rest ih =>
    unfold insert at h
    split at h
    · rcases List.mem_cons.1 h with rfl | h
      · simp
      · exact .inr h
    · split at h
      · rcases List.mem_cons.1 h with rfl | h
        · simp
        · exact .inr (List.mem_cons_of_mem _ h)
      · rcases List.mem_cons.1 h with rfl | h
        · exact .inr (by simp)
        · exact (ih h).imp_right (List.mem_cons_of_mem _)

theorem Ascending.insert [KeyOrder α] [DecidableLT α] [DecidableEq α] (k : α) (v : β)
    {es : List (α × β)} (h : Ascending es) : Ascending (Entries.insert k v es) := by
  induction es with
  | nil => exact List.pairwise_singleton _ _
  | cons e rest ih =>
    have hrest : ∀ {d}, d ∈ rest → e.1 < d.1 := List.rel_of_pairwise_cons h
    unfold Entries.insert
    split
    · next hlt =>
      refine List.Pairwise.cons (fun d hd ↦ ?_) h
      rcases List.mem_cons.1 hd with rfl | hd
      · exact hlt
      · exact KeyOrder.trans hlt (hrest hd)
    · next hlt =>
      split
      · next heq =>
        subst heq
        exact List.Pairwise.cons (fun d hd ↦ hrest hd) h.of_cons
      · next hne =>
        refine List.Pairwise.cons (fun d hd ↦ ?_) (ih h.of_cons)
        rcases fst_mem_insert hd with hd | hd
        · rw [hd]; exact KeyOrder.connected hlt hne
        · exact hrest hd

/-- In an ascending list the entry that is there stands where the order puts it. -/
theorem Ascending.set_eq_insert [KeyOrder α] [DecidableLT α] [DecidableEq α] (k : α) (v : β)
    {es : List (α × β)} (h : Ascending es) : set k v es = Entries.insert k v es := by
  rw [set]
  split
  · next hfound =>
    induction es with
    | nil => simp at hfound
    | cons e rest ih =>
      rw [find?_cons] at hfound
      rw [replace, Entries.insert]
      by_cases he : e.1 = k
      · rw [if_pos he, if_neg (he ▸ KeyOrder.irrefl _), if_pos he.symm]
      · rw [if_neg he] at hfound
        -- a key that is found further on is no smaller than the keys in front of it
        obtain ⟨u, hu⟩ := Option.isSome_iff_exists.mp hfound
        have hlt : e.1 < k := List.rel_of_pairwise_cons h (mem_of_find? hu)
        rw [if_neg he, if_neg fun hk ↦ KeyOrder.irrefl _ (KeyOrder.trans hlt hk),
          if_neg (Ne.symm he), ih h.of_cons hfound]
  · rfl

theorem Ascending.erase [DecidableEq α] (k : α) {es : List (α × β)} (h : Ascending es) :
    Ascending (Entries.erase k es) := List.Pairwise.sublist (erase_sublist k es) h

theorem Ascending.find?_eq_some [KeyOrder α] [DecidableEq α] {k : α} {v : β} {es : List (α × β)}
    (h : Ascending es) (hm : (k, v) ∈ es) : find? k es = some v := by
  induction es with
  | nil => simp at hm
  | cons e rest ih =>
    rw [find?_cons]
    rcases List.mem_cons.1 hm with rfl | hm
    · simp
    · have hlt := List.rel_of_pairwise_cons h hm
      rw [if_neg fun (he : e.1 = k) ↦ KeyOrder.irrefl k (by rw [he] at hlt; exact hlt)]
      exact ih h.of_cons hm

theorem eq_of_find?_eq [KeyOrder α] [DecidableEq α] {as bs : List (α × β)} (ha : Ascending as)
    (hb : Ascending bs) (h : ∀ k, find? k as = find? k bs) : as = bs := by
  induction as generalizing bs with
  | nil =>
    cases bs with
    | nil => rfl
    | cons b bs => have := h b.1; simp [find?_cons] at this
  | cons a as ih =>
    cases bs with
    | nil => have := h a.1; simp [find?_cons] at this
    | cons b bs =>
      -- of two first keys that differ neither can be found behind the other
      have hmem : ∀ {c d : α × β} {cs ds : List (α × β)}, Ascending (d :: ds) →
          find? c.1 (c :: cs) = find? c.1 (d :: ds) → c = d ∨ d.1 < c.1 := by
        intro c d cs ds hd heq
        rw [find?_cons, if_pos rfl] at heq
        rcases List.mem_cons.1 (mem_of_find? heq.symm) with h | h
        · exact .inl h
        · exact .inr (List.rel_of_pairwise_cons hd h)
      have hab : a = b := by
        rcases hmem hb (h a.1) with h1 | h1
        · exact h1
        · rcases hmem ha (h b.1).symm with h2 | h2
          · exact h2.symm
          · exact absurd (KeyOrder.trans h1 h2) (KeyOrder.irrefl _)
      subst hab
      refine congrArg (a :: ·) (ih ha.of_cons hb.of_cons fun k ↦ ?_)
      have hk := h k
      rw [find?_cons, find?_cons] at hk
      split at hk
      · next hak =>
        subst hak
        have hnone : ∀ cs : List (α × β), Ascending (a :: cs) → find? a.1 cs = none := by
          intro cs hcs
          refine find?_eq_none fun e he heq ↦ ?_
          have hlt := List.rel_of_pairwise_cons hcs he
          rw [heq] at hlt
          exact KeyOrder.irrefl _ hlt
        rw [hnone as ha, hnone bs hb]
      · exact hk

end Ascending

end Entries

end ReactiveVars
