import ReactiveVars.Proofs.Frontend.Histories
import ReactiveVars.Proofs.Json.Sameness

/-!
# Values written one after the other

The value that a frontend has for a bound variable serves twice: a value is compared with it before
it is sent, and replaces it when it is sent. So through a binding that suppresses duplicates every
value is in effect compared with the one written before, although that one may not have been sent
itself: then it was the same as what the frontend has, and being the same is an equivalence.

## Main statement

* `writeAll_exact`: which of several values are sent, and what that leaves behind.
-/

namespace ReactiveVars

/-! ## What is to be sent

`differing` compares every value with the one written before it. The frontend compares with what it
has, which is the last value that was sent. The two agree since a value that was not sent is the
same as the last one that was. -/

/-- The calls whose value differs from the one before. -/
def differing (last : Json) (calls : List (Nat × Json)) : List (Nat × Json) :=
  (((last :: calls.map Prod.snd).zip calls).filter fun p ↦ p.1 != p.2.2).map Prod.snd

namespace Access

variable {a : Access} {cached last v : Json}

/-- Whether a value is sent if another one was written before. -/
def sends (a : Access) (last v : Json) : Bool :=
  match a with
  | read => false
  | readWrite => last != v
  | write | action => true

/-- The calls that send, among some at given times, if a value was written before. -/
def sent (a : Access) (last : Json) (calls : List (Nat × Json)) : List (Nat × Json) :=
  match a with
  | read => []
  | readWrite => differing last calls
  | write | action => calls

/-- What each call answers. -/
def answers (a : Access) (last : Json) (calls : List (Nat × Json)) : List Bool :=
  List.zipWith a.sends (last :: calls.map Prod.snd) (calls.map Prod.snd)

private theorem sends_eq (a : Access) (last v : Json) :
    a.sends last v = (a.isWritable && !(a.suppressesDuplicates && last == v)) := by
  cases a <;> rfl

/-- What is sent depends on the value before up to the signs of zeros. -/
private theorem sends_congr (h : a ≠ .read → (cached == last) = true) (v : Json) :
    a.sends cached v = a.sends last v := by
  cases a with
  | readWrite => exact congrArg Bool.not (BEq.congr_left (h (by simp)))
  | _ => rfl

/-- A value that is not sent although values are is the same as the one before. -/
private theorem same_of_not_sends (ha : a ≠ .read) (h : a.sends last v = false) : last == v := by
  cases a with
  | readWrite => rwa [sends, bne, Bool.not_eq_false'] at h
  | read => exact absurd rfl ha
  | _ => exact absurd h (by simp [sends])

theorem sent_nil (a : Access) (last : Json) : a.sent last [] = [] := by
  cases a <;> rfl

theorem sent_cons (a : Access) (last : Json) (call : Nat × Json)
    (calls : List (Nat × Json)) :
    a.sent last (call :: calls) = if a.sends last call.2 then call :: a.sent call.2 calls
      else a.sent call.2 calls := by
  cases a with
  | readWrite =>
    rw [sent, differing, List.map_cons, List.zip_cons_cons, List.filter_cons]
    cases h : last != call.2 <;> simp [sends, h, sent, differing]
  | _ => rfl

theorem answers_cons (a : Access) (last : Json) (call : Nat × Json)
    (calls : List (Nat × Json)) :
    a.answers last (call :: calls) = a.sends last call.2 :: a.answers call.2 calls := rfl

theorem sent_eq_filter (a : Access) (last : Json) (calls : List (Nat × Json)) :
    a.sent last calls = ((calls.zip (a.answers last calls)).filter Prod.snd).map Prod.fst := by
  induction calls generalizing last with
  | nil => rw [sent_nil, List.zip_nil_left, List.filter_nil, List.map_nil]
  | cons call calls ih =>
    rw [sent_cons, ih, answers_cons, List.zip_cons_cons, List.filter_cons]
    cases a.sends last call.2 <;> rfl

/-- What is kept of values that are sent is the same as the last value, whether that is sent or not.
-/
theorem same_getLastD_sent (ha : a ≠ .read) (h : (cached == last) = true)
    (calls : List (Nat × Json)) :
    (((a.sent last calls).map Prod.snd).getLastD cached
      == (calls.map Prod.snd).getLastD last) = true := by
  induction calls generalizing cached last with
  | nil =>
    rw [sent_nil]
    exact h
  | cons call calls ih =>
    rw [sent_cons, List.map_cons, List.getLastD_cons]
    rcases hsends : a.sends last call.2 with _ | _
    · exact ih (BEq.trans h (same_of_not_sends ha hsends))
    · rw [if_pos rfl, List.map_cons, List.getLastD_cons]
      exact ih BEq.rfl

end Access

/-! ## Values that are sent

A value that is sent is set in the copy and reported. Several are set one over the other, and
reported one behind the other. -/

/-- The store with a new value of a variable. -/
def Store.setValue (s : Store) (id : VarId) (v : Json) : Store :=
  s.modify id fun u ↦ { u with value := v }

theorem Store.get?_setValue (s : Store) (id : VarId) (v : Json) (k : VarId) :
    (s.setValue id v).get? k
      = if id = k then (s.get? k).map fun u ↦ { u with value := v } else s.get? k :=
  s.get?_modify id (fun _ ↦ by rfl) k

private theorem Store.foldl_setValue (s : Store) (id : VarId) (calls : List (Nat × Json)) :
    calls.foldl (fun s call ↦ s.setValue id call.2) s
      = s.modify id fun u ↦ { u with value := (calls.map Prod.snd).getLastD u.value } := by
  induction calls generalizing s with
  | nil => exact (s.modify_self id).symm
  | cons call calls ih =>
    rw [List.foldl_cons, ih, setValue, modify_modify _ _ fun _ ↦ by rfl]
    simp only [List.map_cons, List.getLastD_cons]

namespace LocalStore

variable {l : LocalStore} {id : VarId} {u : Variable}

/-- The copy with a new value that is reported. -/
def put (l : LocalStore) (now : Nat) (id : VarId) (v : Json) : LocalStore :=
  ⟨l.store.setValue id v, l.tally, l.outbox.queue now (.ofValue id v)⟩

/-- The copy with new values that are reported in order, each at its time. -/
def putAll (l : LocalStore) (reports : List (Nat × VarId × Json)) : LocalStore :=
  reports.foldl (fun l r ↦ l.put r.1 r.2.1 r.2.2) l

private theorem value?_beq (h : l.get? id = some u) (v : Json) :
    (l.value? id == some v) = (u.value == v) := by
  rw [value?, h]
  rfl

theorem value?_bne (h : l.get? id = some u) (v : Json) :
    (l.value? id != some v) = (u.value != v) :=
  congrArg Bool.not (value?_beq h v)

theorem update_eq_put (h : l.get? id = some u) (hbound : u.unbound = false) (now : Nat) (v : Json) :
    l.update now id (some v) .empty = .ok (l.put now id v) := by
  have hc : l.store.contains id = true := Store.contains_iff.mpr ⟨u, h⟩
  have hunbound : l.isUnbound id = false := by
    rw [isUnbound, h]
    exact hbound
  rw [update, Store.update, if_pos hc, hunbound]
  rfl

/-- The values are set, and the reports wait behind all others of their tier. -/
theorem putAll_eq (l : LocalStore) (reports : List (Nat × VarId × Json)) :
    l.putAll reports = ⟨reports.foldl (fun s r ↦ s.setValue r.2.1 r.2.2) l.store, l.tally,
      { l.outbox with
        waiting := { l.outbox.waiting with
          medium := l.outbox.waiting.medium ++ reports.map fun r ↦ .ofValue r.2.1 r.2.2 }
        deadline := (reports.getLast?.map fun r ↦ r.1 + l.outbox.window).or
          l.outbox.deadline }⟩ := by
  induction reports generalizing l with
  | nil => rw [List.map_nil, List.append_nil, putAll, List.foldl_nil, List.foldl_nil]; rfl
  | cons r reports ih =>
    have hput : l.put r.1 r.2.1 r.2.2 = ⟨l.store.setValue r.2.1 r.2.2, l.tally,
        { l.outbox with
          waiting := { l.outbox.waiting with
            medium := l.outbox.waiting.medium ++ [.ofValue r.2.1 r.2.2] }
          deadline := some (r.1 + l.outbox.window) }⟩ := rfl
    -- the last report has put the deadline off
    have hdeadline (d : Option Nat) : ((r :: reports).getLast?.map fun r ↦
        r.1 + l.outbox.window).or d = (reports.getLast?.map fun r ↦
          r.1 + l.outbox.window).or (some (r.1 + l.outbox.window)) := by
      rw [List.getLast?_cons]
      cases reports.getLast? <;> rfl
    rw [putAll, List.foldl_cons, ← putAll, ih, hput]
    simp only [hdeadline, List.map_cons, List.append_assoc, List.singleton_append,
      List.foldl_cons]

theorem putAll_map (l : LocalStore) (id : VarId) (calls : List (Nat × Json)) :
    l.putAll (calls.map fun call ↦ (call.1, id, call.2)) = ⟨
      l.store.modify id fun u ↦ { u with value := (calls.map Prod.snd).getLastD u.value }, l.tally,
      { l.outbox with
        waiting := { l.outbox.waiting with
          medium := l.outbox.waiting.medium ++ calls.map fun call ↦ .ofValue id call.2 }
        deadline := (calls.getLast?.map fun call ↦ call.1 + l.outbox.window).or
          l.outbox.deadline }⟩ := by
  rw [putAll_eq, ← Store.foldl_setValue, List.foldl_map, List.map_map, List.getLast?_map,
    Option.map_map]
  rfl

end LocalStore

/-! ## Values of an element -/

namespace BindingEngine

open LocalStore

variable {g : BindingEngine} {id : ElementId} {c : Binding} {u : Variable} {last : Json}

/-- A value is sent through a binding whose variable is there and bound, and then it is what the
frontend has. -/
theorem send_eq (h : g.store.get? c.id = some u) (hbound : u.unbound = false) (now : Nat)
    (v : Json) : g.send now c v = if c.access.sends u.value v
      then (.ok true, { g with store := g.store.put now c.id v }) else (.ok false, g) := by
  rw [send, value?_beq h, update_eq_put h hbound, Access.sends_eq]
  cases c.access.isWritable <;> cases c.access.suppressesDuplicates && u.value == v <;> rfl

/-- Writes values of an element one after the other; returns what each call answers. -/
def writeAll (g : BindingEngine) (id : ElementId) :
    List (Nat × Json) → List (Except SyncError Bool) × BindingEngine
  | [] => ([], g)
  | (now, v) :: calls =>
    let (answer, g') := g.writeValue now id v
    let (answers, g'') := g'.writeAll id calls
    (answer :: answers, g'')

/-- Each value is compared with the one before in effect. -/
theorem writeAll_eq (hbinding : (g.elements.get? id).bind BoundElement.valueBinding? = some c)
    (h : g.store.get? c.id = some u) (hbound : u.unbound = false)
    (hlast : c.access ≠ .read → (u.value == last) = true) (calls : List (Nat × Json)) :
    g.writeAll id calls = ((c.access.answers last calls).map .ok,
      { g with store := g.store.putAll <|
        (c.access.sent last calls).map fun call ↦ (call.1, c.id, call.2) }) := by
  induction calls generalizing g u last with
  | nil =>
    rw [Access.sent_nil]
    rfl
  | cons call calls ih =>
    obtain ⟨now, v⟩ := call
    have hwrite : g.writeValue now id v = if c.access.sends last v
        then (.ok true, { g with store := g.store.put now c.id v }) else (.ok false, g) := by
      rw [writeValue, hbinding, ← Access.sends_congr hlast, ← send_eq h hbound]
    rw [writeAll, hwrite, Access.answers_cons, Access.sent_cons]
    rcases hsends : c.access.sends last v with _ | _
    · -- the value that is kept is the same as the one that is not sent
      have hsame (ha : c.access ≠ .read) : (u.value == v) = true :=
        BEq.trans (hlast ha) (Access.same_of_not_sends ha hsends)
      simp only [Bool.false_eq_true, if_false, ih hbinding h hbound hsame, List.map_cons]
    · have hput : (g.store.put now c.id v).get? c.id = some { u with value := v } := by
        rw [LocalStore.get?] at h
        rw [LocalStore.get?, put, Store.get?_setValue, if_pos rfl, h, Option.map_some]
      have hsame : c.access ≠ .read → (v == v) = true := fun _ ↦ BEq.rfl
      have hrest := ih (g := { g with store := g.store.put now c.id v }) hbinding hput hbound hsame
      simp only [if_true, hrest, List.map_cons]
      rfl

/-- **Values written one after the other.** Through a binding that reads and writes, those are sent
that differ from the one before; through one that writes or acts, all; through one that reads, none.
Each call answers whether its value is sent. After any calls, what the frontend has is the same as
the last value, unless the binding reads alone, and the only other effect is that the reports wait
behind the others of their tier. -/
theorem writeAll_exact (hbinding : (g.elements.get? id).bind BoundElement.valueBinding? = some c)
    (h : g.store.get? c.id = some u) (hbound : u.unbound = false) (calls : List (Nat × Json)) :
    (g.writeAll id calls).1 = (c.access.answers u.value calls).map .ok ∧
    c.access.sent u.value calls
      = ((calls.zip (c.access.answers u.value calls)).filter Prod.snd).map Prod.fst ∧
    (g.writeAll id calls).2 = { g with store := ⟨
      g.store.store.modify c.id fun w ↦
        { w with value := ((c.access.sent u.value calls).map Prod.snd).getLastD w.value },
      g.store.tally,
      { g.store.outbox with
        waiting := { g.store.outbox.waiting with
          medium := g.store.outbox.waiting.medium
            ++ (c.access.sent u.value calls).map fun call ↦ .ofValue c.id call.2 }
        deadline := ((c.access.sent u.value calls).getLast?.map
          fun call ↦ call.1 + g.store.outbox.window).or g.store.outbox.deadline }⟩ } ∧
    ∃ cached, (g.writeAll id calls).2.store.value? c.id = some cached ∧
      if c.access = .read then cached = u.value
      else (cached == (calls.map Prod.snd).getLastD u.value) = true := by
  have hwrites := writeAll_eq hbinding h hbound (fun _ ↦ BEq.rfl) calls
  rw [LocalStore.get?] at h
  rw [hwrites, putAll_map]
  refine ⟨rfl, c.access.sent_eq_filter u.value calls, rfl,
    ((c.access.sent u.value calls).map Prod.snd).getLastD u.value, ?_, ?_⟩
  · rw [value?, LocalStore.get?, Store.get?_modify _ _ fun _ ↦ by rfl, if_pos rfl, h]
    rfl
  · split
    · next hread =>
      rw [hread]
      rfl
    · next hread => exact Access.same_getLastD_sent hread BEq.rfl calls

/-- An input element that is bound to read and write. -/
def typed : BindingEngine :=
  (newOver 10 0 []).run [.bind 0 rootId ⟨"input", [("ui-value", "name")], .null, []⟩]

/-- A null, the two zeros and the integer zero. -/
def zeros : List (Nat × Json) :=
  [(1, .null), (2, .double (.zero false)), (3, .double (.zero true)), (4, .int 0)]

/-- The null is there already, and the second zero is the same as the first. -/
theorem writeAll_exact_zeros :
    (typed.writeAll 1 zeros).1 = [.ok false, .ok true, .ok false, .ok true] ∧
    (typed.writeAll 1 zeros).2.store.outbox.waiting.medium
      = [.watch rootId, .ofValue 2 (.double (.zero false)), .ofValue 2 (.int 0)] := by
  have hbinding : (typed.elements.get? 1).bind BoundElement.valueBinding?
      = some ⟨.value, 2, .readWrite⟩ := by decide +kernel
  have hvalue : typed.store.get? 2 = some
      ⟨2, rootId, .null, .ofList [("access", "rw"), ("path", "name")], false, false⟩ := rfl
  have hwaiting : typed.store.outbox.waiting.medium = [.watch rootId] := rfl
  obtain ⟨hanswers, -, hengine, -⟩ := writeAll_exact hbinding hvalue rfl zeros
  refine ⟨hanswers.trans rfl, ?_⟩
  rw [hengine]
  simp only [hwaiting]
  rfl

end BindingEngine

end ReactiveVars
