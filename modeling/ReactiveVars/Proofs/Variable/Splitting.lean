import Mathlib.Data.Finset.Max
import Mathlib.Data.String.Basic
import ReactiveVars.Proofs.Delivery.TierQueues
import ReactiveVars.Proofs.Variable.Settings
import ReactiveVars.Proofs.Variable.Stores

/-!
# Updates in pieces

In a batch an update is split by tiers, and its pieces are applied one after another. The keys of a
piece have lost their suffix, and applying the piece takes a suffix off again. That makes no
difference to a key whose name is plain. A key with two suffixes loses both, where the update as a
whole keeps the first of them in the name of the property.

## Main statement

* `Store.takeAll_ordered_update`: what the pieces of an update do to a store, for which properties
  it is what the update does, and for which updates it always is.
-/

namespace ReactiveVars

/-! ## Taking updates -/

/-- Applies a message if it is an update. -/
def Store.take (s : Store) : Message → Except SyncError Store
  | .update id value ps => s.update id value ps
  | _ => .ok s

/-- Applies the updates among messages one after another. -/
def Store.takeAll (s : Store) (ms : List Message) : Except SyncError Store := ms.foldlM Store.take s

/-- What an update makes of its variable. -/
def Variable.take (v : Variable) : Message → Variable
  | .update _ value ps => v.update value ps
  | _ => v

@[simp] theorem Variable.id_take (v : Variable) (m : Message) : (v.take m).id = v.id := by
  cases m <;> rfl

namespace Store

variable {s : Store} {id : VarId} {ms : List Message}

theorem take_of_contains (h : s.contains id = true) (value : Option Json)
    (ps : Properties) :
    s.take (.update id value ps) = .ok (s.modify id fun v ↦ v.take (.update id value ps)) := by
  rw [take, update, if_pos h]
  rfl

theorem takeAll_of_contains (h : s.contains id = true)
    (hms : ∀ m ∈ ms, ∃ value ps, m = .update id value ps) :
    s.takeAll ms = .ok (s.modify id fun v ↦ ms.foldl Variable.take v) := by
  induction ms generalizing s with
  | nil => exact congrArg Except.ok (s.modify_self id).symm
  | cons m ms ih =>
    rw [List.forall_mem_cons] at hms
    obtain ⟨⟨value, ps, rfl⟩, hms⟩ := hms
    have hid (v : Variable) : (v.take (.update id value ps)).id = v.id := v.id_take _
    rw [takeAll, List.foldlM_cons, take_of_contains h]
    show (s.modify id _).takeAll ms = _
    rw [ih ((contains_modify s id hid id).trans h) hms, modify_modify s id hid]
    rfl

theorem takeAll_of_not_contains (h : s.contains id = false) (hne : ms ≠ [])
    (hms : ∀ m ∈ ms, ∃ value ps, m = .update id value ps) :
    s.takeAll ms = .error (.unknownVariable id) := by
  cases ms with
  | nil => exact absurd rfl hne
  | cons m ms =>
    obtain ⟨value, ps, rfl⟩ := hms m List.mem_cons_self
    rw [takeAll, List.foldlM_cons, take, update, if_neg (by simp [h])]
    rfl

end Store

/-! ## What the pieces set

A piece has keys without their suffixes and is itself taken apart by suffixes. `applyPieces` is this
on properties alone, without any store. -/

namespace Properties

variable {ps : Properties} {name : String}

/-- Sets properties as their three pieces do. -/
def applyPieces (ps old : Properties) : Properties :=
  Tier.all.foldl (fun old tier ↦ (ps.ofTier tier).apply old) old

theorem get?_applyPieces (ps old : Properties) (name : String) : (ps.applyPieces old).get? name
    = (((ps.ofTier .low).textFor? name).or (((ps.ofTier .medium).textFor? name).or
        ((ps.ofTier .high).textFor? name))).elim (old.get? name) stored? := by
  rw [elim_or_stored?, elim_or_stored?, ← get?_apply, ← get?_apply, ← get?_apply]
  rfl

private theorem names_ofTier_iff {tier : Tier} : (ps.ofTier tier).Names name ↔
    ∃ key ∈ ps.keys, (splitTier key).2 = tier ∧ (splitTier (splitTier key).1).1 = name := by
  simp only [Names, mem_keys_ofTier_iff]
  constructor
  · rintro ⟨_, ⟨key, hkey, hsplit⟩, hname⟩
    exact ⟨key, hkey, by rw [hsplit], by rw [hsplit]; exact hname⟩
  · rintro ⟨key, hkey, htier, hname⟩
    exact ⟨_, ⟨key, hkey, Prod.ext rfl htier⟩, hname⟩

private theorem textFor?_ofTier (h : ∀ key ∈ ps.keys, (splitTier key).1 = name ∨
    (splitTier (splitTier key).1).1 = name → IsPlainKey (splitTier key).1) (tier : Tier) :
    (ps.ofTier tier).textFor? name = (ps.ofTier tier).get? name := by
  have hkey {name' : String} (hsome : (ps.ofTier tier).get? name' ≠ none)
      (hname : name' = name ∨ (splitTier name').1 = name) : IsPlainKey name' := by
    obtain ⟨key, hkey, hsplit⟩ := mem_keys_ofTier_iff.mp
      (KeyMap.mem_keys_iff.mpr (Option.isSome_iff_ne_none.mpr hsome))
    have hplain := h key hkey
    rw [hsplit] at hplain
    exact hplain hname
  cases hfound : (ps.ofTier tier).textFor? name with
  | none =>
    by_contra hne
    have hplain : IsPlainKey name := hkey (Ne.symm hne) (.inl rfl)
    exact hne (List.findSome?_eq_none_iff.mp hfound name (mem_spellings_iff.mpr hplain)).symm
  | some text =>
    obtain ⟨name', hmem, hget⟩ := List.exists_of_findSome?_eq_some hfound
    have hbase : (splitTier name').1 = name := mem_spellings_iff.mp hmem
    have hplain : IsPlainKey name' := hkey (by rw [hget]; simp) (.inr hbase)
    rw [← hbase, hplain, hget]

/-- **The pieces set a property as the whole does** unless a key with two suffixes could be meant,
now or when one of them is off. -/
theorem get?_applyPieces_eq (h : ∀ key ∈ ps.keys, (splitTier key).1 = name ∨
    (splitTier (splitTier key).1).1 = name → IsPlainKey (splitTier key).1) (old : Properties) :
    (ps.applyPieces old).get? name = (ps.apply old).get? name := by
  rw [get?_applyPieces, get?_apply, textFor?_eq ps, textFor?_ofTier h, textFor?_ofTier h,
    textFor?_ofTier h]

/-! ## Which names are set

The exact condition asks for more than one name at a time: if splitting makes no difference whatever
was stored, then the two sides set the same names, and from that no key can have two suffixes. -/

theorem exists_forall_elim_iff {text : Option String} {name : String} :
    (∃ found, ∀ old : Properties, text.elim (old.get? name) stored? = found) ↔ text ≠ none := by
  constructor
  · rintro ⟨found, h⟩ rfl
    have hempty := h .empty
    have hset := h (KeyMap.empty.insert name "")
    rw [Option.elim_none, KeyMap.get?_insert, if_pos rfl, ← hempty] at hset
    exact absurd hset (by simp)
  · intro h
    obtain ⟨found, rfl⟩ := Option.ne_none_iff_exists'.mp h
    exact ⟨stored? found, fun old ↦ rfl⟩

/-- A name is set by the whole exactly if what is stored for it does not depend on what was. -/
private theorem names_iff_forall_get?_apply :
    ps.Names name ↔ ∃ found, ∀ old, (ps.apply old).get? name = found := by
  simp only [get?_apply, exists_forall_elim_iff, Ne, textFor?_eq_none_iff, not_not]

theorem names_pieces_iff_forall_get?_applyPieces :
    (∃ tier, (ps.ofTier tier).Names name) ↔
      ∃ found, ∀ old, (ps.applyPieces old).get? name = found := by
  simp only [get?_applyPieces, exists_forall_elim_iff, Ne, Option.or_eq_none_iff,
    textFor?_eq_none_iff, not_and_or, not_not]
  constructor
  · rintro ⟨tier, h⟩
    cases tier with
    | high => exact .inr (.inr h)
    | medium => exact .inr (.inl h)
    | low => exact .inl h
  · rintro (h | h | h) <;> exact ⟨_, h⟩

/-- If every name that is left of a key is left of one when two suffixes are taken off, no key has
two. The last name in order with a suffix would have to be left of a later one. -/
theorem isPlainKey_of_forall_exists {keys : List String} (h : ∀ key ∈ keys, ∃ key' ∈ keys,
    (splitTier (splitTier key').1).1 = (splitTier key).1) :
    ∀ key ∈ keys, IsPlainKey (splitTier key).1 := by
  by_contra hnot
  push Not at hnot
  obtain ⟨key, hkey, hsuffixed⟩ := hnot
  obtain ⟨last, hlast, hmax⟩ := (keys.toFinset.filter fun key ↦ ¬ IsPlainKey (splitTier key).1)
    |>.exists_max_image (fun key ↦ (splitTier key).1) ⟨key, by simp [hkey, hsuffixed]⟩
  simp only [Finset.mem_filter, List.mem_toFinset] at hlast hmax
  obtain ⟨key', hkey', hbase⟩ := h last hlast.1
  have hsuffixed' : ¬ IsPlainKey (splitTier key').1 := fun hplain ↦
    hlast.2 (by rw [← hbase, hplain]; exact hplain)
  obtain ⟨tier, name, hname, hsplit⟩ | ⟨-, hsplit⟩ := splitTier_cases (splitTier key').1
  · refine absurd (hmax key' ⟨hkey', hsuffixed'⟩) (not_le.mpr ?_)
    rw [← hbase, hsplit, hname]
    exact tier.lt_key name
  · exact hsuffixed' (by rw [IsPlainKey, hsplit])

/-- **The pieces of properties set what the whole does, whatever was stored, exactly if no key has
two suffixes.** -/
theorem applyPieces_eq_apply_iff :
    (∀ old, ps.applyPieces old = ps.apply old) ↔ ∀ key ∈ ps.keys, IsPlainKey (splitTier key).1 := by
  constructor
  · intro h
    refine isPlainKey_of_forall_exists fun key hkey ↦ ?_
    have hnames : ps.Names (splitTier key).1 := ⟨key, hkey, rfl⟩
    rw [names_iff_forall_get?_apply] at hnames
    simp only [← h, ← names_pieces_iff_forall_get?_applyPieces, names_ofTier_iff] at hnames
    obtain ⟨-, key', hkey', -, hbase⟩ := hnames
    exact ⟨key', hkey', hbase⟩
  · exact fun h old ↦ KeyMap.ext_get? fun name ↦
      get?_applyPieces_eq (fun key hkey _ ↦ h key hkey) old

end Properties

/-! ## The pieces of an update

What is known of properties is brought back to stores. A tier for which the update has nothing gets
no piece, and there is nothing in it to be set. -/

variable {id : VarId} {value : Option Json} {ps : Properties}

private theorem Properties.apply_of_isEmpty (h : ps.isEmpty = true) (old : Properties) :
    ps.apply old = old := by
  rw [KeyMap.isEmpty, List.isEmpty_iff] at h
  simp [apply, applyTier, h]

namespace Message

private theorem foldl_take_updatePiece? (id : VarId) (v : Variable) (tier : Tier) :
    ((updatePiece? id value ps tier).toList.map Prod.snd).foldl Variable.take v
      = v.update (if tier = .medium then value else none) (ps.ofTier tier) := by
  rcases hpiece : updatePiece? id value ps tier with _ | p
  · obtain ⟨hvalue, hempty⟩ := updatePiece?_eq_none_iff.mp hpiece
    have hcarried : (if tier = .medium then value else none) = none := by
      split
      · next hmedium => exact hvalue hmedium
      · rfl
    rw [hcarried, Variable.update, Variable.applyProperties, Properties.apply_of_isEmpty hempty]
    rfl
  · rw [updatePiece?_eq_some hpiece]
    rfl

theorem foldl_take_inTier_pieces (v : Variable) (tier : Tier) :
    (Batch.inTier (update id value ps).pieces tier).foldl Variable.take v
      = v.update (if tier = .medium then value else none) (ps.ofTier tier) := by
  rw [← foldl_take_updatePiece? id, pieces]
  split
  · next hnone =>
    rw [List.filterMap_eq_nil_iff.mp hnone tier tier.mem_all, Batch.inTier_singleton]
    split <;> rfl
  · rw [Batch.inTier_filterMap fun tier p h ↦ by rw [updatePiece?_eq_some h]]

end Message

namespace Batch

variable {userEvent : Bool}

private theorem ordered_update_ne_nil : ordered ⟨userEvent, [.update id value ps]⟩ ≠ [] := by
  obtain ⟨p, hp⟩ := List.exists_mem_of_ne_nil _ (Message.pieces_ne_nil (.update id value ps))
  have hmem : p.2 ∈ inTier (Message.update id value ps).pieces p.1 :=
    List.mem_map.mpr ⟨p, List.mem_filter.mpr ⟨hp, by simp⟩, rfl⟩
  refine List.ne_nil_of_mem (a := p.2) (List.mem_flatMap.mpr ⟨p.1, p.1.mem_all, ?_⟩)
  simpa using hmem

private theorem exists_of_mem_ordered_update {m : Message}
    (h : m ∈ ordered ⟨userEvent, [.update id value ps]⟩) :
    ∃ value ps, m = .update id value ps := by
  obtain ⟨tier, -, hm⟩ := List.mem_flatMap.mp h
  rw [List.flatMap_singleton] at hm
  obtain ⟨part, hpart⟩ | ⟨hnil, -⟩ := Message.inTier_pieces_update id value ps tier
  · rw [hpart, List.mem_singleton] at hm
    exact ⟨_, _, hm⟩
  · rw [hnil] at hm
    simp at hm

/-- The pieces of an update set its value and what the pieces of its properties set. -/
theorem foldl_take_ordered_update (v : Variable) :
    (ordered ⟨userEvent, [.update id value ps]⟩).foldl Variable.take v
      = { v.update value ps with properties := ps.applyPieces v.properties } := by
  rw [ordered, List.flatMap_singleton, List.foldl_flatMap]
  simp only [Message.foldl_take_inTier_pieces]
  rfl

end Batch

namespace Store

variable {userEvent : Bool}

theorem takeAll_ordered (s : Store) :
    s.takeAll (Batch.ordered ⟨userEvent, [.update id value ps]⟩) =
      if s.contains id then .ok (s.modify id fun v ↦
        { v.update value ps with properties := ps.applyPieces v.properties })
      else .error (.unknownVariable id) := by
  have hupdates : ∀ m ∈ Batch.ordered ⟨userEvent, [.update id value ps]⟩,
      ∃ value ps, m = .update id value ps := fun m hm ↦ Batch.exists_of_mem_ordered_update hm
  split
  · next hid =>
    rw [takeAll_of_contains hid hupdates]
    simp only [Batch.foldl_take_ordered_update]
  · next hid =>
    exact takeAll_of_not_contains (by simpa using hid) Batch.ordered_update_ne_nil hupdates

/-- A store with one variable. -/
def single (v : Variable) : Store := ⟨[v], .backend⟩

theorem takeAll_ordered_eq_update_iff :
    (∀ s : Store, s.takeAll (Batch.ordered ⟨userEvent, [.update id value ps]⟩)
      = s.update id value ps) ↔ ∀ old, ps.applyPieces old = ps.apply old := by
  simp only [takeAll_ordered, update]
  constructor
  · intro h old
    have hsingle := h (single ⟨id, noParent, .null, old, false, false⟩)
    have hid : (single ⟨id, noParent, .null, old, false, false⟩).contains id = true := by
      simp [contains, get?, single]
    rw [if_pos hid, if_pos hid, Except.ok.injEq] at hsingle
    simpa [modify, single, Variable.update, Variable.applyProperties] using hsingle
  · intro h s
    simp only [h]
    rfl

end Store

/-- **What splitting an update comes to.** The pieces of an update, applied one after another, set
the value as the update does, and its properties tier by tier. A property is set alike unless a key
with two suffixes could be meant, now or when one of them is off. That the pieces always do what the
update does holds for those updates in which no key has two suffixes, and for no others. -/
theorem Store.takeAll_ordered_update (userEvent : Bool) (id : VarId) (value : Option Json)
    (ps : Properties) :
    (∀ s : Store, s.takeAll (Batch.ordered ⟨userEvent, [.update id value ps]⟩) =
      if s.contains id then .ok (s.modify id fun v ↦
        { v.update value ps with properties := ps.applyPieces v.properties })
      else .error (.unknownVariable id)) ∧
    (∀ name, (∀ key ∈ ps.keys, (splitTier key).1 = name ∨ (splitTier (splitTier key).1).1 = name →
        IsPlainKey (splitTier key).1) →
      ∀ old, (ps.applyPieces old).get? name = (ps.apply old).get? name) ∧
    ((∀ s : Store, s.takeAll (Batch.ordered ⟨userEvent, [.update id value ps]⟩)
        = s.update id value ps) ↔
      ∀ key ∈ ps.keys, IsPlainKey (splitTier key).1) :=
  ⟨takeAll_ordered, fun _ h old ↦ Properties.get?_applyPieces_eq h old,
    takeAll_ordered_eq_update_iff.trans Properties.applyPieces_eq_apply_iff⟩

/-- A key with two suffixes names the property `label:low`, and `label` when it is split first. -/
theorem takeAll_ordered_ne_update :
    Store.takeAll (.single (.new 2 noParent))
        (Batch.ordered ⟨false, [.update 2 none (.ofList [("label:low:high", "x")])]⟩)
      ≠ Store.update (.single (.new 2 noParent)) 2 none (.ofList [("label:low:high", "x")]) := by
  intro h
  have hlabel := congrArg (fun s ↦ s.toOption.bind fun s ↦ (s.get? 2).bind fun v ↦
    v.properties.get? "label") h
  revert hlabel
  decide

end ReactiveVars
