import Mathlib.Data.List.Perm.Basic
import ReactiveVars.Proofs.Delivery.TierQueues
import ReactiveVars.Proofs.Variable.Settings

/-!
# The order of the receiver

The receiver of a batch takes the messages apart and sorts the pieces by tier. The sort is stable,
so the pieces of a tier stay in the order of their messages.

Nothing is lost or made up on the way. An update is the only message that is taken apart: its value
goes with one piece, and its properties go with the tiers that their keys name. `SplitInto` says so
from the side of the update, and asks neither which keys the properties are folded from nor in which
order. Of the keys that name one property in the medium tier the one with the suffix counts.

## Main statements

* `Batch.ordered_eq_mergeSort`: the receiver sorts by tier, and keeps the order within a tier.
* `Batch.ordered_conserves`: what becomes of each message of a batch.
-/

namespace ReactiveVars

/-! ## Sorting by tier

The receiver lists the pieces of each tier, and the tiers one behind the other. That this is a sort,
and a stable one, is what ties it to the sort of the library. -/

namespace Batch

variable {ps : List (Tier × Message)} {p p' : Tier × Message}

/-- Whether a piece is of no later tier than another one. -/
def notLater (p p' : Tier × Message) : Bool := p.1.rank ≤ p'.1.rank

private theorem notLater_iff : notLater p p' = true ↔ p.1.rank ≤ p'.1.rank := decide_eq_true_iff

private theorem notLater_trans (p p' p'' : Tier × Message) (h : notLater p p' = true)
    (h' : notLater p' p'' = true) : notLater p p'' = true :=
  notLater_iff.mpr (Nat.le_trans (notLater_iff.mp h) (notLater_iff.mp h'))

private theorem notLater_total (p p' : Tier × Message) :
    (notLater p p' || notLater p' p) = true := by
  rw [Bool.or_eq_true, notLater_iff, notLater_iff]
  exact Nat.le_total _ _

/-- What is sorted by tier is its tiers one behind the other. -/
private theorem flatMap_filter_of_sorted (h : ps.Pairwise fun p p' ↦ notLater p p' = true) :
    (Tier.all.flatMap fun t ↦ ps.filter fun p ↦ p.1 = t) = ps := by
  induction ps with
  | nil => rfl
  | cons p ps ih =>
    obtain ⟨tier, m⟩ := p
    obtain ⟨hfirst, hps⟩ := List.pairwise_cons.mp h
    -- no other piece is of a sooner tier than the first
    have hnone {t : Tier} (ht : t.rank < tier.rank) : (ps.filter fun p ↦ p.1 = t) = [] := by
      refine List.filter_eq_nil_iff.mpr fun p hp hat ↦ ?_
      rw [← of_decide_eq_true hat] at ht
      exact absurd (notLater_iff.mp (hfirst p hp)) (Nat.not_le.mpr ht)
    have htail := ih hps
    cases tier with
    | high => simpa [Tier.all] using htail
    | medium =>
      have hhigh := hnone (t := .high) (by decide)
      simpa [Tier.all, hhigh] using htail
    | low =>
      have hhigh := hnone (t := .high) (by decide)
      have hmedium := hnone (t := .medium) (by decide)
      simpa [Tier.all, hhigh, hmedium] using htail

/-- Sorting is stable: the pieces of a tier stay in order. -/
theorem filter_mergeSort (ps : List (Tier × Message)) (t : Tier) :
    ((ps.mergeSort notLater).filter fun p ↦ p.1 = t) = ps.filter fun p ↦ p.1 = t := by
  have hone : (ps.filter fun p ↦ p.1 = t).Pairwise fun p p' ↦ notLater p p' = true := by
    refine List.pairwise_of_forall_mem_list fun p hp p' hp' ↦ notLater_iff.mpr ?_
    have hsame : p.1 = p'.1 := (of_decide_eq_true (List.mem_filter.mp hp).2).trans
      (of_decide_eq_true (List.mem_filter.mp hp').2).symm
    exact Nat.le_of_eq (congrArg Tier.rank hsame)
  have hsub : (ps.filter fun p ↦ p.1 = t).Sublist (ps.mergeSort notLater) :=
    List.sublist_mergeSort notLater_trans notLater_total hone List.filter_sublist
  have hperm := (List.mergeSort_perm ps notLater).filter fun p ↦ p.1 = t
  have hkept := hsub.filter fun p ↦ p.1 = t
  rw [List.filter_filter, List.filter_congr (q := fun p ↦ p.1 = t) (by simp)] at hkept
  exact (hkept.eq_of_length hperm.length_eq.symm).symm

/-- **The order of the receiver.** The pieces are sorted by tier, and those of a tier keep their
order. -/
theorem ordered_eq_mergeSort (b : Batch) :
    b.ordered = ((b.messages.flatMap Message.pieces).mergeSort notLater).map Prod.snd := by
  have hsorted :=
    List.pairwise_mergeSort notLater_trans notLater_total (b.messages.flatMap Message.pieces)
  rw [← flatMap_filter_of_sorted hsorted, List.map_flatMap]
  simp only [filter_mergeSort]
  rfl

theorem ordered_perm (b : Batch) :
    b.ordered.Perm (b.messages.flatMap fun m ↦ m.pieces.map Prod.snd) := by
  rw [ordered_eq_mergeSort, ← List.map_flatMap]
  exact (List.mergeSort_perm _ _).map Prod.snd

theorem ordered_eq_nil_iff {b : Batch} : b.ordered = [] ↔ b.messages = [] := by
  have hpieces : b.ordered = [] ↔ (b.messages.flatMap fun m ↦ m.pieces.map Prod.snd) = [] :=
    ⟨fun h ↦ (h ▸ b.ordered_perm).nil_eq.symm, fun h ↦ (h ▸ b.ordered_perm).eq_nil⟩
  rw [hpieces, List.flatMap_eq_nil_iff]
  refine ⟨fun h ↦ List.eq_nil_iff_forall_not_mem.mpr fun m hm ↦ ?_, fun h ↦ by simp [h]⟩
  exact m.pieces_ne_nil (List.map_eq_nil_iff.mp (h m hm))

/-- A create stays whole. -/
theorem ordered_of_immediate {m : Message} (hm : m.isImmediate = true) (userEvent : Bool) :
    ordered ⟨userEvent, [m]⟩ = [m] := by
  cases m with
  | create parent value ps id noWatch unbound =>
    exact List.perm_singleton.mp (ordered_perm ⟨userEvent, [_]⟩)
  | _ => exact absurd hm (by simp [Message.isImmediate])

end Batch

/-! ## The parts of an update

The properties are folded into three maps, one for each tier, in the order in which the update lists
them. What comes out of the fold depends on the keys alone, and on the order only where two keys
name one property in one tier. -/

namespace Properties

variable {ps : Properties} {tier : Tier} {name text : String}

/-- Whether properties give a text for a name in a tier: under the name with the suffix of the tier
or, in the medium tier, under the name alone if it has no suffix and the key with the suffix is
missing. -/
def Gives (ps : Properties) (tier : Tier) (name text : String) : Prop :=
  ps.get? (tier.key name) = some text ∨
    tier = .medium ∧ IsPlainKey name ∧ ps.get? (tier.key name) = none ∧ ps.get? name = some text

theorem get?_ofTier_eq_some_iff :
    (ps.ofTier tier).get? name = some text ↔ ps.Gives tier name text := by
  rw [get?_ofTier, Option.or_eq_some_iff, Option.ite_none_right_eq_some, Gives]
  refine or_congr_right ⟨?_, ?_⟩
  · rintro ⟨hnone, ⟨hmedium, hplain⟩, htext⟩
    exact ⟨hmedium, hplain, hnone, htext⟩
  · rintro ⟨hmedium, hplain, hnone, htext⟩
    exact ⟨hnone, ⟨hmedium, hplain⟩, htext⟩

theorem forall_isEmpty_ofTier_iff : (∀ tier, (ps.ofTier tier).isEmpty = true) ↔ ps = .empty := by
  constructor
  · intro hempty
    refine KeyMap.ext_get? fun key ↦ ?_
    rw [KeyMap.get?_empty]
    by_contra hsome
    have hkey : key ∈ ps.keys := KeyMap.mem_keys_iff.mpr (Option.isSome_iff_ne_none.mpr hsome)
    have hname : (splitTier key).1 ∈ (ps.ofTier (splitTier key).2).keys :=
      mem_keys_ofTier_iff.mpr ⟨key, hkey, rfl⟩
    have hnone := KeyMap.isEmpty_iff.mp (hempty (splitTier key).2) (splitTier key).1
    rw [KeyMap.mem_keys_iff, hnone] at hname
    exact absurd hname (by simp)
  · rintro rfl tier
    rfl

/-- Whether a tier is the soonest that a key names; without keys it is the medium one. -/
def IsSoonest (ps : Properties) (tier : Tier) : Prop :=
  ps.keys = [] ∧ tier = .medium ∨
    (∃ key ∈ ps.keys, (splitTier key).2 = tier) ∧
      ∀ key ∈ ps.keys, tier.rank ≤ (splitTier key).2.rank

end Properties

namespace Tier

private theorem sooner_eq_or (t t' : Tier) : t.sooner t' = t ∨ t.sooner t' = t' := by
  rw [sooner]
  split
  · exact .inl rfl
  · exact .inr rfl

private theorem rank_sooner (t t' : Tier) : (t.sooner t').rank = min t.rank t'.rank := by
  rw [sooner]
  split <;> omega

/-- The soonest of several tiers is one of them and no later than any. -/
theorem foldl_sooner (ts : List Tier) (t : Tier) :
    ts.foldl sooner t ∈ t :: ts ∧ ∀ t' ∈ t :: ts, (ts.foldl sooner t).rank ≤ t'.rank := by
  induction ts generalizing t with
  | nil => simp
  | cons t' ts ih =>
    obtain ⟨hmem, hle⟩ := ih (t.sooner t')
    rw [List.foldl_cons]
    rw [List.forall_mem_cons, rank_sooner] at hle
    constructor
    · rcases List.mem_cons.mp hmem with hsooner | hlater
      · rw [hsooner]
        rcases t.sooner_eq_or t' with heq | heq <;> simp [heq]
      · exact List.mem_cons_of_mem t (List.mem_cons_of_mem t' hlater)
    · refine List.forall_mem_cons.mpr ⟨?_, List.forall_mem_cons.mpr ⟨?_, hle.2⟩⟩ <;> omega

end Tier

namespace Message

variable {id : VarId} {value : Option Json} {ps : Properties} {m : Message} {p : Tier × Message}

theorem isSoonest_createTier (ps : Properties) : ps.IsSoonest (createTier ps) := by
  rw [createTier]
  split
  · next h => exact .inl ⟨List.map_eq_nil_iff.mp h, rfl⟩
  · next tier tiers h =>
    obtain ⟨hmem, hle⟩ := Tier.foldl_sooner tiers tier
    rw [← h] at hmem hle
    exact .inr ⟨List.mem_map.mp hmem, fun key hkey ↦ hle _ (List.mem_map_of_mem hkey)⟩

/-- What pieces have to hold together to be what an update holds. -/
structure SplitInto (id : VarId) (value : Option Json) (ps : Properties)
    (found : List (Tier × Message)) : Prop where
  /-- Every piece is an update of the same variable. -/
  updates : ∀ p ∈ found, ∃ carried part, p.2 = .update id carried part
  /-- There is one piece of a tier at most. -/
  tiers : (found.map Prod.fst).Sublist Tier.all
  /-- The value is carried by the medium piece alone. -/
  value_iff : ∀ tier v, (∃ part, (tier, .update id (some v) part) ∈ found) ↔
    tier = .medium ∧ value = some v
  /-- The piece of a tier has the texts that are given in this tier. -/
  property_iff : ∀ tier name text,
    (∃ carried part, (tier, .update id carried part) ∈ found ∧ part.get? name = some text) ↔
      ps.Gives tier name text
  /-- A piece is empty only if the update is, and then it is the medium one. -/
  empty_iff : ∀ tier, (tier, .update id none .empty) ∈ found ↔
    tier = .medium ∧ value = none ∧ ps = .empty

/-- Only an empty update has nothing for any tier. -/
private theorem filterMap_updatePiece?_eq_nil_iff :
    Tier.all.filterMap (updatePiece? id value ps) = [] ↔ value = none ∧ ps = .empty := by
  simp only [List.filterMap_eq_nil_iff, Tier.mem_all, forall_const, updatePiece?_eq_none_iff,
    forall_and, forall_eq, Properties.forall_isEmpty_ofTier_iff]

/-- What an update has for a tier, with the tier. -/
def partFor (id : VarId) (value : Option Json) (ps : Properties) (tier : Tier) : Tier × Message :=
  (tier, update id (if tier = .medium then value else none) (ps.ofTier tier))

/-- A piece of an update is what it has for a tier. It is left out if it is empty, unless the whole
update is. -/
theorem mem_pieces_update_iff : p ∈ (update id value ps).pieces ↔ p = partFor id value ps p.1 ∧
    (updatePiece? id value ps p.1 ≠ none ∨ p.1 = .medium ∧ value = none ∧ ps = .empty) := by
  rw [pieces]
  split
  · next hnil =>
    obtain ⟨rfl, rfl⟩ := filterMap_updatePiece?_eq_nil_iff.mp hnil
    have hnone : updatePiece? id none .empty p.1 = none :=
      updatePiece?_eq_none_iff.mpr ⟨fun _ ↦ rfl, rfl⟩
    rw [List.mem_singleton]
    simp only [hnone, ne_eq, not_true_eq_false, false_or, and_true]
    constructor
    · rintro rfl
      exact ⟨rfl, rfl⟩
    · rintro ⟨heq, hmedium⟩
      rw [heq, hmedium]
      rfl
  · next hsome =>
    have hne : ¬ (value = none ∧ ps = .empty) := hsome ∘ filterMap_updatePiece?_eq_nil_iff.mpr
    simp only [hne, and_false, or_false]
    constructor
    · intro hp
      obtain ⟨t, -, ht⟩ := List.mem_filterMap.mp hp
      rw [updatePiece?_eq_some ht]
      exact ⟨rfl, by rw [ht]; simp⟩
    · rintro ⟨heq, hpiece⟩
      obtain ⟨p', hp'⟩ := Option.ne_none_iff_exists'.mp hpiece
      have hp : p = p' := heq.trans (updatePiece?_eq_some hp').symm
      exact List.mem_filterMap.mpr ⟨p.1, p.1.mem_all, by rw [hp', hp]⟩

theorem sublist_tiers_pieces (id : VarId) (value : Option Json) (ps : Properties) :
    ((update id value ps).pieces.map Prod.fst).Sublist Tier.all := by
  have hfound (ts : List Tier) :
      ((ts.filterMap (updatePiece? id value ps)).map Prod.fst).Sublist ts := by
    induction ts with
    | nil => exact List.nil_sublist _
    | cons t ts ih =>
      rw [List.filterMap_cons]
      split
      · exact ih.cons t
      · next p hp =>
        rw [List.map_cons, updatePiece?_eq_some hp]
        exact ih.cons_cons t
  rw [pieces]
  split
  · exact List.singleton_sublist.mpr (Tier.mem_all .medium)
  · exact hfound Tier.all

/-- **The pieces of an update hold what the update holds.** -/
theorem splitInto_pieces (id : VarId) (value : Option Json) (ps : Properties) :
    SplitInto id value ps (update id value ps).pieces := by
  constructor
  case updates =>
    intro p hp
    exact ⟨_, _, congrArg Prod.snd (mem_pieces_update_iff.mp hp).1⟩
  case tiers => exact sublist_tiers_pieces id value ps
  case value_iff =>
    intro tier v
    simp only [mem_pieces_update_iff, partFor, Prod.mk.injEq, true_and, update.injEq]
    constructor
    · rintro ⟨part, ⟨hcarried, -⟩, -⟩
      exact Option.ite_none_right_eq_some.mp hcarried.symm
    · rintro ⟨rfl, rfl⟩
      -- the medium piece is there, since it has the value to carry
      refine ⟨_, ⟨rfl, rfl⟩, .inl fun hnone ↦ ?_⟩
      exact absurd ((updatePiece?_eq_none_iff.mp hnone).1 rfl) (by simp)
  case property_iff =>
    intro tier name text
    rw [← Properties.get?_ofTier_eq_some_iff]
    simp only [mem_pieces_update_iff, partFor, Prod.mk.injEq, true_and, update.injEq]
    constructor
    · rintro ⟨carried, part, ⟨⟨-, rfl⟩, -⟩, htext⟩
      exact htext
    · intro htext
      -- the piece of the tier is there, since it has this property to carry
      refine ⟨if tier = .medium then value else none, ps.ofTier tier,
        ⟨⟨rfl, rfl⟩, .inl fun hnone ↦ ?_⟩, htext⟩
      have hmissing := KeyMap.isEmpty_iff.mp (updatePiece?_eq_none_iff.mp hnone).2 name
      rw [KeyMap.contains, htext] at hmissing
      exact absurd hmissing (by simp)
  case empty_iff =>
    intro tier
    simp only [mem_pieces_update_iff, partFor, Prod.mk.injEq, true_and, update.injEq]
    constructor
    · rintro ⟨⟨hcarried, hpart⟩, hpiece | hempty⟩
      · refine absurd (updatePiece?_eq_none_iff.mpr ⟨fun hmedium ↦ ?_, ?_⟩) hpiece
        · rw [if_pos hmedium] at hcarried
          exact hcarried.symm
        · rw [← hpart]
          rfl
      · exact hempty
    · rintro ⟨rfl, rfl, rfl⟩
      exact ⟨⟨(ite_self none).symm, rfl⟩, .inr ⟨rfl, rfl, rfl⟩⟩

/-! ## Every message of a batch -/

/-- Whether the message is an update. -/
def isUpdate : Message → Bool
  | update .. => true
  | _ => false

/-- What a message has to become so that nothing of it is lost: an update is split by tiers, and any
other message stays whole, a create in the soonest tier that one of its keys names. -/
inductive Becomes : Message → List (Tier × Message) → Prop
  | split {id : VarId} {value : Option Json} {ps : Properties} {found : List (Tier × Message)}
    (h : SplitInto id value ps found) : Becomes (.update id value ps) found
  | create {parent : VarId} {value : Option Json} {ps : Properties} {id : Option VarId}
    {noWatch unbound : Bool} {tier : Tier} (h : ps.IsSoonest tier) :
    Becomes (.create parent value ps id noWatch unbound)
      [(tier, .create parent value ps id noWatch unbound)]
  | whole {m : Message} (hupdate : m.isUpdate = false) (hcreate : m.isImmediate = false) :
    Becomes m [(.medium, m)]

private theorem becomes_pieces (m : Message) : m.Becomes m.pieces := by
  cases m with
  | update id value ps => exact .split (splitInto_pieces id value ps)
  | create parent value ps id noWatch unbound => exact .create (isSoonest_createTier ps)
  | _ => exact .whole rfl rfl

theorem filter_pieces (m : Message) :
    ((m.pieces.map Prod.snd).filter fun m ↦ !m.isUpdate) = [m].filter fun m ↦ !m.isUpdate := by
  cases m with
  | update id value ps =>
    refine List.filter_eq_nil_iff.mpr fun m hm ↦ ?_
    obtain ⟨p, hp, rfl⟩ := List.mem_map.mp hm
    obtain ⟨carried, part, hpart⟩ := (splitInto_pieces id value ps).updates p hp
    rw [hpart]
    simp [isUpdate]
  | _ => rfl

end Message

/-- **Ordering a batch conserves its content.** The order is that of a stable sort by tier, that is
the pieces of the high, the medium and the low tier, each in the order of their messages. The pieces
of an update hold its value once and, tier by tier, the properties whose keys name the tier. Any
other message is there as often as it was, as a whole. -/
theorem Batch.ordered_conserves (b : Batch) :
    b.ordered = ((b.messages.flatMap Message.pieces).mergeSort notLater).map Prod.snd ∧
    b.ordered = Tier.all.flatMap (fun tier ↦ b.messages.flatMap fun m ↦ inTier m.pieces tier) ∧
    (∀ m : Message, m.Becomes m.pieces) ∧
    (b.ordered.filter fun m ↦ !m.isUpdate).Perm (b.messages.filter fun m ↦ !m.isUpdate) := by
  refine ⟨b.ordered_eq_mergeSort, ?_, Message.becomes_pieces, ?_⟩
  · have htier (tier : Tier) : inTier (b.messages.flatMap Message.pieces) tier
        = b.messages.flatMap fun m ↦ inTier m.pieces tier := by
      simp only [inTier, List.filter_flatMap, List.map_flatMap]
    rw [ordered, funext htier]
  · refine (b.ordered_perm.filter _).trans (List.Perm.of_eq ?_)
    rw [List.filter_flatMap]
    simp only [Message.filter_pieces]
    rw [← List.filter_flatMap, List.flatMap_singleton']

/-- The medium piece has the text of `a:med` and, under the name `b:low`, that of `b:low:med`. -/
example : Batch.ordered ⟨false, [.watch 3, .update 2 (some .null)
      (.ofList [("a", "1"), ("a:med", "2"), ("b:low:med", "3"), ("b:low", "4"), ("c:high", "")])]⟩
    = [.update 2 none (.ofList [("c", "")]), .watch 3,
      .update 2 (some .null) (.ofList [("a", "2"), ("b:low", "3")]),
      .update 2 none (.ofList [("b", "4")])] := by
  rfl

end ReactiveVars
