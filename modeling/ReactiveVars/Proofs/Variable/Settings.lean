import ReactiveVars.Proofs.Order.Maps
import ReactiveVars.Proofs.Wire.Suffixes
import ReactiveVars.Variable.Basic

/-!
# What setting properties comes to

Properties are set tier by tier, and within a tier key by key, so of the keys that name one property
the last one counts. For one name these are four keys at most, and which of them is the last does
not depend on what else is set: `spellings` lists them, the last one first. A property whose text is
empty is removed.

## Main statements

* `Properties.get?_ofTier`: what the part of one tier has for a name.
* `Properties.get?_apply`: what is stored for a name.
-/

namespace ReactiveVars

/-! ## The keys of a name

Keys are sorted, and a suffix is behind the name alone, which is what makes the last of four keys
known beforehand. -/

/-- The keys that name a property, the one that counts before all others first. -/
def spellings (name : String) : List String :=
  [Tier.low.key name, Tier.medium.key name] ++ (if IsPlainKey name then [name] else [])
    ++ [Tier.high.key name]

theorem mem_spellings_iff {key name : String} :
    key ∈ spellings name ↔ (splitTier key).1 = name := by
  have hname : (splitTier key).1 = name ↔ ∃ tier, splitTier key = (name, tier) :=
    ⟨fun h ↦ ⟨_, Prod.ext h rfl⟩, fun ⟨_, h⟩ ↦ by rw [h]⟩
  rw [hname, spellings]
  simp only [splitTier_eq_iff, List.mem_append, List.mem_cons, List.not_mem_nil, or_false,
    List.mem_ite_nil_right]
  constructor
  · rintro (((hlow | hmedium) | ⟨hplain, hself⟩) | hhigh)
    · exact ⟨.low, .inl hlow⟩
    · exact ⟨.medium, .inl hmedium⟩
    · exact ⟨.medium, .inr ⟨hself, rfl, hplain⟩⟩
    · exact ⟨.high, .inl hhigh⟩
  · rintro ⟨tier, hkey | ⟨hself, -, hplain⟩⟩
    · cases tier with
      | high => exact .inr hkey
      | medium => exact .inl (.inl (.inr hkey))
      | low => exact .inl (.inl (.inl hkey))
    · exact .inl (.inr ⟨hplain, hself⟩)

namespace Properties

variable {ps ps' : Properties} {name : String}

/-- Whether a key names the property, in whatever tier. -/
def Names (ps : Properties) (name : String) : Prop := ∃ key ∈ ps.keys, (splitTier key).1 = name

instance : Decidable (ps.Names name) :=
  inferInstanceAs (Decidable (∃ key ∈ ps.keys, (splitTier key).1 = name))

/-- The text that properties give for a name, which is the one under the key that counts. -/
def textFor? (ps : Properties) (name : String) : Option String := (spellings name).findSome? ps.get?

/-- What is stored of a text; an empty text removes the property. -/
def stored? (text : String) : Option String := if text.isEmpty then none else some text

theorem names_iff : ps.Names name ↔ ∃ key ∈ spellings name, (ps.get? key).isSome = true := by
  simp only [Names, KeyMap.mem_keys_iff, KeyMap.contains, mem_spellings_iff]
  exact exists_congr fun key ↦ and_comm

theorem textFor?_eq_none_iff : ps.textFor? name = none ↔ ¬ ps.Names name := by
  rw [textFor?, List.findSome?_eq_none_iff, names_iff]
  simp

/-! ## The part of one tier -/

private theorem get?_foldl_ofTier {es : List (String × String)} (h : Entries.Ascending es)
    (tier : Tier) (name : String) (found : Properties) :
    (es.foldl (fun found e ↦ if (splitTier e.1).2 = tier then
        found.insert (splitTier e.1).1 e.2 else found) found).get? name
      = ((Entries.find? (tier.key name) es).or
          (if tier = .medium ∧ IsPlainKey name then Entries.find? name es else none)).or
          (found.get? name) := by
  induction es generalizing found with
  | nil => simp
  | cons e es ih =>
    rw [List.foldl_cons, ih h.of_cons, Entries.find?_cons, Entries.find?_cons]
    -- the key with the suffix is the later one, so the fold ends with it if it is there
    by_cases hkey : e.1 = tier.key name
    · have hlt : name < e.1 := hkey ▸ tier.lt_key name
      have hne : e.1 ≠ name := hkey ▸ tier.key_ne name
      have hsplit : splitTier e.1 = (name, tier) := by rw [hkey, splitTier_key]
      have hnot : ¬ e.1 < tier.key name := by
        rw [hkey]
        exact String.lt_irrefl _
      rw [hsplit, if_pos rfl, KeyMap.get?_insert, if_pos rfl, if_pos hkey, h.find?_eq_none hnot,
        h.find?_eq_none (String.lt_asymm hlt), if_neg hne]
      simp
    · rw [if_neg hkey]
      by_cases hself : e.1 = name ∧ tier = .medium ∧ IsPlainKey name
      · -- the name alone: what comes behind it may still be the key with the suffix
        have hsplit : splitTier e.1 = (name, tier) := splitTier_eq_iff.mpr (.inr hself)
        have hnot : ¬ e.1 < name := by
          rw [hself.1]
          exact String.lt_irrefl _
        rw [hsplit, if_pos rfl, KeyMap.get?_insert, if_pos rfl, if_pos hself.1,
          h.find?_eq_none hnot]
        simp [hself.2]
      · -- the entry is not about this property in this tier
        have hnot : splitTier e.1 ≠ (name, tier) := fun hsplit ↦
          (splitTier_eq_iff.mp hsplit).elim hkey hself
        have hfound : (if (splitTier e.1).2 = tier then found.insert (splitTier e.1).1 e.2
            else found).get? name = found.get? name := by
          split
          · next htier =>
            rw [KeyMap.get?_insert, if_neg fun hname ↦ hnot (Prod.ext hname htier)]
          · rfl
        rw [hfound]
        by_cases hmedium : tier = .medium ∧ IsPlainKey name
        · rw [if_pos hmedium, if_pos hmedium, if_neg fun hname ↦ hself ⟨hname, hmedium⟩]
        · rw [if_neg hmedium, if_neg hmedium]

theorem get?_ofTier (ps : Properties) (tier : Tier) (name : String) :
    (ps.ofTier tier).get? name = (ps.get? (tier.key name)).or
      (if tier = .medium ∧ IsPlainKey name then ps.get? name else none) := by
  rw [ofTier, get?_foldl_ofTier ps.ascending, KeyMap.get?_empty, Option.or_none]
  rfl

theorem mem_keys_ofTier_iff {tier : Tier} :
    name ∈ (ps.ofTier tier).keys ↔ ∃ key ∈ ps.keys, splitTier key = (name, tier) := by
  simp only [KeyMap.mem_keys_iff, KeyMap.contains, get?_ofTier, splitTier_eq_iff,
    Option.isSome_or, Bool.or_eq_true]
  constructor
  · rintro (hkey | hname)
    · exact ⟨_, hkey, .inl rfl⟩
    · split at hname
      · next h => exact ⟨_, hname, .inr ⟨rfl, h⟩⟩
      · simp at hname
  · rintro ⟨key, hkey, rfl | ⟨rfl, h⟩⟩
    · exact .inl hkey
    · exact .inr (by rwa [if_pos h])

/-! ## What is stored

The tiers are set one behind the other, so a text of a later tier overwrites that of an earlier one.
An empty text removes the property, and that is a text too: what is overwritten does not come
back. -/

private theorem get?_applyTier (ps old : Properties) (tier : Tier) (name : String) :
    (ps.applyTier tier old).get? name
      = ((ps.ofTier tier).get? name).elim (old.get? name) stored? := by
  have hfold (es : List (String × String)) (found acc : Properties)
      (h : acc.get? name = (found.get? name).elim (old.get? name) stored?) :
      (es.foldl (fun acc e ↦ if (splitTier e.1).2 = tier then
          if e.2.isEmpty then acc.erase (splitTier e.1).1 else acc.insert (splitTier e.1).1 e.2
        else acc) acc).get? name
      = ((es.foldl (fun found e ↦ if (splitTier e.1).2 = tier then
          found.insert (splitTier e.1).1 e.2 else found) found).get? name).elim
            (old.get? name) stored? := by
    induction es generalizing found acc with
    | nil => exact h
    | cons e es ih =>
      rw [List.foldl_cons, List.foldl_cons]
      apply ih
      by_cases htier : (splitTier e.1).2 = tier
      · rw [if_pos htier, if_pos htier, KeyMap.get?_insert]
        by_cases hname : (splitTier e.1).1 = name
        · rw [if_pos hname, Option.elim_some, stored?]
          split
          · rw [KeyMap.get?_erase, if_pos hname]
          · rw [KeyMap.get?_insert, if_pos hname]
        · rw [if_neg hname, ← h]
          split
          · rw [KeyMap.get?_erase, if_neg hname]
          · rw [KeyMap.get?_insert, if_neg hname]
      · rw [if_neg htier, if_neg htier, h]
  exact hfold ps.entries .empty old rfl

theorem textFor?_eq (ps : Properties) (name : String) : ps.textFor? name
    = ((ps.ofTier .low).get? name).or
      (((ps.ofTier .medium).get? name).or ((ps.ofTier .high).get? name)) := by
  rw [textFor?, spellings, get?_ofTier, get?_ofTier, get?_ofTier]
  have hcons (key : String) (keys : List String) :
      (key :: keys).findSome? ps.get? = (ps.get? key).or (keys.findSome? ps.get?) := by
    rw [List.findSome?_cons]
    cases ps.get? key <;> rfl
  by_cases hplain : IsPlainKey name <;> simp [hplain, hcons, Option.or_assoc]

theorem elim_or_stored? (text text' old : Option String) :
    (text.or text').elim old stored? = text.elim (text'.elim old stored?) stored? := by
  cases text <;> rfl

/-- **What is stored for a name** is the text given for it, or what has been stored before. -/
theorem get?_apply (ps old : Properties) (name : String) :
    (ps.apply old).get? name = (ps.textFor? name).elim (old.get? name) stored? := by
  rw [textFor?_eq, elim_or_stored?, elim_or_stored?, ← get?_applyTier, ← get?_applyTier,
    ← get?_applyTier]
  rfl

end Properties

end ReactiveVars
