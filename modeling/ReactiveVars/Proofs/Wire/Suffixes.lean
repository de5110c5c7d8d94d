import ReactiveVars.Wire.Tier

/-!
# Keys and their suffixes

A key names a property and a tier. The suffixes of the tiers end in different characters, so a key
has one of them at most and is taken apart in one way. A property is named by four keys: its name
with each of the suffixes and, unless the name ends in a suffix itself, the name as it is.

## Main statement

* `splitTier_eq_iff`: which keys are taken apart to a name and a tier.
-/

namespace ReactiveVars

/-- The key that names a property, and the tier by its suffix. -/
def Tier.key (tier : Tier) (name : String) : String := name ++ tier.suffix

/-- Whether a key has no suffix. -/
def IsPlainKey (key : String) : Prop := (splitTier key).1 = key

instance (key : String) : Decidable (IsPlainKey key) :=
  inferInstanceAs (Decidable ((splitTier key).1 = key))

variable {tier tier' : Tier} {key name name' : String}

private theorem frontBefore?_eq_some_iff {ending cs front : List Char} :
    frontBefore? ending cs = some front ↔ cs = front ++ ending := by
  rw [frontBefore?, Option.ite_none_right_eq_some, List.isSuffixOf_iff_suffix, Option.some_inj]
  constructor
  · rintro ⟨h, rfl⟩
    exact (List.suffix_iff_eq_append.mp h).symm
  · rintro rfl
    exact ⟨List.suffix_append front ending, by simp⟩

theorem Tier.mem_all (tier : Tier) : tier ∈ all := by cases tier <;> simp [all]

theorem Tier.key_inj : tier.key name = tier'.key name' ↔ tier = tier' ∧ name = name' := by
  constructor
  · intro h
    have hlist : name.toList ++ tier.suffix.toList = name'.toList ++ tier'.suffix.toList := by
      rw [← String.toList_append, ← String.toList_append]
      exact congrArg String.toList h
    -- the suffixes end in different characters
    have hlast := congrArg List.getLast? hlist
    have htier : tier = tier' := by
      cases tier <;> cases tier' <;> first | rfl | simp [suffix] at hlast
    subst htier
    exact ⟨rfl, String.toList_inj.mp (List.append_cancel_right hlist)⟩
  · rintro ⟨rfl, rfl⟩
    rfl

theorem Tier.key_ne (tier : Tier) (name : String) : tier.key name ≠ name := by
  intro h
  have hlength := congrArg (fun s ↦ s.toList.length) h
  rw [key, String.toList_append, List.length_append, Nat.add_eq_left] at hlength
  cases tier <;> simp [suffix] at hlength

/-- A key is behind the name that it is made of. -/
theorem Tier.lt_key (tier : Tier) (name : String) : name < tier.key name := by
  rw [String.lt_iff, key, String.toList_append]
  induction name.toList with
  | nil => cases tier <;> decide
  | cons c cs ih => exact List.Lex.cons ih

private theorem map_frontBefore?_eq_some_iff {found : String × Tier} :
    (frontBefore? tier.suffix.toList key.toList).map (fun front ↦ (String.ofList front, tier))
      = some found ↔ found.2 = tier ∧ key = tier.key found.1 := by
  rw [Option.map_eq_some_iff]
  simp only [frontBefore?_eq_some_iff]
  constructor
  · rintro ⟨front, hfront, rfl⟩
    refine ⟨rfl, String.toList_inj.mp ?_⟩
    rw [hfront, Tier.key, String.toList_append, String.toList_ofList]
  · rintro ⟨rfl, rfl⟩
    exact ⟨found.1.toList, by rw [Tier.key, String.toList_append], by rw [String.ofList_toList]⟩

/-- A key is taken apart by the suffix that it has, if it has one. -/
theorem splitTier_cases (key : String) :
    (∃ tier name, key = Tier.key tier name ∧ splitTier key = (name, tier)) ∨
      (∀ tier name, key ≠ Tier.key tier name) ∧ splitTier key = (key, .medium) := by
  rw [splitTier]
  obtain hnone | ⟨found, hfound⟩ := Option.eq_none_or_eq_some (Tier.all.findSome? fun tier ↦
    (frontBefore? tier.suffix.toList key.toList).map fun front ↦ (String.ofList front, tier))
  · refine .inr ⟨fun tier name hkey ↦ ?_, by rw [hnone, Option.getD_none]⟩
    have htier := List.findSome?_eq_none_iff.mp hnone tier tier.mem_all
    have hsome : (frontBefore? tier.suffix.toList key.toList).map
        (fun front ↦ (String.ofList front, tier)) = some (name, tier) :=
      map_frontBefore?_eq_some_iff.mpr ⟨rfl, hkey⟩
    rw [hsome] at htier
    exact absurd htier (by simp)
  · obtain ⟨tier, -, htier⟩ := List.exists_of_findSome?_eq_some hfound
    obtain ⟨rfl, hkey⟩ := map_frontBefore?_eq_some_iff.mp htier
    exact .inl ⟨found.2, found.1, hkey, by rw [hfound, Option.getD_some]⟩

theorem splitTier_key (tier : Tier) (name : String) : splitTier (tier.key name) = (name, tier) := by
  obtain ⟨tier', name', hkey, hsplit⟩ | ⟨hne, -⟩ := splitTier_cases (tier.key name)
  · obtain ⟨rfl, rfl⟩ := Tier.key_inj.mp hkey
    exact hsplit
  · exact absurd rfl (hne tier name)

/-- A key is plain exactly if it is not made of a name and a suffix. -/
private theorem isPlainKey_iff : IsPlainKey key ↔ ∀ tier name, key ≠ Tier.key tier name := by
  constructor
  · rintro h tier name rfl
    rw [IsPlainKey, splitTier_key] at h
    exact tier.key_ne name h.symm
  · intro h
    obtain ⟨tier, name, hkey, -⟩ | ⟨-, hsplit⟩ := splitTier_cases key
    · exact absurd hkey (h tier name)
    · rw [IsPlainKey, hsplit]

theorem IsPlainKey.splitTier (h : IsPlainKey key) : splitTier key = (key, .medium) := by
  obtain ⟨tier, name, hkey, -⟩ | ⟨-, hsplit⟩ := splitTier_cases key
  · exact absurd hkey (isPlainKey_iff.mp h tier name)
  · exact hsplit

/-- **A property in a tier is named by its name with the suffix of the tier, and in the medium tier
also by its name alone if that has no suffix.** -/
theorem splitTier_eq_iff : splitTier key = (name, tier) ↔
    key = tier.key name ∨ key = name ∧ tier = .medium ∧ IsPlainKey name := by
  constructor
  · intro h
    obtain ⟨tier', name', hkey, hsplit⟩ | ⟨hne, hsplit⟩ := splitTier_cases key
    · obtain ⟨rfl, rfl⟩ := Prod.mk.inj (hsplit.symm.trans h)
      exact .inl hkey
    · obtain ⟨rfl, rfl⟩ := Prod.mk.inj (hsplit.symm.trans h)
      exact .inr ⟨rfl, rfl, isPlainKey_iff.mpr hne⟩
  · rintro (rfl | ⟨rfl, rfl, hplain⟩)
    · exact splitTier_key tier name
    · exact hplain.splitTier

end ReactiveVars
