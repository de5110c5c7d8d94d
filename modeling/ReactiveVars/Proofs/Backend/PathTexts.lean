import ReactiveVars.Backend.Handler
import ReactiveVars.Proofs.Order.Maps

/-!
# Where the text of a path comes from

Properties name a property under several keys, one for each tier. What a variable stores is one of
the texts that it has been given under any of them, or what it has stored before; a create adds the
parameters of the path that it reads. So if all the texts that may become the path are paths, the
one that is stored is a path, whichever it is.

## Main statements

* `Properties.readable_apply`, `readable_withPathParams`: what an update and a create store is a
  path if all that they are given for it are paths.
-/

namespace ReactiveVars

variable {ps ps' : Properties} {name x : String} {id : VarId}

namespace Properties

/-- Whether the path, if there is one, can be read. -/
def Readable (ps : Properties) : Prop :=
  ∀ raw, ps.get? pathProperty = some raw → ∃ path, Path.parse raw = .ok path

/-- The texts that properties hold for a name, whatever the tier. -/
def textsOf (ps : Properties) (name : String) : List String :=
  (ps.entries.filter fun e ↦ (splitTier e.1).1 = name).map Prod.snd

theorem mem_textsOf_iff :
    x ∈ ps.textsOf name ↔ ∃ key, ps.get? key = some x ∧ (splitTier key).1 = name := by
  simp only [textsOf, List.mem_map, List.mem_filter, decide_eq_true_eq]
  constructor
  · rintro ⟨⟨key, x⟩, ⟨hmem, hname⟩, rfl⟩
    exact ⟨key, KeyMap.mem_entries_iff.mp hmem, hname⟩
  · rintro ⟨key, hget, hname⟩
    exact ⟨(key, x), ⟨KeyMap.mem_of_get? hget, hname⟩, rfl⟩

private theorem mem_textsOf_of_applyTier (tier : Tier)
    (h : (ps.applyTier tier ps').get? name = some x) :
    x ∈ ps.textsOf name ∨ ps'.get? name = some x := by
  refine List.foldlRecOn (motive := fun acc : Properties ↦ acc.get? name = some x →
    x ∈ ps.textsOf name ∨ ps'.get? name = some x) ps.entries _ .inr (fun acc ih e he hx ↦ ?_) h
  split at hx
  · split at hx
    · rw [KeyMap.get?_erase] at hx
      split at hx
      · exact absurd hx (by simp)
      · exact ih hx
    · rw [KeyMap.get?_insert] at hx
      split at hx
      · next hname =>
        rw [← Option.some_inj.mp hx]
        exact .inl (mem_textsOf_iff.mpr ⟨e.1, KeyMap.mem_entries_iff.mp he, hname⟩)
      · exact ih hx
  · exact ih hx

/-- **A property that is stored is one of the texts given for it, or has been stored before.** -/
theorem mem_textsOf_of_apply (h : (ps.apply ps').get? name = some x) :
    x ∈ ps.textsOf name ∨ ps'.get? name = some x := by
  rcases mem_textsOf_of_applyTier .low h with hx | hx
  · exact .inl hx
  rcases mem_textsOf_of_applyTier .medium hx with hx | hx
  · exact .inl hx
  exact mem_textsOf_of_applyTier .high hx

private theorem mem_textsOf_of_fillIn {more : Properties}
    (h : x ∈ (ps.fillIn more.entries).textsOf name) :
    x ∈ ps.textsOf name ∨ x ∈ more.textsOf name := by
  refine List.foldlRecOn (motive := fun acc : Properties ↦ x ∈ acc.textsOf name →
    x ∈ ps.textsOf name ∨ x ∈ more.textsOf name) more.entries _ .inl (fun acc ih e he hx ↦ ?_) h
  split at hx
  · obtain ⟨key, hget, hname⟩ := mem_textsOf_iff.mp hx
    rw [KeyMap.get?_insert] at hget
    split at hget
    · next hkey =>
      rw [← Option.some_inj.mp hget]
      refine .inr (mem_textsOf_iff.mpr ⟨e.1, KeyMap.mem_entries_iff.mp he, ?_⟩)
      rw [hkey, hname]
    · exact ih (mem_textsOf_iff.mpr ⟨key, hget, hname⟩)
  · exact ih hx

/-! ## Texts that are paths -/

/-- Whether all texts that properties hold for the path are paths, together with those that the
parameters of these hold for it. -/
def ArePaths (ps : Properties) : Prop :=
  ∀ raw ∈ ps.textsOf pathProperty, ∃ path, Path.parse raw = .ok path ∧
    ∀ raw' ∈ textsOf path.properties pathProperty, ∃ path', Path.parse raw' = .ok path'

/-- An update by paths keeps the path readable. -/
theorem readable_apply (h : ps.ArePaths) (h' : ps'.Readable) : (ps.apply ps').Readable := by
  intro raw hraw
  rcases mem_textsOf_of_apply hraw with hmem | hold
  · obtain ⟨path, hpath, -⟩ := h raw hmem
    exact ⟨path, hpath⟩
  · exact h' raw hold

end Properties

/-- A create by paths stores a path. -/
theorem readable_withPathParams (h : ps.ArePaths) (hparams : withPathParams id ps = .ok ps') :
    (ps'.apply .empty).Readable := by
  intro raw hraw
  have hmem := (Properties.mem_textsOf_of_apply hraw).resolve_right (by simp)
  rw [withPathParams] at hparams
  rcases hbase : ps.base? pathProperty with _ | asked
  · rw [hbase, Except.ok.injEq] at hparams
    obtain ⟨path, hpath, -⟩ := h raw (hparams ▸ hmem)
    exact ⟨path, hpath⟩
  rw [hbase] at hparams
  simp only at hparams
  -- the path that is read is one of those that are given
  have hasked : asked ∈ ps.textsOf pathProperty := by
    rw [Properties.base?, Option.map_eq_some_iff] at hbase
    obtain ⟨e, he, rfl⟩ := hbase
    have hname : (splitTier e.1).1 = pathProperty := by simpa using List.find?_some he
    exact Properties.mem_textsOf_iff.mpr
      ⟨e.1, KeyMap.mem_entries_iff.mp (List.mem_of_find?_eq_some he), hname⟩
  obtain ⟨path, hpath, hfilled⟩ := h asked hasked
  rw [hpath, Except.ok.injEq] at hparams
  rw [← hparams] at hmem
  rcases Properties.mem_textsOf_of_fillIn hmem with hold | hnew
  · obtain ⟨path', hpath', -⟩ := h raw hold
    exact ⟨path', hpath'⟩
  · exact hfilled raw hnew

end ReactiveVars
