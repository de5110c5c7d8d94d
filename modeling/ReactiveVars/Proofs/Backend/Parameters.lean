import ReactiveVars.Proofs.Backend.StoreSteps
import ReactiveVars.Proofs.Variable.Settings

/-!
# Parameters of paths as properties

The parameters of the path that a create asks for are added to the properties it asks for, each
under its key, unless a key of the request names the property of that key. A parameter whose key has
a suffix is compared with its suffix and stored without it, so it may still meet a property that the
request names, and take its place if it counts before the keys of the request.

## Main statements

* `Properties.get?_fillIn`: what is added to properties.
* `create_stores`: which properties of a new variable are as the request alone sets them.
-/

namespace ReactiveVars

open TurnM Relation

namespace Properties

variable {ps : Properties} {name : String}

/-! ## Adding properties

A parameter is left out if its key, as it stands, is a name that a key of the request has. What it
sets in the end is the name that its key has without a suffix, and that may be another. -/

theorem isNone_base? : (ps.base? name).isNone = true ↔ ¬ ps.Names name := by
  rw [Option.isNone_iff_eq_none, base?, Option.map_eq_none_iff, List.find?_eq_none, Names,
    KeyMap.keys]
  simp

private theorem names_insert_iff {key text : String} :
    Names (ps.insert key text) name ↔ (splitTier key).1 = name ∨ ps.Names name := by
  simp only [Names, KeyMap.mem_keys_iff, KeyMap.contains_insert, Bool.or_eq_true,
    decide_eq_true_eq, or_and_right, exists_or, exists_eq_left']

/-- A key is behind the name that is left of it, unless it is that name. -/
private theorem splitTier_lt_or_isPlainKey (key : String) :
    (splitTier key).1 < key ∨ IsPlainKey key := by
  obtain ⟨tier, name, rfl, hsplit⟩ | ⟨-, hsplit⟩ := splitTier_cases key
  · rw [hsplit]
    exact .inl (tier.lt_key name)
  · exact .inr (by rw [IsPlainKey, hsplit])

/-- **What is added to properties** is what there is under keys that no key names. -/
theorem get?_fillIn {more : List (String × String)} (h : Entries.Ascending more)
    (ps : Properties) (key : String) :
    (ps.fillIn more).get? key
      = (if ps.Names key then none else Entries.find? key more).or (ps.get? key) := by
  induction more generalizing ps with
  | nil => simp [fillIn]
  | cons e more ih =>
    rw [fillIn, List.foldl_cons, ← fillIn, ih h.of_cons, Entries.find?_cons]
    simp only [isNone_base?]
    by_cases hnames : ps.Names e.1
    · rw [if_neg (not_not_intro hnames)]
      by_cases hkey : e.1 = key
      · rw [← hkey, if_pos hnames, if_pos hnames]
      · rw [if_neg hkey]
    · rw [if_pos hnames, KeyMap.get?_insert]
      by_cases hkey : e.1 = key
      · subst hkey
        rw [h.find?_eq_none (String.lt_irrefl _), if_pos rfl, if_neg hnames, if_pos rfl]
        simp
      · rw [if_neg hkey, if_neg hkey]
        simp only [names_insert_iff]
        by_cases hbase : (splitTier e.1).1 = key
        · -- nothing behind the added key has the name that is left of it as its key
          have hlt : key < e.1 := by
            rw [← hbase]
            exact (splitTier_lt_or_isPlainKey e.1).resolve_right fun hplain ↦
              hkey (hplain.symm.trans hbase)
          rw [h.find?_eq_none (String.lt_asymm hlt)]
          simp
        · simp only [hbase, false_or]

/-! ## Parameters that count

Of the keys that name a property the last one counts, and that of a parameter with a suffix may be
the one. `Overrides` says when: the parameter is not left out, and there is nothing under the keys
that count before its own. -/

/-- Whether a parameter gives the text that counts for a name: no key names the property of its key,
and under the keys that count before it there is nothing in the end. -/
def Overrides (own params : Properties) (name key text : String) : Prop :=
  params.get? key = some text ∧ ¬ own.Names key ∧ ∃ later earlier,
    spellings name = later ++ key :: earlier ∧
      ∀ key' ∈ later, own.get? key' = none ∧ (own.Names key' ∨ params.get? key' = none)

section Overrides

variable {own params : Properties} {key text : String}

theorem get?_fillIn_entries (own params : Properties) (key : String) :
    (own.fillIn params.entries).get? key
      = (if own.Names key then none else params.get? key).or (own.get? key) :=
  get?_fillIn params.ascending own key

private theorem get?_fillIn_eq_none_iff : (own.fillIn params.entries).get? key = none ↔
    own.get? key = none ∧ (own.Names key ∨ params.get? key = none) := by
  rw [get?_fillIn_entries, Option.or_eq_none_iff, and_comm]
  by_cases h : own.Names key <;> simp [h]

private theorem textFor?_eq_some_iff : own.textFor? name = some text ↔ ∃ later key earlier,
    spellings name = later ++ key :: earlier ∧ own.get? key = some text ∧
      ∀ key' ∈ later, own.get? key' = none := by
  rw [textFor?, List.findSome?_eq_some_iff]

private theorem Overrides.textFor?_fillIn (h : own.Overrides params name key text) :
    (own.fillIn params.entries).textFor? name = some text := by
  obtain ⟨hparam, hnames, later, earlier, hspellings, hlater⟩ := h
  refine textFor?_eq_some_iff.mpr ⟨later, key, earlier, hspellings, ?_, fun key' hkey' ↦
    get?_fillIn_eq_none_iff.mpr (hlater key' hkey')⟩
  rw [get?_fillIn_entries, if_neg hnames, hparam, Option.some_or]

private theorem textFor?_fillIn_of_forall_not
    (h : ∀ key text, ¬ own.Overrides params name key text) :
    (own.fillIn params.entries).textFor? name = own.textFor? name := by
  cases hfound : (own.fillIn params.entries).textFor? name with
  | none =>
    rw [textFor?, List.findSome?_eq_none_iff] at hfound
    refine (List.findSome?_eq_none_iff.mpr fun key hkey ↦ ?_).symm
    exact (get?_fillIn_eq_none_iff.mp (hfound key hkey)).1
  | some text =>
    obtain ⟨later, key, earlier, hspellings, hkey, hlater⟩ := textFor?_eq_some_iff.mp hfound
    simp only [get?_fillIn_eq_none_iff] at hlater
    have hparam : (if own.Names key then none else params.get? key) = none := by
      rw [ite_eq_left_iff]
      intro hnames
      cases hget : params.get? key with
      | none => rfl
      | some text' =>
        exact absurd ⟨hget, hnames, later, earlier, hspellings, hlater⟩ (h key text')
    rw [get?_fillIn_entries, hparam, Option.none_or] at hkey
    exact (textFor?_eq_some_iff.mpr
      ⟨later, key, earlier, hspellings, hkey, fun key' hkey' ↦ (hlater key' hkey').1⟩).symm

theorem Overrides.exists_tier (h : own.Overrides params name key text) (hname : own.Names name) :
    ∃ tier, key = Tier.key tier name := by
  obtain ⟨-, hnames, later, earlier, hspellings, -⟩ := h
  have hkey : key ∈ spellings name := by
    rw [hspellings]
    exact List.mem_append_right later List.mem_cons_self
  have hsplit : splitTier key = (name, (splitTier key).2) :=
    Prod.ext (mem_spellings_iff.mp hkey) rfl
  obtain htier | ⟨rfl, -⟩ := splitTier_eq_iff.mp hsplit
  · exact ⟨_, htier⟩
  · exact absurd hname hnames

/-- **What is stored of a request and its parameters.** -/
theorem get?_apply_fillIn (own params : Properties) (name : String) :
    (∀ key text, own.Overrides params name key text →
      (apply (own.fillIn params.entries) .empty).get? name = stored? text) ∧
    ((apply (own.fillIn params.entries) .empty).get? name = (own.apply .empty).get? name ↔
      ∀ key text, own.Overrides params name key text →
        stored? text = (own.apply .empty).get? name) := by
  have hoverrides {key text : String} (h : own.Overrides params name key text) :
      (apply (own.fillIn params.entries) .empty).get? name = stored? text := by
    rw [get?_apply, h.textFor?_fillIn, Option.elim_some]
  refine ⟨fun key text h ↦ hoverrides h, fun heq key text h ↦ by rw [← hoverrides h, heq],
    fun hall ↦ ?_⟩
  by_cases hexists : ∃ key text, own.Overrides params name key text
  · obtain ⟨key, text, h⟩ := hexists
    rw [hoverrides h, hall key text h]
  · push Not at hexists
    rw [get?_apply, textFor?_fillIn_of_forall_not hexists, get?_apply]

end Overrides

end Properties

/-! ## The properties of a new variable -/

/-- The parameters of the path that a request asks for. -/
def CreateRequest.params (request : CreateRequest) : Properties :=
  match request.properties.base? pathProperty with
  | none => .empty
  | some raw =>
    match Path.parse raw with
    | .ok path => path.properties
    | .error _ => .empty

theorem CreateRequest.eq_fillIn_params (request : CreateRequest) {id : VarId} {ps : Properties}
    (h : withPathParams id request.properties = .ok ps) :
    ps = request.properties.fillIn request.params.entries := by
  rw [withPathParams] at h
  rw [params]
  cases hbase : request.properties.base? pathProperty with
  | none =>
    rw [hbase] at h
    exact (Except.ok.inj h).symm
  | some raw =>
    simp only [hbase] at h ⊢
    cases hparse : Path.parse raw with
    | ok path =>
      rw [hparse] at h
      exact (Except.ok.inj h).symm
    | error e =>
      rw [hparse] at h
      exact absurd h (by simp)

section Creating

variable {σ : Type} [Application σ] {w : WrapperRegistry} {id : VarId} {t t' : Turn σ}
  {creator : Option Observer} {request : CreateRequest}

omit [Application σ] in
private theorem SessionState.Touches.map_properties {s s' : SessionState} (h : s.Touches s')
    (k : VarId) :
    (s'.store.get? k).map Variable.properties = (s.store.get? k).map Variable.properties := by
  have htouch {a b : Store} (h : a.Touch b) :
      (b.get? k).map Variable.properties = (a.get? k).map Variable.properties := by
    rcases h with ⟨id, active⟩ | ⟨id, value⟩
    · rw [Store.get?_setActive]
      split <;> simp [Function.comp_def]
    · rw [Store.get?_keep]
      split
      · rw [Option.map_map]
        refine congrArg (fun f ↦ Option.map f _) (funext fun v ↦ ?_)
        rw [Function.comp_apply]
        split <;> rfl
      · rfl
  have hsteps {a b : Store} (h : ReflTransGen Store.Touch a b) :
      (b.get? k).map Variable.properties = (a.get? k).map Variable.properties := by
    induction h with
    | refl => rfl
    | tail _ hstep ih => rw [htouch hstep, ih]
  exact hsteps h

/-- A create stores what it asks for together with the parameters of its path. -/
theorem properties_of_create (h : create w creator request t = .ok id t') :
    ∃ v, t'.session.store.get? id = some v ∧
      v.properties = (request.properties.fillIn request.params.entries).apply .empty := by
  obtain ⟨ps, t'', hregister, hintroduce⟩ := create_eq_ok h
  obtain ⟨hid, hps, value, app, -, rfl⟩ := register_eq_ok hregister
  have hshown := introduce_shows w creator request id ps
    { t with session := t.session.registered request value ps, app := app }
  rw [after_of_ok hintroduce] at hshown
  have hprops := (SessionState.touches_of_steps SessionState.show_touches hshown).map_properties id
  rw [t.session.get?_registered, if_pos hid.symm, Option.map_some, Option.map_eq_some_iff] at hprops
  obtain ⟨v, hv, hprops⟩ := hprops
  refine ⟨v, hv, ?_⟩
  rw [hprops, ← request.eq_fillIn_params hps]
  rfl

/-- **The properties of a new variable are those that the request alone sets, unless a parameter
counts before them.** Such a parameter gives the property its text, and the key of a parameter that
meets a property of the request has a suffix. -/
theorem create_stores (h : create w creator request t = .ok id t') :
    ∃ v, t'.session.store.get? id = some v ∧ ∀ name,
      (∀ key text, request.properties.Overrides request.params name key text →
        v.properties.get? name = Properties.stored? text) ∧
      (v.properties.get? name = (request.properties.apply .empty).get? name ↔
        ∀ key text, request.properties.Overrides request.params name key text →
          Properties.stored? text = (request.properties.apply .empty).get? name) ∧
      (request.properties.Names name →
        ∀ key text, request.properties.Overrides request.params name key text →
          ∃ tier, key = Tier.key tier name) := by
  obtain ⟨v, hv, hprops⟩ := properties_of_create h
  refine ⟨v, hv, fun name ↦ ?_⟩
  obtain ⟨hstored, hiff⟩ := Properties.get?_apply_fillIn request.properties request.params name
  rw [hprops]
  exact ⟨hstored, hiff, fun hname key text h ↦ h.exists_tier hname⟩

end Creating

/-- A request for a label that the path has another text for, in the low tier. -/
def ContactBook.labelled : CreateRequest :=
  ⟨rootId, none, .ofList [("label", "x"), ("path", "name?label:low=p")], some 2, true, false⟩

theorem create_labelled :
    ∃ t', create .standard (some "a") ContactBook.labelled ContactBook.turn = .ok 2 t' := by
  have hpasses : (create .standard (some "a") ContactBook.labelled).passes (fun id _ ↦ id == 2)
      ContactBook.turn = true := by decide +kernel
  obtain ⟨id, t', ht', hid⟩ := passes_iff.mp hpasses
  obtain rfl := eq_of_beq hid
  exact ⟨t', ht'⟩

theorem create_stores_labelled : ∃ t' v,
    create .standard (some "a") ContactBook.labelled ContactBook.turn = .ok 2 t' ∧
    t'.session.store.get? 2 = some v ∧ v.properties.get? "label" = some "p" := by
  have hoverrides : ContactBook.labelled.properties.Overrides ContactBook.labelled.params "label"
      "label:low" "p" :=
    ⟨by decide +kernel, by decide +kernel, [], _, rfl, by simp⟩
  obtain ⟨t', ht'⟩ := create_labelled
  obtain ⟨v, hv, hall⟩ := create_stores ht'
  exact ⟨t', v, ht', hv, (hall "label").1 _ _ hoverrides⟩

/-- The request names the label, and alone it would set another text. -/
theorem create_overrides_labelled : ∃ t',
    create .standard (some "a") ContactBook.labelled ContactBook.turn = .ok 2 t' ∧
    ContactBook.labelled.properties.Names "label" ∧
    (t'.session.store.get? 2).bind (fun v ↦ v.properties.get? "label")
      ≠ (ContactBook.labelled.properties.apply .empty).get? "label" := by
  obtain ⟨t', ht'⟩ := create_labelled
  refine ⟨t', ht', by decide +kernel, ?_⟩
  rw [← after_of_ok ht']
  decide +kernel

end ReactiveVars
