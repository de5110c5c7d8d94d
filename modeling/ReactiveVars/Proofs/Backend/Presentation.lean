import ReactiveVars.Proofs.Application.Readings
import ReactiveVars.Proofs.Backend.Parts

/-!
# What presented values depend on

The value that a variable with a path has in the store is the one it was last presented with, and
presenting does not look at it. So it makes no difference to presented values which of these values
have been kept; what counts is a store with all of them left out, its *bare* form.

Over an object space, presenting variables whose paths call no methods leaves the objects as they
are and always comes to an end: with a value, or with a refusal.
-/

namespace ReactiveVars

/-! ## Bare stores

A variable without a path keeps its value in the bare form, for there the value is what is
presented. -/

/-- The variable without the value it was last presented with. -/
def Variable.bare (v : Variable) : Variable :=
  if v.path?.isSome then { v with value := .null } else v

namespace Variable

theorem bare_of_path {v : Variable} {raw : String} (h : v.path? = some raw) :
    v.bare = { v with value := .null } := by
  rw [bare, if_pos (by rw [h, Option.isSome_some])]

theorem bare_of_no_path {v : Variable} (h : v.path? = none) : v.bare = v := by
  rw [bare, if_neg (by rw [h, Option.isSome_none]; simp)]

/-- All fields but the value are those of the variable. -/
private theorem bare_eq (v : Variable) : ∃ value, v.bare = { v with value := value } := by
  rw [bare]
  split
  · exact ⟨.null, rfl⟩
  · exact ⟨v.value, rfl⟩

@[simp] theorem id_bare (v : Variable) : v.bare.id = v.id := by
  obtain ⟨value, h⟩ := v.bare_eq
  rw [h]

@[simp] theorem parent_bare (v : Variable) : v.bare.parent = v.parent := by
  obtain ⟨value, h⟩ := v.bare_eq
  rw [h]

@[simp] theorem active_bare (v : Variable) : v.bare.active = v.active := by
  obtain ⟨value, h⟩ := v.bare_eq
  rw [h]

@[simp] theorem properties_bare (v : Variable) : v.bare.properties = v.properties := by
  obtain ⟨value, h⟩ := v.bare_eq
  rw [h]

theorem path?_bare (v : Variable) : v.bare.path? = v.path? := by
  rw [path?, properties_bare, path?]

theorem wrapper?_bare (v : Variable) : v.bare.wrapper? = v.wrapper? := by
  rw [wrapper?, properties_bare, wrapper?]

theorem isSuspended_bare (v : Variable) : v.bare.isSuspended = v.isSuspended := by
  rw [isSuspended, properties_bare, isSuspended]

theorem bare_keep (v : Variable) (presented : Json) :
    (if v.path?.isSome then { v with value := presented } else v).bare = v.bare := by
  by_cases h : v.path?.isSome = true
  · obtain ⟨raw, hraw⟩ := Option.isSome_iff_exists.mp h
    have hraw' : ({ v with value := presented } : Variable).path? = some raw := hraw
    rw [if_pos h, bare_of_path hraw, bare_of_path hraw']
  · rw [if_neg h]

end Variable

/-- The variables of a store in their bare forms. -/
def Store.bare (s : Store) : List Variable := s.entries.map Variable.bare

theorem Store.bare_keep (s : Store) (id : VarId) (presented : Json) :
    (s.keep id presented).bare = s.bare := by
  rw [bare, keep, modify, List.map_map, bare]
  refine List.map_congr_left fun v _ ↦ ?_
  rw [Function.comp_apply]
  split
  · exact v.bare_keep presented
  · rfl

private theorem Store.any_id_map_bare (vs : List Variable) (id : VarId) :
    (vs.map Variable.bare).any (fun u ↦ decide (u.id = id))
      = vs.any fun u ↦ decide (u.id = id) := by
  rw [List.any_map]
  simp [Function.comp_def]

section Application

variable {σ : Type} [Application σ]

/-- **A presented value depends on the bare store alone.** -/
theorem presentedIn_map_bare (w : WrapperRegistry) (id : VarId) (vs : List Variable) (app : σ) :
    presentedIn w id (vs.map Variable.bare) app = presentedIn w id vs app := by
  induction vs generalizing id app with
  | nil => rfl
  | cons v older ih =>
    rw [List.map_cons, presentedIn, presentedIn, Variable.id_bare]
    split
    · rw [Variable.path?_bare, Variable.wrapper?_bare, Variable.properties_bare,
        Variable.parent_bare, Store.any_id_map_bare, ih]
      cases hpath : v.path? with
      | none => rw [Variable.bare_of_no_path hpath]
      | some raw => rfl
    · exact ih id app

theorem presented_congr {w : WrapperRegistry} {t t' : Turn σ} (hbare : t'.session.store.bare
    = t.session.store.bare) (happ : t'.app = t.app) (id : VarId) :
    t'.presented w id = t.presented w id := by
  rw [Store.bare, Store.bare] at hbare
  rw [Turn.presented, ← presentedIn_map_bare, hbare, happ, presentedIn_map_bare, Turn.presented]

end Application

/-! ## Tracked variables

Which variables are examined is asked once, when a detection begins, while values are kept as it
goes on. -/

theorem Store.lineageIn_map (vs : List Variable) {f : Variable → Variable}
    (hid : ∀ v, (f v).id = v.id) (hparent : ∀ v, (f v).parent = v.parent) (id : VarId) :
    lineageIn id (vs.map f) = (lineageIn id vs).map f := by
  induction vs generalizing id with
  | nil => rfl
  | cons v older ih =>
    rw [List.map_cons, lineageIn, lineageIn, hid, hparent]
    split
    · rw [ih, List.map_cons]
    · exact ih id

theorem Store.isTracked_eq_bare (s : Store) (id : VarId) :
    s.isTracked id = ((findIn id s.bare).isSome && (lineageIn id s.bare).all fun v ↦
      v.active && !v.isSuspended) := by
  rw [isTracked, contains, get?_eq_findIn, lineage, bare, findIn_map _ Variable.id_bare,
    lineageIn_map _ Variable.id_bare Variable.parent_bare, Option.isSome_map, List.all_map]
  simp [Function.comp_def, Variable.isSuspended_bare]

theorem Store.isTracked_congr {s s' : Store} (h : s'.bare = s.bare) (id : VarId) :
    s'.isTracked id = s.isTracked id := by
  rw [isTracked_eq_bare, h, isTracked_eq_bare]

/-! ## Reading without methods -/

/-- Whether the path of a variable calls no method. -/
def Variable.isMethodFree (v : Variable) : Bool :=
  match v.path? with
  | none => true
  | some raw =>
    match Path.parse raw with
    | .ok path => Segment.noMethodIn path.segments
    | .error _ => true

theorem Variable.noMethodIn_of_parse {v : Variable} (h : v.isMethodFree = true) {raw : String}
    {path : Path} (hraw : v.path? = some raw) (hparse : Path.parse raw = .ok path) :
    Segment.noMethodIn path.segments = true := by
  simpa only [isMethodFree, hraw, hparse] using h

/-- Whether no path in a store calls a method. -/
def Store.isMethodFree (s : Store) : Bool := s.entries.all Variable.isMethodFree

private theorem readPath_of_noMethodIn {segments : List Segment}
    (h : Segment.noMethodIn segments = true)
    (base : Json) (a : ObjectSpace) : ∃ v, readPath base segments a = (.ok v, a) := by
  rw [readPath]
  cases ObjectRef.ofJson? base with
  | none => exact ⟨_, rfl⟩
  | some r =>
    obtain ⟨v, hv⟩ := ObjectSpace.resolveFrom_of_noMethodIn (a := a) h [] r.json
    have hresolve : Application.resolve a r segments = (.ok v, a) := hv
    simp only [hresolve]
    exact ⟨v, rfl⟩

/-- Presenting over an object space, without methods, leaves the objects as they are and does not
crash. -/
theorem presentedIn_of_methodFree (w : WrapperRegistry) (id : VarId) {vs : List Variable}
    (h : vs.all Variable.isMethodFree = true) (a : ObjectSpace) :
    (∃ v, presentedIn w id vs a = (.ok v, a)) ∨
      ∃ e, presentedIn w id vs a = (.error (.refused e), a) := by
  induction vs generalizing id with
  | nil => exact .inr ⟨_, rfl⟩
  | cons v older ih =>
    rw [List.all_cons, Bool.and_eq_true] at h
    rw [presentedIn]
    split
    · rcases hraw : v.path? with _ | raw
      · exact .inl ⟨_, rfl⟩
      · simp only
        rcases hparse : Path.parse raw with e | path
        · exact .inr ⟨_, rfl⟩
        · -- the parent is presented among the older variables, where this holds by induction
          have hbase : (∃ b, (if older.any (fun u ↦ decide (u.id = v.parent)) then
                presentedIn w v.parent older a else (.ok (Application.rootValue a), a))
                = (.ok b, a)) ∨
              ∃ e, (if older.any (fun u ↦ decide (u.id = v.parent)) then
                presentedIn w v.parent older a else (.ok (Application.rootValue a), a))
                = (.error (.refused e), a) := by
            split
            · exact ih v.parent h.2
            · exact .inl ⟨_, rfl⟩
          rcases hbase with ⟨b, hb⟩ | ⟨e, he⟩
          · have hsegments := v.noMethodIn_of_parse h.1 hraw hparse
            obtain ⟨found, hfound⟩ := readPath_of_noMethodIn hsegments b a
            simp only [hb, hfound]
            exact .inl ⟨_, rfl⟩
          · simp only [he]
            exact .inr ⟨e, rfl⟩
    · exact ih id h.2

end ReactiveVars
