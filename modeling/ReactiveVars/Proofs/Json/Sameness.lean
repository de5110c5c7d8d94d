import ReactiveVars.Json.Basic

/-!
# Values that are the same

Two values are compared part by part, and the two zeros count as one number. Comparing is therefore
deciding whether the values are equal once every zero has lost its sign, and with that it is an
equivalence.

## Main statement

* `same_iff`: what it means to be the same.
-/

namespace ReactiveVars

/-- The double with a zero losing its sign. -/
def Double.unsigned (d : Double) : Double := if d.isZero then .zero false else d

private theorem Double.same_iff {d d' : Double} : d.same d' = true ↔ d.unsigned = d'.unsigned := by
  have hzero {d : Double} (h : d.isZero = false) : d ≠ .zero false := by
    rintro rfl
    exact absurd h (by decide)
  rw [same, unsigned, unsigned]
  rcases hd : d.isZero with _ | _ <;> rcases hd' : d'.isZero with _ | _
  · simp
  · simpa [hzero hd] using fun h : d = d' ↦ absurd (h ▸ hd) (by simp [hd'])
  · simpa [(hzero hd').symm] using fun h : d = d' ↦ absurd (h ▸ hd) (by simp [hd'])
  · simp

namespace Json

mutual

/-- The value with every zero losing its sign. -/
def unsigned : Json → Json
  | double d => double d.unsigned
  | array items => array (unsignedItems items)
  | object fields => object (unsignedFields fields)
  | v => v

/-- The items with every zero losing its sign. -/
def unsignedItems : List Json → List Json
  | [] => []
  | v :: vs => unsigned v :: unsignedItems vs

/-- The fields with every zero losing its sign. -/
def unsignedFields : List (String × Json) → List (String × Json)
  | [] => []
  | (k, v) :: es => (k, unsigned v) :: unsignedFields es

end

mutual

/-- **Two values are the same exactly if they are equal up to the signs of zeros.** -/
theorem same_iff (v v' : Json) : same v v' = true ↔ v.unsigned = v'.unsigned := by
  match v with
  | array items => cases v' with
    | array items' => simp [same, unsigned, sameItems_iff items items']
    | _ => simp [same, unsigned]
  | object fields => cases v' with
    | object fields' => simp [same, unsigned, sameFields_iff fields fields']
    | _ => simp [same, unsigned]
  | double d => cases v' <;> simp [same, unsigned, Double.same_iff]
  | null | bool _ | int _ | string _ => cases v' <;> simp [same, unsigned]

theorem sameItems_iff (vs vs' : List Json) :
    sameItems vs vs' = true ↔ unsignedItems vs = unsignedItems vs' := by
  match vs, vs' with
  | [], [] => simp [sameItems]
  | [], _ :: _ => simp [sameItems, unsignedItems]
  | _ :: _, [] => simp [sameItems, unsignedItems]
  | v :: vs, v' :: vs' =>
    simp [sameItems, unsignedItems, same_iff v v', sameItems_iff vs vs']

theorem sameFields_iff (es es' : List (String × Json)) :
    sameFields es es' = true ↔ unsignedFields es = unsignedFields es' := by
  match es, es' with
  | [], [] => simp [sameFields]
  | [], _ :: _ => simp [sameFields, unsignedFields]
  | _ :: _, [] => simp [sameFields, unsignedFields]
  | (k, v) :: es, (k', v') :: es' =>
    simp [sameFields, unsignedFields, same_iff v v', sameFields_iff es es', and_assoc]

end

instance : EquivBEq Json where
  rfl := by
    intro v
    exact (same_iff v v).mpr rfl
  symm h := (same_iff _ _).mpr ((same_iff _ _).mp h).symm
  trans h h' := (same_iff _ _).mpr (((same_iff _ _).mp h).trans ((same_iff _ _).mp h'))

/-- An integer and a double are never the same, and the two zeros are. -/
example : (int 0 == double (.zero false)) = false ∧ double (.zero false) == double (.zero true) :=
  ⟨rfl, rfl⟩

end Json

end ReactiveVars
