import ReactiveVars.Proofs.Json.Tokens

/-!
# The text of a double is one number

However the digits of a double are laid out, its text is cut into a single token: the digits before
the point do not start with a useless zero, and there are digits behind the point and in the
exponent if these are written. What the number stands for is another question: it may be a
neighbour of the double, or beyond the range.

## Main statement

* `tokensOf_text`: the text of a double is one token in front of all that may stand behind a value.
-/

namespace ReactiveVars

/-! ## The layout of the digits -/

namespace Double

/-- A fraction as it is written, if it has digits. -/
def fractionText (fraction : List Char) : List Char :=
  if fraction = [] then [] else '.' :: fraction

/-- The texts that may stand for an exponent. -/
inductive IsPowerText : List Char → Prop
  | absent : IsPowerText []
  | plus {ds : List Char} (hds : AllDigits ds) (hne : ds ≠ []) : IsPowerText ('e' :: '+' :: ds)
  | minus {ds : List Char} (hds : AllDigits ds) (hne : ds ≠ []) : IsPowerText ('e' :: '-' :: ds)

/-- The texts of a number without sign. A zero is not followed by further digits. -/
inductive IsNumberText : List Char → Prop
  | parts {whole fraction power : List Char} (hwhole : AllDigits whole) (hne : whole ≠ [])
    (hzero : ∀ c tail, whole ≠ '0' :: c :: tail) (hfraction : AllDigits fraction)
    (hpower : IsPowerText power) : IsNumberText (whole ++ (fractionText fraction ++ power))

private theorem isPowerText_layOut (k : Int) :
    IsPowerText ((if 0 < k then ['e', '+'] else ['e', '-']) ++ Nat.toDigits 10 k.natAbs) := by
  split
  · exact .plus (allDigits_toDigits _) Nat.toDigits_ne_nil
  · exact .minus (allDigits_toDigits _) Nat.toDigits_ne_nil

/-- **Digits are laid out as a number**, if there is no zero ahead of them. -/
theorem isNumberText_layOut {digit : Char} {rest : List Char} (hds : AllDigits (digit :: rest))
    (hdigit : digit ≠ '0') (exponent : Int) : IsNumberText (layOut (digit :: rest) exponent) := by
  have hzero (more : List Char) : ∀ c tail, digit :: more ≠ '0' :: c :: tail :=
    fun c tail h ↦ hdigit (List.cons.inj h).1
  have hhead : AllDigits [digit] := fun c hc ↦ hds c (by simp_all)
  have hnone : AllDigits [] := fun c hc ↦ absurd hc (by simp)
  rw [layOut]
  simp only
  split
  · have hparts := IsNumberText.parts (hds.append (allDigits_zeros exponent.toNat)) (by simp)
      (hzero _) (allDigits_zeros 1) .absent
    rw [List.append_nil] at hparts
    exact hparts
  split
  · next hbehind h =>
    obtain ⟨k, hk⟩ := Int.eq_ofNat_of_zero_le h.1.le
    obtain ⟨k, rfl⟩ : ∃ n, k = n + 1 := ⟨k - 1, by omega⟩
    have hne : (digit :: rest).drop (k + 1) ≠ [] := by
      rw [ne_eq, List.drop_eq_nil_iff]
      omega
    have hparts := IsNumberText.parts (hds.take (k + 1)) (by simp) (hzero _) (hds.drop (k + 1))
      .absent
    rw [fractionText, if_neg hne, List.append_nil] at hparts
    rw [hk]
    exact hparts
  split
  · have hparts := IsNumberText.parts (allDigits_zeros 1) (by simp) (by simp)
      ((allDigits_zeros (-((digit :: rest).length + exponent)).toNat).append hds) .absent
    rw [fractionText, if_neg (by simp), List.append_nil] at hparts
    exact hparts
  · -- with an exponent the point stands behind the first digit, if there are more
    have hpower := isPowerText_layOut ((digit :: rest).length + exponent - 1)
    rcases rest with _ | ⟨digit', rest⟩
    · exact .parts hhead (by simp) (hzero _) hnone hpower
    · exact .parts hhead (by simp) (hzero _) (fun c hc ↦ hds c (List.mem_cons_of_mem digit hc))
        hpower

private theorem shortest_digits_ne_zero {d : Double} (h : d.isZero = false) :
    d.shortest.digits ≠ 0 := by
  intro hdigits
  have hrounds := roundsTo_shortest d
  have hzero := roundsTo_units (zero d.negative)
  have hunits : (zero d.negative).units = 0 := Nat.zero_shiftLeft 0
  rw [Decimal.value, hdigits, Nat.cast_zero, zero_mul] at hrounds
  rw [hunits, Nat.cast_zero, zero_div] at hzero
  rw [hrounds.unique hzero rfl] at h
  exact Bool.noConfusion h

private theorem toDigits_head_ne_zero {n : Nat} (h : n ≠ 0) :
    ∃ digit rest, Nat.toDigits 10 n = digit :: rest ∧ digit ≠ '0' := by
  obtain ⟨digit, rest, hds⟩ := List.exists_cons_of_ne_nil (Nat.toDigits_ne_nil (n := n) (b := 10))
  refine ⟨digit, rest, hds, ?_⟩
  rintro rfl
  rcases rest with _ | ⟨c, rest⟩
  · have hvalue := Nat.ofDigitChars_ten_toDigits (n := n)
    rw [hds] at hvalue
    exact h (by rw [← hvalue]; rfl)
  · exact Json.toDigits_ne_zero_cons n c rest hds

theorem text_isNumberText (d : Double) :
    ∃ cs, d.text.toList = signText d.negative ++ cs ∧ IsNumberText cs := by
  rw [text, signText]
  rcases hzero : d.isZero with _ | _
  · obtain ⟨digit, rest, hds, hdigit⟩ := toDigits_head_ne_zero (shortest_digits_ne_zero hzero)
    refine ⟨_, by rw [if_neg (by simp), String.toList_ofList], ?_⟩
    rw [hds]
    exact isNumberText_layOut (hds ▸ allDigits_toDigits _) hdigit _
  · refine ⟨['0', '.', '0'], by rw [if_pos rfl, String.toList_ofList], ?_⟩
    exact .parts (allDigits_zeros 1) (by simp) (by simp) (allDigits_zeros 1) .absent

end Double

/-! ## The parts of a number

Each part is scanned in front of the next, which starts with a character that ends it: a point, a
mark, or what stands behind the value. -/

namespace Json

open Double

variable {rest : List UInt8}

private theorem endsDigits_nil : EndsDigits [] := fun b hb ↦ absurd hb (by simp)

private theorem endsDigits_cons {b : UInt8} (h : isDigit b = false) (bytes : List UInt8) :
    EndsDigits (b :: bytes) := by
  intro b' hb'
  rwa [← Option.some_inj.mp hb']

private theorem isEmpty_digits {cs : List Char} (hcs : AllDigits cs) (hne : cs ≠ [])
    (h : EndsDigits rest) : (digits (Utf8.encode cs ++ rest)).isEmpty = false := by
  rw [(digits_encode hcs h).1, List.isEmpty_eq_false_iff, ne_eq, List.map_eq_nil_iff]
  exact hne

private theorem scanFraction_of_ne_point (h : ∀ b ∈ rest.head?, b ≠ 0x2E) :
    scanFraction rest = .ok (none, rest) := by
  rcases rest with _ | ⟨b, rest⟩
  · rfl
  · rw [scanFraction_cons, if_neg (h b rfl)]

private theorem scanFraction_text {fraction : List Char} (hfraction : AllDigits fraction)
    (hdigit : EndsDigits rest) (hpoint : ∀ b ∈ rest.head?, b ≠ 0x2E) :
    ∃ found, scanFraction (Utf8.encode (fractionText fraction) ++ rest) = .ok (found, rest) := by
  rw [fractionText]
  split
  · exact ⟨none, scanFraction_of_ne_point hpoint⟩
  · next hne =>
    have hcons : Utf8.encode ('.' :: fraction) ++ rest = 0x2E :: (Utf8.encode fraction ++ rest) :=
      rfl
    refine ⟨some (digits (Utf8.encode fraction ++ rest)), ?_⟩
    rw [hcons, scanFraction_cons, if_pos rfl, isEmpty_digits hfraction hne hdigit,
      (digits_encode hfraction hdigit).2]
    rfl

private theorem scanPower_text {power : List Char} (h : IsPowerText power) :
    ∃ found, scanPower (Utf8.encode power) = .ok (found, []) := by
  have hscan (sign : UInt8) {ds : List Char} (hds : AllDigits ds) (hne : ds ≠ [])
      (hsign : (scanSign (sign :: Utf8.encode ds)).2 = Utf8.encode ds) :
      ∃ found, scanPower (0x65 :: sign :: Utf8.encode ds) = .ok (found, []) := by
    have hempty := isEmpty_digits hds hne endsDigits_nil
    have hafter := (digits_encode hds endsDigits_nil).2
    rw [List.append_nil] at hempty hafter
    rw [scanPower, if_pos (by simp)]
    simp only [hsign, hempty, hafter]
    exact ⟨_, rfl⟩
  rcases h with _ | ⟨hds, hne⟩ | ⟨hds, hne⟩
  · exact ⟨none, rfl⟩
  · exact hscan 0x2B hds hne rfl
  · exact hscan 0x2D hds hne rfl

/-- **A number is scanned to its end.** -/
theorem scanNumber_text {cs : List Char} (h : IsNumberText cs) (negative : Bool) :
    ∃ literal, scanNumber negative (Utf8.encode cs) = .ok (literal, []) := by
  obtain @⟨whole, fraction, power, hwhole, hne, hzero, hfraction, hpower⟩ := h
  -- neither an exponent nor a fraction goes on with what stands before it
  have hmark : EndsDigits (Utf8.encode power) ∧ ∀ b ∈ (Utf8.encode power).head?, b ≠ 0x2E := by
    rcases hpower with _ | _ | _
    · exact ⟨endsDigits_nil, by simp [Utf8.encode]⟩
    · exact ⟨endsDigits_cons (by decide) _, by rintro b ⟨⟩; decide⟩
    · exact ⟨endsDigits_cons (by decide) _, by rintro b ⟨⟩; decide⟩
  have hpoint : EndsDigits (Utf8.encode (fractionText fraction ++ power)) := by
    rw [fractionText]
    split
    · exact hmark.1
    · exact endsDigits_cons (by decide) _
  obtain ⟨fractionFound, hscan⟩ := scanFraction_text hfraction hmark.1 hmark.2
  obtain ⟨powerFound, hscan'⟩ := scanPower_text hpower
  refine ⟨⟨negative, whole.map fun c ↦ c.toNat - 0x30, fractionFound, powerFound⟩, ?_⟩
  rw [Utf8.encode_append, scanNumber_digits hwhole hne hzero hpoint, Utf8.encode_append, hscan]
  show (scanPower (Utf8.encode power) >>= _) = _
  rw [hscan']
  rfl

/-- **The text of a double is one token** in front of all that may stand behind a value. -/
theorem tokensOf_text (d : Double) : ∃ literal, ∀ {rest : List Char}, Closes rest →
    tokensOf (d.text.toList ++ rest) = .number literal :: tokensOf rest := by
  obtain ⟨cs, htext, hnumber⟩ := d.text_isNumberText
  obtain ⟨literal, hscan⟩ := scanNumber_text hnumber d.negative
  obtain ⟨cs', q, htext', hwrites, -⟩ := d.text_form
  rw [htext'] at htext
  obtain rfl := List.append_cancel_left htext
  refine ⟨literal, fun hrest ↦ ?_⟩
  rw [htext', tokensOf_of_scanNumber hwrites.form.1 hscan hrest]
  rfl

end Json

end ReactiveVars
