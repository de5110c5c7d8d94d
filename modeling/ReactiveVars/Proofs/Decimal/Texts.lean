import Mathlib.Data.List.Basic
import ReactiveVars.Proofs.Decimal.Rounding

/-!
# The text of a double tells the double

The text of a double writes the value of its shortest decimal, wherever the point stands and whether
or not there is an exponent. `magnitude` reads that value. Since the value rounds to the double, two
doubles with the same text are the same.
-/

namespace ReactiveVars.Double

/-! ## Reading a magnitude

`magnitude` is a reader made for the proof: it looks for the point and the mark, and takes all else
for digits. What `Writes` has written it reads as the value that was meant. -/

/-- The power of ten that is written behind a mantissa. -/
def powerOf : List Char → Int
  | 'e' :: '-' :: ds => -(Nat.ofDigitChars 10 ds 0 : Int)
  | 'e' :: _ :: ds => Nat.ofDigitChars 10 ds 0
  | _ => 0

/-- The magnitude that a text without sign writes. -/
def magnitude (cs : List Char) : ℚ :=
  let mantissa := cs.takeWhile (· ≠ 'e')
  let fraction := (mantissa.dropWhile (· ≠ '.')).drop 1
  Nat.ofDigitChars 10 (mantissa.takeWhile (· ≠ '.') ++ fraction) 0
    * 10 ^ (powerOf (cs.dropWhile (· ≠ 'e')) - fraction.length)

theorem ne_of_isDigit {c : Char} (h : c.isDigit = true) : c ≠ 'e' ∧ c ≠ '.' ∧ c ≠ '-' := by
  refine ⟨?_, ?_, ?_⟩ <;> rintro rfl <;> exact absurd h (by decide)

/-- Whether all characters are digits. -/
def AllDigits (cs : List Char) : Prop := ∀ c ∈ cs, c.isDigit = true

theorem AllDigits.append {cs cs' : List Char} (h : AllDigits cs) (h' : AllDigits cs') :
    AllDigits (cs ++ cs') := by
  intro c hc
  rcases List.mem_append.mp hc with hc | hc
  · exact h c hc
  · exact h' c hc

theorem allDigits_zeros (n : Nat) : AllDigits (List.replicate n '0') := by
  intro c hc
  rw [List.eq_of_mem_replicate hc]
  rfl

theorem allDigits_toDigits (n : Nat) : AllDigits (Nat.toDigits 10 n) :=
  fun _ hc ↦ Nat.isDigit_of_mem_toDigits (by decide) (by decide) hc

/-- An exponent behind a mantissa. -/
inductive IsPower : List Char → Prop
  | plus {ds : List Char} (h : AllDigits ds) : IsPower ('e' :: '+' :: ds)
  | minus {ds : List Char} (h : AllDigits ds) : IsPower ('e' :: '-' :: ds)

/-- The ways to write a magnitude, with the value that is written: there is a point, or an exponent,
or both. -/
inductive Writes : List Char → ℚ → Prop
  | point {whole fraction : List Char} (hw : AllDigits whole) (hne : whole ≠ [])
    (hf : AllDigits fraction) : Writes (whole ++ '.' :: fraction)
      (Nat.ofDigitChars 10 (whole ++ fraction) 0 * 10 ^ (-(fraction.length : Int)))
  | power {whole power : List Char} (hw : AllDigits whole) (hne : whole ≠ [])
    (hp : IsPower power) :
    Writes (whole ++ power) (Nat.ofDigitChars 10 whole 0 * 10 ^ powerOf power)
  | both {whole fraction power : List Char} (hw : AllDigits whole) (hne : whole ≠ [])
    (hf : AllDigits fraction) (hp : IsPower power) :
    Writes (whole ++ '.' :: (fraction ++ power)) (Nat.ofDigitChars 10 (whole ++ fraction) 0
      * 10 ^ (powerOf power - fraction.length))

theorem IsPower.cons {power : List Char} (h : IsPower power) : ∃ rest, power = 'e' :: rest := by
  rcases h with ⟨-⟩ | ⟨-⟩ <;> exact ⟨_, rfl⟩

private theorem AllDigits.takeWhile_point {whole : List Char} (hw : AllDigits whole)
    (rest : List Char) : (whole ++ rest).takeWhile (· ≠ '.') = whole ++ rest.takeWhile (· ≠ '.') ∧
      (whole ++ rest).dropWhile (· ≠ '.') = rest.dropWhile (· ≠ '.') := by
  have hwhole : ∀ c ∈ whole, decide (c ≠ '.') = true :=
    fun c hc ↦ decide_eq_true (ne_of_isDigit (hw c hc)).2.1
  exact ⟨List.takeWhile_append_of_pos hwhole, List.dropWhile_append_of_pos hwhole⟩

private theorem takeWhile_mark {cs : List Char} (h : ∀ c ∈ cs, c ≠ 'e') (rest : List Char) :
    (cs ++ rest).takeWhile (· ≠ 'e') = cs ++ rest.takeWhile (· ≠ 'e') ∧
      (cs ++ rest).dropWhile (· ≠ 'e') = rest.dropWhile (· ≠ 'e') := by
  have hcs : ∀ c ∈ cs, decide (c ≠ 'e') = true := fun c hc ↦ decide_eq_true (h c hc)
  exact ⟨List.takeWhile_append_of_pos hcs, List.dropWhile_append_of_pos hcs⟩

private theorem ne_mark_of_mantissa {whole fraction : List Char} (hw : AllDigits whole)
    (hf : AllDigits fraction) : ∀ c ∈ whole ++ '.' :: fraction, c ≠ 'e' := by
  intro c hc
  rcases List.mem_append.mp hc with hc | hc
  · exact (ne_of_isDigit (hw c hc)).1
  · rcases List.mem_cons.mp hc with rfl | hc
    · decide
    · exact (ne_of_isDigit (hf c hc)).1

theorem Writes.magnitude_eq {cs : List Char} {q : ℚ} (h : Writes cs q) : magnitude cs = q := by
  rcases h with ⟨hw, -, hf⟩ | ⟨hw, -, hp⟩ | ⟨hw, -, hf, hp⟩
  · next whole fraction =>
    have hmark := takeWhile_mark (ne_mark_of_mantissa hw hf) []
    have hpoint := hw.takeWhile_point ('.' :: fraction)
    rw [List.append_nil] at hmark
    rw [magnitude, hmark.1, hmark.2, List.takeWhile_nil, List.append_nil, hpoint.1, hpoint.2]
    simp [powerOf]
  · next whole power =>
    obtain ⟨rest, rfl⟩ := hp.cons
    have hmark := takeWhile_mark (fun c hc ↦ (ne_of_isDigit (hw c hc)).1) ('e' :: rest)
    have hpoint := hw.takeWhile_point []
    rw [List.append_nil] at hpoint
    rw [magnitude, hmark.1, hmark.2, List.takeWhile_cons_of_neg (by simp), List.append_nil,
      hpoint.1, hpoint.2]
    simp
  · next whole fraction power =>
    obtain ⟨rest, rfl⟩ := hp.cons
    have hmark := takeWhile_mark (ne_mark_of_mantissa hw hf) ('e' :: rest)
    have hpoint := hw.takeWhile_point ('.' :: fraction)
    rw [List.append_assoc, List.cons_append] at hmark
    rw [magnitude, hmark.1, hmark.2, List.takeWhile_cons_of_neg (by simp), List.append_nil,
      hpoint.1, hpoint.2]
    simp

/-- The characters of which numbers are made. -/
def IsNumberChar (c : Char) : Prop := c.isDigit = true ∨ c ∈ ['.', 'e', '+', '-']

private theorem IsPower.isNumberChar {power : List Char} (h : IsPower power) :
    ∀ c ∈ power, IsNumberChar c := by
  rcases h with ⟨hds⟩ | ⟨hds⟩ <;> intro c hc
  · rcases List.mem_cons.mp hc with rfl | hc
    · exact .inr (by simp)
    · rcases List.mem_cons.mp hc with rfl | hc
      · exact .inr (by simp)
      · exact .inl (hds c hc)
  · rcases List.mem_cons.mp hc with rfl | hc
    · exact .inr (by simp)
    · rcases List.mem_cons.mp hc with rfl | hc
      · exact .inr (by simp)
      · exact .inl (hds c hc)

/-- A magnitude starts with a digit, consists of the characters of numbers, and is not made of
digits alone. -/
theorem Writes.form {cs : List Char} {q : ℚ} (h : Writes cs q) :
    (∃ c rest, cs = c :: rest ∧ c.isDigit = true) ∧ (∀ c ∈ cs, IsNumberChar c) ∧
      ¬ AllDigits cs := by
  have hhead {whole tail : List Char} (hw : AllDigits whole) (hne : whole ≠ []) :
      ∃ c rest, whole ++ tail = c :: rest ∧ c.isDigit = true := by
    obtain ⟨c, rest, rfl⟩ := List.exists_cons_of_ne_nil hne
    exact ⟨c, rest ++ tail, rfl, hw c List.mem_cons_self⟩
  have hmark {cs : List Char} {c : Char} (hc : c ∈ cs) (hnot : ¬ c.isDigit = true) :
      ¬ AllDigits cs := fun hall ↦ hnot (hall c hc)
  rcases h with ⟨hw, hne, hf⟩ | ⟨hw, hne, hp⟩ | ⟨hw, hne, hf, hp⟩
  · refine ⟨hhead hw hne, fun c hc ↦ ?_, hmark (c := '.') (by simp) (by decide)⟩
    rcases List.mem_append.mp hc with hc | hc
    · exact .inl (hw c hc)
    · rcases List.mem_cons.mp hc with rfl | hc
      · exact .inr (by simp)
      · exact .inl (hf c hc)
  · obtain ⟨rest, hrest⟩ := hp.cons
    refine ⟨hhead hw hne, fun c hc ↦ ?_, hmark (c := 'e') (by simp [hrest]) (by decide)⟩
    rcases List.mem_append.mp hc with hc | hc
    · exact .inl (hw c hc)
    · exact hp.isNumberChar c hc
  · refine ⟨hhead hw hne, fun c hc ↦ ?_, hmark (c := '.') (by simp) (by decide)⟩
    rcases List.mem_append.mp hc with hc | hc
    · exact .inl (hw c hc)
    · rcases List.mem_cons.mp hc with rfl | hc
      · exact .inr (by simp)
      · rcases List.mem_append.mp hc with hc | hc
        · exact .inl (hf c hc)
        · exact hp.isNumberChar c hc

/-! ## Laying out digits

Three layouts without an exponent and one with it put the same digits down, and differ in where the
point falls and in the zeros that fill up the place to it. -/

theorem AllDigits.take {cs : List Char} (h : AllDigits cs) (n : Nat) : AllDigits (cs.take n) :=
  fun c hc ↦ h c (List.mem_of_mem_take hc)

theorem AllDigits.drop {cs : List Char} (h : AllDigits cs) (n : Nat) : AllDigits (cs.drop n) :=
  fun c hc ↦ h c (List.mem_of_mem_drop hc)

/-- The exponent as it is written behind a mantissa. -/
private theorem power_layOut (k : Int) :
    IsPower ((if 0 < k then ['e', '+'] else ['e', '-']) ++ Nat.toDigits 10 k.natAbs) ∧
      powerOf ((if 0 < k then ['e', '+'] else ['e', '-']) ++ Nat.toDigits 10 k.natAbs) = k := by
  have hds := allDigits_toDigits k.natAbs
  split
  · refine ⟨.plus hds, ?_⟩
    rw [List.cons_append, List.cons_append, List.nil_append, powerOf, Nat.ofDigitChars_ten_toDigits]
    · omega
    · intro h
      exact absurd h (by decide)
  · refine ⟨.minus hds, ?_⟩
    rw [List.cons_append, List.cons_append, List.nil_append, powerOf, Nat.ofDigitChars_ten_toDigits]
    omega

section Digits

variable {ds : List Char} (hds : AllDigits ds) (hne : ds ≠ [])

include hds hne

private theorem writes_zerosBehind (k : Nat) :
    Writes (ds ++ List.replicate k '0' ++ ['.', '0'])
      (Nat.ofDigitChars 10 ds 0 * 10 ^ (k : Int)) := by
  have hwrites := Writes.point (hds.append (allDigits_zeros k)) (by simp [hne]) (allDigits_zeros 1)
  rw [Nat.ofDigitChars_append, Nat.ofDigitChars_append, Nat.ofDigitChars_replicate_zero,
    Nat.ofDigitChars_replicate_zero, List.length_replicate] at hwrites
  -- the zero behind the point counts for the digits and for the point
  have hvalue : ((10 ^ 1 * (10 ^ k * Nat.ofDigitChars 10 ds 0) : Nat) : ℚ)
      * 10 ^ (-((1 : Nat) : Int)) = Nat.ofDigitChars 10 ds 0 * 10 ^ (k : Int) := by
    push_cast
    rw [zpow_neg, zpow_natCast]
    field_simp
  rw [hvalue] at hwrites
  exact hwrites

private theorem writes_pointInside {k : Nat} (hpos : 0 < k) (hk : k ≤ ds.length) :
    Writes (ds.take k ++ '.' :: ds.drop k)
      (Nat.ofDigitChars 10 ds 0 * 10 ^ (k - ds.length : Int)) := by
  have hwrites := Writes.point (hds.take k) (by simp [hne]; omega) (hds.drop k)
  have hplace : -((ds.length - k : Nat) : Int) = k - ds.length := by omega
  rw [List.take_append_drop, List.length_drop, hplace] at hwrites
  exact hwrites

omit hne in
private theorem writes_zerosAhead (k : Nat) :
    Writes ('0' :: '.' :: (List.replicate k '0' ++ ds))
      (Nat.ofDigitChars 10 ds 0 * 10 ^ (-(k + ds.length : Int))) := by
  have hwrites := Writes.point (allDigits_zeros 1) (by simp) ((allDigits_zeros k).append hds)
  rw [← List.append_assoc, List.replicate_append_replicate, Nat.ofDigitChars_append,
    Nat.ofDigitChars_replicate_zero, Nat.mul_zero, List.length_append, List.length_replicate,
    Nat.cast_add] at hwrites
  exact hwrites

/-- **The digits are laid out so that their value in steps of the exponent is written.** -/
theorem writes_layOut (exponent : Int) :
    Writes (layOut ds exponent) (Nat.ofDigitChars 10 ds 0 * 10 ^ exponent) := by
  have hlen : 0 < ds.length := List.length_pos_iff.mpr hne
  rw [layOut]
  simp only
  split
  · next h =>
    obtain ⟨k, rfl⟩ := Int.eq_ofNat_of_zero_le h.1
    exact writes_zerosBehind hds hne k
  split
  · next hbehind h =>
    obtain ⟨k, hk⟩ := Int.eq_ofNat_of_zero_le h.1.le
    have hplace : exponent = k - ds.length := by omega
    rw [hk, hplace]
    exact writes_pointInside hds hne (by omega) (by omega)
  split
  · next h =>
    obtain ⟨k, hk⟩ := Int.eq_ofNat_of_zero_le (show 0 ≤ -(ds.length + exponent) by omega)
    have hplace : exponent = -(k + ds.length : Int) := by omega
    rw [hk, hplace]
    exact writes_zerosAhead hds k
  -- an exponent, with a point behind the first digit if there are more
  obtain ⟨hpower, hvalue⟩ := power_layOut (ds.length + exponent - 1)
  rcases ds with _ | ⟨digit, rest⟩
  · exact absurd rfl hne
  have hdigit : AllDigits [digit] := fun c hc ↦ hds c (by simp_all)
  have hrest : AllDigits rest := fun c hc ↦ hds c (List.mem_cons_of_mem digit hc)
  rcases rest with _ | ⟨digit', rest⟩
  · have hwrites := Writes.power hdigit (by simp) hpower
    have hplace : ([digit].length : Int) + exponent - 1 = exponent := by simp
    rw [hvalue.trans hplace] at hwrites
    exact hwrites
  · have hwrites := Writes.both hdigit (by simp) hrest hpower
    have hplace : ((digit :: digit' :: rest).length : Int) + exponent - 1
        - (digit' :: rest).length = exponent := by simp; omega
    rw [hvalue, hplace] at hwrites
    exact hwrites

end Digits

/-! ## The text of a double -/

/-- The sign of a double as it is written. -/
def signText (negative : Bool) : List Char := if negative then ['-'] else []

/-- The text of a double is its sign and a magnitude that rounds to it. -/
theorem text_form (d : Double) :
    ∃ cs q, d.text.toList = signText d.negative ++ cs ∧ Writes cs q ∧ RoundsTo q d := by
  rw [text, signText]
  by_cases hzero : d.isZero = true
  · refine ⟨['0', '.', '0'], _, by rw [if_pos hzero, String.toList_ofList],
      .point (allDigits_zeros 1) (by simp) (allDigits_zeros 1), ?_⟩
    have hsig : d.significand = 0 := by simpa [isZero] using hzero
    have hself := roundsTo_units d
    rw [units, hsig, Nat.zero_shiftLeft, Nat.cast_zero, zero_div] at hself
    simpa [Nat.ofDigitChars] using hself
  · refine ⟨_, _, by rw [if_neg hzero, String.toList_ofList],
      writes_layOut (allDigits_toDigits _) Nat.toDigits_ne_nil _, ?_⟩
    rw [Nat.ofDigitChars_ten_toDigits]
    exact roundsTo_shortest d

/-- A sign is told from the digit that follows it. -/
theorem signText_append_inj {n n' : Bool} {cs cs' : List Char}
    (h : ∃ c rest, cs = c :: rest ∧ c.isDigit = true)
    (h' : ∃ c rest, cs' = c :: rest ∧ c.isDigit = true)
    (heq : signText n ++ cs = signText n' ++ cs') : n = n' ∧ cs = cs' := by
  obtain ⟨c, rest, rfl, hc⟩ := h
  obtain ⟨c', rest', rfl, hc'⟩ := h'
  have hne := (ne_of_isDigit hc).2.2
  have hne' := (ne_of_isDigit hc').2.2
  rcases n <;> rcases n'
  · exact ⟨rfl, heq⟩
  · exact absurd (List.cons.inj heq).1 hne
  · exact absurd (List.cons.inj heq).1.symm hne'
  · exact ⟨rfl, (List.cons.inj heq).2⟩

/-- **Two doubles with the same text are the same.** -/
theorem text_injective {d d' : Double} (h : d.text = d'.text) : d = d' := by
  obtain ⟨cs, q, htext, hwrites, hrounds⟩ := d.text_form
  obtain ⟨cs', q', htext', hwrites', hrounds'⟩ := d'.text_form
  rw [h, htext'] at htext
  obtain ⟨hsign, rfl⟩ := signText_append_inj hwrites'.form.1 hwrites.form.1 htext
  rw [← hwrites.magnitude_eq] at hrounds
  rw [← hwrites'.magnitude_eq] at hrounds'
  exact hrounds.unique hrounds' hsign.symm

end ReactiveVars.Double
