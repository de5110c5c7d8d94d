import Mathlib.Algebra.Order.Field.Power
import Mathlib.Data.Rat.Cast.Order
import Mathlib.Tactic.FieldSimp
import Mathlib.Tactic.Ring
import ReactiveVars.Decimal.Shortest

/-!
# Rounding depends on the value alone

`nearest?` works on a fraction of natural numbers. It gives the same double for two fractions of the
same value, so one may speak of the double next to a rational number: `RoundsTo`. The shortest
decimal of a double was chosen among decimals that round to it, and taking zeros off its end does
not change its value; where none was found, the decimal that was taken is the double itself. So the
value of the shortest decimal always rounds to the double.
-/

namespace ReactiveVars.Double

/-! ## Fractions of the same value

Two fractions of one value become equal when both are expanded, and expanding a fraction changes
neither its quotients nor which of two doubles is nearer. -/

private theorem div_eq_of_cross {a b d e : Nat} (hd : 0 < d) (he : 0 < e) (h : a * e = b * d) :
    a / d = b / e := by
  rw [← Nat.mul_div_mul_right a d he, h, Nat.mul_comm d e, Nat.mul_div_mul_right b e hd]

private theorem roundedQuotient_mul (a d : Nat) {c : Nat} (hc : 0 < c) :
    roundedQuotient (a * c) (d * c) = roundedQuotient a d := by
  have hlt (x y : Nat) : x * c < y * c ↔ x < y := Nat.mul_lt_mul_right hc
  rw [roundedQuotient, roundedQuotient, Nat.mul_div_mul_right a d hc, Nat.mul_mod_mul_right]
  simp only [← Nat.mul_assoc, hlt]

private theorem roundedQuotient_congr {a b d e : Nat} (hd : 0 < d) (he : 0 < e)
    (h : a * e = b * d) : roundedQuotient a d = roundedQuotient b e := by
  rw [← roundedQuotient_mul a d he, h, Nat.mul_comm d e, roundedQuotient_mul b e hd]

theorem nearest?_congr (negative : Bool) {num den num' den' : Nat} (hden : 0 < den)
    (hden' : 0 < den') (h : num * den' = num' * den) :
    nearest? negative num den = nearest? negative num' den' := by
  have hunits : num * unitsPerOne * den' = num' * unitsPerOne * den := by
    rw [Nat.mul_right_comm, h, Nat.mul_right_comm]
  have hquotient := div_eq_of_cross hden hden' hunits
  have hrounded (k : Nat) : roundedQuotient (num * unitsPerOne) (den <<< k)
      = roundedQuotient (num' * unitsPerOne) (den' <<< k) := by
    have hpos : 0 < 2 ^ k := Nat.two_pow_pos k
    rw [Nat.shiftLeft_eq, Nat.shiftLeft_eq]
    refine roundedQuotient_congr (Nat.mul_pos hden hpos) (Nat.mul_pos hden' hpos) ?_
    rw [← Nat.mul_assoc, ← Nat.mul_assoc, hunits]
  -- a double is chosen by the place of the leading digit, and the quotient rounded at that place
  rw [nearest?, nearest?]
  simp only [hquotient, hrounded]

/-! ## Rounding a rational number -/

/-- Whether a magnitude rounds to a double. -/
def RoundsTo (q : ℚ) (d : Double) : Prop :=
  ∃ num den : Nat, 0 < den ∧ (num : ℚ) / den = q ∧ nearest? d.negative num den = some d

theorem RoundsTo.unique {q : ℚ} {d d' : Double} (h : RoundsTo q d) (h' : RoundsTo q d')
    (hsign : d.negative = d'.negative) : d = d' := by
  obtain ⟨num, den, hden, hvalue, hnear⟩ := h
  obtain ⟨num', den', hden', hvalue', hnear'⟩ := h'
  have hq : (den : ℚ) ≠ 0 := by exact_mod_cast hden.ne'
  have hq' : (den' : ℚ) ≠ 0 := by exact_mod_cast hden'.ne'
  have hcross : num * den' = num' * den := by
    rw [← hvalue', div_eq_div_iff hq hq'] at hvalue
    exact_mod_cast hvalue
  rw [nearest?_congr d.negative hden hden' hcross, hsign, hnear', Option.some_inj] at hnear
  exact hnear.symm

private theorem ofParts?_self (d : Double) :
    ofParts? d.negative d.significand d.scale = some d := by
  rw [ofParts?, dif_pos ⟨d.significand_lt, d.normal, d.scale_le⟩]

private theorem unitsPerOne_pos : 0 < unitsPerOne := by decide +kernel

/-- The place of the leading digit of a double gives back its scale. -/
private theorem log2_units (d : Double) : d.units.log2 - 52 = d.scale := by
  rw [units, Nat.shiftLeft_eq]
  have hlt := d.significand_lt
  rw [Nat.shiftLeft_eq, Nat.one_mul] at hlt
  -- a significand has 53 digits unless the scale is the least one
  rcases d.normal with hnormal | hzero
  · rw [Nat.shiftLeft_eq, Nat.one_mul] at hnormal
    have hpos : 0 < 2 ^ d.scale := Nat.two_pow_pos d.scale
    have hlog : (d.significand * 2 ^ d.scale).log2 = 52 + d.scale := by
      have hne : d.significand * 2 ^ d.scale ≠ 0 :=
        (Nat.mul_pos (Nat.lt_of_lt_of_le (Nat.two_pow_pos 52) hnormal) hpos).ne'
      rw [Nat.log2_eq_iff hne, Nat.pow_add, show 52 + d.scale + 1 = 53 + d.scale by omega,
        Nat.pow_add]
      exact ⟨Nat.mul_le_mul_right _ hnormal, Nat.mul_lt_mul_of_pos_right hlt hpos⟩
    omega
  · rw [hzero, Nat.pow_zero, Nat.mul_one]
    rcases Nat.eq_zero_or_pos d.significand with hsig | hsig
    · rw [hsig]
      rfl
    · have hlog := (Nat.log2_lt hsig.ne').mpr hlt
      omega

/-- A double rounds to itself. -/
theorem roundsTo_units (d : Double) : RoundsTo ((d.units : ℚ) / unitsPerOne) d := by
  refine ⟨d.units, unitsPerOne, unitsPerOne_pos, rfl, ?_⟩
  have hquotient : roundedQuotient (d.units * unitsPerOne) (unitsPerOne <<< d.scale)
      = d.significand := by
    have hpos : 0 < unitsPerOne * 2 ^ d.scale :=
      Nat.mul_pos unitsPerOne_pos (Nat.two_pow_pos d.scale)
    have hnum : d.units * unitsPerOne = d.significand * (unitsPerOne * 2 ^ d.scale) := by
      rw [units, Nat.shiftLeft_eq]
      ring
    rw [roundedQuotient, Nat.shiftLeft_eq, hnum, Nat.mul_div_cancel _ hpos, Nat.mul_mod_left]
    simp only [Nat.mul_zero, if_pos hpos]
  rw [nearest?]
  simp only [Nat.mul_div_cancel _ unitsPerOne_pos, log2_units, hquotient, if_pos d.significand_lt,
    ofParts?_self]

/-! ## The shortest decimal

The decimal has been tested before it was chosen, so it rounds to the double whatever the search for
it does. Only where no decimal passed does the exact one stand in. -/

/-- The value of a decimal. -/
def Decimal.value (c : Decimal) : ℚ := c.digits * 10 ^ c.exponent

theorem roundsTo_of_ofDecimal? {d : Double} {c : Decimal}
    (h : ofDecimal? d.negative c.digits c.exponent = some d) : RoundsTo c.value d := by
  rw [ofDecimal?] at h
  rw [Decimal.value]
  split at h
  · next hexp =>
    refine ⟨_, 1, Nat.one_pos, ?_, h⟩
    obtain ⟨k, hk⟩ := Int.eq_ofNat_of_zero_le hexp
    rw [hk]
    simp
  · next hexp =>
    refine ⟨_, _, Nat.pow_pos (by decide), ?_, h⟩
    obtain ⟨k, hk⟩ := Int.eq_ofNat_of_zero_le (show 0 ≤ -c.exponent by omega)
    have hneg : c.exponent = -(k : Int) := by omega
    rw [hneg]
    simp [div_eq_mul_inv]

theorem value_trimZeros (fuel : Nat) (c : Decimal) : (trimZeros fuel c).value = c.value := by
  induction fuel generalizing c with
  | zero => rfl
  | succ fuel ih =>
    rw [trimZeros]
    split
    · next h =>
      obtain ⟨k, hk⟩ := Nat.dvd_of_mod_eq_zero h.1
      rw [ih, Decimal.value, Decimal.value, hk, Nat.mul_div_cancel_left k (by decide),
        zpow_add_one₀ (by norm_num)]
      push_cast
      ring
    · rfl

private theorem roundsTo_of_onGrid? {d : Double} {exponent : Int} {c : Decimal}
    (h : onGrid? d exponent = some c) : RoundsTo c.value d := by
  have hreads {c : Decimal} (hc : readsBack d c = true) : RoundsTo c.value d :=
    roundsTo_of_ofDecimal? (of_decide_eq_true hc)
  rw [onGrid?] at h
  rcases inSteps d.units unitsPerOne exponent with ⟨num, den⟩
  simp only at h
  split at h
  · exact absurd h (by simp)
  · next hbelow _ => rw [← Option.some_inj.mp h]; exact hreads hbelow
  · next _ habove => rw [← Option.some_inj.mp h]; exact hreads habove
  · next hbelow habove =>
    split at h
    · rw [← Option.some_inj.mp h]; exact hreads hbelow
    · rw [← Option.some_inj.mp h]; exact hreads habove

private theorem cast_unitsPerOne {n : Nat} (h : 1074 = n) : (unitsPerOne : ℚ) = 2 ^ n := by
  rw [unitsPerOne, Nat.one_shiftLeft, h, Nat.cast_pow, Nat.cast_ofNat]

theorem value_exactDecimal (d : Double) :
    (exactDecimal d).value = (d.units : ℚ) / unitsPerOne := by
  have hunits : (d.units : ℚ) = d.significand * 2 ^ d.scale := by
    rw [units, Nat.shiftLeft_eq, Nat.cast_mul, Nat.cast_pow, Nat.cast_ofNat]
  rw [exactDecimal, hunits]
  split
  · next hscale =>
    obtain ⟨k, hk⟩ := Nat.exists_eq_add_of_le hscale
    rw [Decimal.value, Nat.shiftLeft_eq, cast_unitsPerOne rfl]
    generalize 1074 = n at hk ⊢
    rw [hk, Nat.add_sub_cancel_left, pow_add]
    push_cast
    field_simp
  · next hscale =>
    obtain ⟨k, hk⟩ := Nat.exists_eq_add_of_le (Nat.le_of_not_le hscale)
    have hexp : (d.scale : Int) - 1074 = -(k : Int) := by omega
    rw [Decimal.value, hexp, cast_unitsPerOne hk, hk, Nat.add_sub_cancel_left, pow_add,
      show (10 : ℚ) = 2 * 5 by norm_num, zpow_neg, zpow_natCast, mul_pow, Nat.pow_eq]
    push_cast
    field_simp

/-- **The value of the shortest decimal rounds to the double.** -/
theorem roundsTo_shortest (d : Double) : RoundsTo d.shortest.value d := by
  rw [shortest, value_trimZeros]
  rcases h : (List.range 17).findSome? _ with _ | c
  · rw [Option.getD_none, value_exactDecimal]
    exact roundsTo_units d
  · obtain ⟨n, -, hn⟩ := List.exists_of_findSome?_eq_some h
    exact roundsTo_of_onGrid? hn

end ReactiveVars.Double
