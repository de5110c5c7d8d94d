import ReactiveVars.Text.Utf8

/-!
# Reading back what is written in UTF-8

The bytes of a character are read as the character, whatever stands behind them. So a text can be
read back from its bytes. All of this is arithmetic of the numbers of characters and of bytes: the
leading byte tells how many bytes there are, and each of them has six digits of the number.

## Main statement

* `Utf8.decode?_encode`: the bytes of a text are read as the text.
-/

namespace ReactiveVars.Utf8

/-! ## Bytes as numbers

A byte below 256 is its number, so each test of the reader on a byte becomes a comparison of
numbers. -/

section Bytes

variable {a b : Nat}

private theorem ofNat_lt (k : Nat) (h : a < k) (hk : k < 256) : UInt8.ofNat a < UInt8.ofNat k := by
  have ha : a < 256 := Nat.lt_trans h hk
  rw [UInt8.lt_iff_toNat_lt, UInt8.toNat_ofNat_of_lt' hk, UInt8.toNat_ofNat_of_lt' ha]
  exact h

theorem not_ofNat_lt (k : Nat) (h : k ≤ a) (ha : a < 256) : ¬ UInt8.ofNat a < UInt8.ofNat k := by
  have hk : k < 256 := Nat.lt_of_le_of_lt h ha
  rw [UInt8.lt_iff_toNat_lt, UInt8.toNat_ofNat_of_lt' ha, UInt8.toNat_ofNat_of_lt' hk]
  exact Nat.not_lt.mpr h

private theorem payload_ofNat (hb : b < 256) : payload (UInt8.ofNat b) = b % 64 := by
  rw [payload, UInt8.toNat_ofNat_of_lt' hb]

private theorem isContinuation_ofNat (hb : b < 64) :
    isContinuation (UInt8.ofNat (b + 128)) = true := by
  have hmod : (b + 128) % 256 = b + 128 := by omega
  simp only [isContinuation, UInt8.le_iff_toNat_le, UInt8.toNat_ofNat, UInt8.toNat_ofNat', hmod,
    Nat.reducePow, Nat.reduceMod, Bool.and_eq_true, decide_eq_true_eq]
  omega

private theorem follows_ofNat (ha : 0xC2 ≤ a) (ha' : a ≤ 0xF4) (hb : 0x80 ≤ b) (hb' : b ≤ 0xBF)
    (hE0 : a = 0xE0 → 0xA0 ≤ b) (hED : a = 0xED → b ≤ 0x9F) (hF0 : a = 0xF0 → 0x90 ≤ b)
    (hF4 : a = 0xF4 → b ≤ 0x8F) : follows (UInt8.ofNat a) (UInt8.ofNat b) = true := by
  have hmod : a % 256 = a := by omega
  have hmod' : b % 256 = b := by omega
  simp only [follows, secondByte, UInt8.lt_iff_toNat_lt, ← UInt8.toNat_inj, UInt8.le_iff_toNat_le,
    UInt8.toNat_ofNat, UInt8.toNat_ofNat', hmod, hmod', Nat.reducePow, Nat.reduceMod]
  grind

end Bytes

/-! ## Characters -/

theorem encode_cons (c : Char) (cs : List Char) :
    encode (c :: cs) = String.utf8EncodeChar c ++ encode cs := List.flatMap_cons

theorem encode_append (cs cs' : List Char) : encode (cs ++ cs') = encode cs ++ encode cs' :=
  List.flatMap_append

private theorem toNat_valid (c : Char) :
    c.toNat < 0xD800 ∨ 0xDFFF < c.toNat ∧ c.toNat < 0x110000 := c.valid

/-- The bytes of a character, from its number. -/
theorem utf8EncodeChar_eq (c : Char) : String.utf8EncodeChar c =
    if c.toNat ≤ 0x7F then [UInt8.ofNat c.toNat]
    else if c.toNat ≤ 0x7FF then
      [UInt8.ofNat (c.toNat / 64 % 32 + 192), UInt8.ofNat (c.toNat % 64 + 128)]
    else if c.toNat ≤ 0xFFFF then
      [UInt8.ofNat (c.toNat / 4096 % 16 + 224), UInt8.ofNat (c.toNat / 64 % 64 + 128),
        UInt8.ofNat (c.toNat % 64 + 128)]
    else
      [UInt8.ofNat (c.toNat / 262144 % 8 + 240), UInt8.ofNat (c.toNat / 4096 % 64 + 128),
        UInt8.ofNat (c.toNat / 64 % 64 + 128), UInt8.ofNat (c.toNat % 64 + 128)] := rfl

theorem utf8EncodeChar_of_ascii {c : Char} (h : c.toNat < 0x80) :
    String.utf8EncodeChar c = [UInt8.ofNat c.toNat] := by
  rw [utf8EncodeChar_eq, if_pos (by omega)]

theorem le_of_mem_utf8EncodeChar {c : Char} {b : UInt8} (h : 0x80 ≤ c.toNat)
    (hb : b ∈ String.utf8EncodeChar c) : 0x80 ≤ b := by
  have hhigh {n : Nat} (hn : 128 ≤ n) (hn' : n < 256) : 0x80 ≤ UInt8.ofNat n := by
    rw [UInt8.le_iff_toNat_le, UInt8.toNat_ofNat_of_lt' hn']
    exact hn
  rw [utf8EncodeChar_eq, if_neg (by omega)] at hb
  split at hb
  · simp only [List.mem_cons, List.not_mem_nil, or_false] at hb
    rcases hb with rfl | rfl <;> exact hhigh (by omega) (by omega)
  split at hb
  · simp only [List.mem_cons, List.not_mem_nil, or_false] at hb
    rcases hb with rfl | rfl | rfl <;> exact hhigh (by omega) (by omega)
  · simp only [List.mem_cons, List.not_mem_nil, or_false] at hb
    rcases hb with rfl | rfl | rfl | rfl <;> exact hhigh (by omega) (by omega)

/-! ## Reading a character

There is one case for each length of a code, and each is the same calculation with more digits: the
payloads of the bytes put together give back the number, and the bounds on the second byte keep out
what a shorter code could have said. -/

section Reading

variable {done : List (Option Char)} {a b c d : UInt8} {rest : List UInt8}

private theorem readPieces_one (ha : a < 0x80) :
    readPieces done (a :: rest) = readPieces (some (Char.ofNat a.toNat) :: done) rest := by
  rw [readPieces.eq_def]
  simp only [ha, if_true]

private theorem readPieces_two (ha : ¬ a < 0x80) (hb : follows a b = true) (htwo : a < 0xE0) :
    readPieces done (a :: b :: rest)
      = readPieces (some (Char.ofNat (a.toNat % 32 * 64 + payload b)) :: done) rest := by
  rw [readPieces.eq_def]
  simp only [ha, if_false, hb, Bool.not_true, Bool.false_eq_true, htwo, if_true]

private theorem readPieces_three (ha : ¬ a < 0xE0) (hb : follows a b = true)
    (hc : isContinuation c = true) (hthree : a < 0xF0) :
    readPieces done (a :: b :: c :: rest) = readPieces
      (some (Char.ofNat ((a.toNat % 16 * 64 + payload b) * 64 + payload c)) :: done) rest := by
  have hlow : ¬ a < 0x80 := fun h ↦ ha (UInt8.lt_trans h (by decide))
  rw [readPieces.eq_def]
  simp only [hlow, ha, if_false, hb, hc, Bool.not_true, Bool.false_eq_true, hthree, if_true]

private theorem readPieces_four (ha : ¬ a < 0xF0) (hb : follows a b = true)
    (hc : isContinuation c = true) (hd : isContinuation d = true) :
    readPieces done (a :: b :: c :: d :: rest) = readPieces
      (some (Char.ofNat (((a.toNat % 8 * 64 + payload b) * 64 + payload c) * 64 + payload d))
        :: done) rest := by
  have hlow : ¬ a < 0x80 := fun h ↦ ha (UInt8.lt_trans h (by decide))
  have htwo : ¬ a < 0xE0 := fun h ↦ ha (UInt8.lt_trans h (by decide))
  rw [readPieces.eq_def]
  simp only [hlow, htwo, ha, if_false, hb, hc, hd, Bool.not_true, Bool.false_eq_true]

end Reading

/-- **The bytes of a character are read as the character.** -/
theorem readPieces_utf8EncodeChar (done : List (Option Char)) (c : Char) (rest : List UInt8) :
    readPieces done (String.utf8EncodeChar c ++ rest) = readPieces (some c :: done) rest := by
  have hvalid := toNat_valid c
  have hchar {n : Nat} (hn : n = c.toNat) : Char.ofNat n = c := by rw [hn, Char.ofNat_toNat]
  have hcont (n : Nat) : isContinuation (UInt8.ofNat (n % 64 + 128)) = true :=
    isContinuation_ofNat (Nat.mod_lt n (by decide))
  have hpayload (n : Nat) : payload (UInt8.ofNat (n % 64 + 128)) = n % 64 := by
    rw [payload_ofNat (by omega)]
    omega
  -- by the length of the code; the payloads are the digits of the number to the base 64
  rw [utf8EncodeChar_eq]
  split
  · next h =>
    rw [List.cons_append, List.nil_append, readPieces_one (ofNat_lt 0x80 (by omega) (by decide)),
      UInt8.toNat_ofNat_of_lt' (by simp only [UInt8.size]; omega), hchar rfl]
  split
  · next h =>
    have hlow := not_ofNat_lt 0x80 (show 0x80 ≤ c.toNat / 64 % 32 + 192 by omega) (by omega)
    have htwo := ofNat_lt 0xE0 (show c.toNat / 64 % 32 + 192 < 0xE0 by omega) (by decide)
    have hsecond : follows (UInt8.ofNat (c.toNat / 64 % 32 + 192))
        (UInt8.ofNat (c.toNat % 64 + 128)) = true := by
      apply follows_ofNat <;> omega
    rw [List.cons_append, List.cons_append, List.nil_append, readPieces_two hlow hsecond htwo,
      hpayload, UInt8.toNat_ofNat_of_lt' (by simp only [UInt8.size]; omega), hchar (by omega)]
  split
  · next h =>
    have htwo := not_ofNat_lt 0xE0 (show 0xE0 ≤ c.toNat / 4096 % 16 + 224 by omega) (by omega)
    have hthree := ofNat_lt 0xF0 (show c.toNat / 4096 % 16 + 224 < 0xF0 by omega) (by decide)
    have hsecond : follows (UInt8.ofNat (c.toNat / 4096 % 16 + 224))
        (UInt8.ofNat (c.toNat / 64 % 64 + 128)) = true := by
      apply follows_ofNat <;> omega
    rw [List.cons_append, List.cons_append, List.cons_append, List.nil_append,
      readPieces_three htwo hsecond (hcont _) hthree, hpayload, hpayload,
      UInt8.toNat_ofNat_of_lt' (by simp only [UInt8.size]; omega), hchar (by omega)]
  · next h =>
    have hthree := not_ofNat_lt 0xF0 (show 0xF0 ≤ c.toNat / 262144 % 8 + 240 by omega) (by omega)
    have hsecond : follows (UInt8.ofNat (c.toNat / 262144 % 8 + 240))
        (UInt8.ofNat (c.toNat / 4096 % 64 + 128)) = true := by
      apply follows_ofNat <;> omega
    rw [List.cons_append, List.cons_append, List.cons_append, List.cons_append, List.nil_append,
      readPieces_four hthree hsecond (hcont _) (hcont _), hpayload, hpayload, hpayload,
      UInt8.toNat_ofNat_of_lt' (by simp only [UInt8.size]; omega), hchar (by omega)]

/-! ## Texts -/

private theorem readPieces_encode (done : List (Option Char)) (cs : List Char) :
    readPieces done (encode cs) = done.reverse ++ cs.map some := by
  induction cs generalizing done with
  | nil => rw [encode, List.flatMap_nil, readPieces, List.map_nil, List.append_nil]
  | cons c cs ih =>
    rw [encode_cons, readPieces_utf8EncodeChar, ih, List.reverse_cons, List.append_assoc,
      List.map_cons, List.cons_append, List.nil_append]

/-- **The bytes of a text are read as the text.** -/
theorem decode?_encode (cs : List Char) : decode? (encode cs) = some (String.ofList cs) := by
  have hpieces : pieces (encode cs) = cs.map some := readPieces_encode [] cs
  rw [decode?, hpieces, List.all_map, List.filterMap_map]
  simp [Function.comp_def]

end ReactiveVars.Utf8
