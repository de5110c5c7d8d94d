import Mathlib.Data.List.Basic
import ReactiveVars.Json.Reader
import ReactiveVars.Proofs.Json.Texts
import ReactiveVars.Proofs.Text.Utf8

/-!
# The tokens of what is written

Cutting a text into tokens undoes the writing of what the tokens stand for. A bracket, a mark or a
word is a token whatever follows it, and so is a string, since its escapes are read as the
characters they stand for. A number is a token if it is followed by what stands behind a value: the
end of the text, a comma, or a closing bracket.
-/

namespace ReactiveVars.Json

open Double

/-- The tokens of a text. -/
def tokensOf (cs : List Char) : List Token := tokens (Utf8.encode cs)

/-! ## One token after the other

Reading tokens goes on as long as characters are left. Every token takes some, so the rest gets
shorter and the tokens of a text are those of its first token and of what is behind it. -/

private theorem readTokens_eq (done : List Token) (bytes : List UInt8) :
    readTokens done bytes = done.reverse ++ tokens bytes := by
  induction hn : bytes.length using Nat.strong_induction_on generalizing done bytes with
  | _ n ih =>
    subst hn
    rw [tokens, readTokens.eq_def done, readTokens.eq_def []]
    split
    · rw [List.reverse_nil, List.append_nil]
    · next token rest h =>
      have hlt := Token.next_shorter h
      rw [ih _ hlt (token :: done) rest rfl, ih _ hlt [token] rest rfl]
      simp

theorem tokensOf_nil : tokensOf [] = [] := by
  rw [tokensOf, tokens, readTokens.eq_def]
  rfl

theorem tokens_of_nextToken {bytes rest : List UInt8} {token : Token}
    (h : nextToken bytes = some (token, rest)) : tokens bytes = token :: tokens rest := by
  rw [tokens, readTokens.eq_def]
  split
  · next hnone =>
    rw [h] at hnone
    exact absurd hnone (by simp)
  · next hsome =>
    rw [h, Option.some_inj, Prod.mk.injEq] at hsome
    rw [readTokens_eq, ← hsome.1, ← hsome.2]
    rfl

theorem tokens_cons {b : UInt8} {rest rest' : List UInt8} {token : Token}
    (hb : isBlank b = false) (h : tokenAt b rest = (token, rest')) :
    tokens (b :: rest) = token :: tokens rest' := by
  refine tokens_of_nextToken ?_
  rw [nextToken, List.dropWhile_cons_of_neg (by simp [hb])]
  simp only [h]

/-! ## Brackets, marks and words -/

theorem tokensOf_bracket (cs : List Char) : tokensOf ('[' :: cs) = .beginArray :: tokensOf cs :=
  tokens_cons rfl rfl

theorem tokensOf_closingBracket (cs : List Char) :
    tokensOf (']' :: cs) = .endArray :: tokensOf cs :=
  tokens_cons rfl rfl

theorem tokensOf_brace (cs : List Char) : tokensOf ('\x7b' :: cs) = .beginObject :: tokensOf cs :=
  tokens_cons rfl rfl

theorem tokensOf_closingBrace (cs : List Char) :
    tokensOf ('\x7d' :: cs) = .endObject :: tokensOf cs :=
  tokens_cons rfl rfl

theorem tokensOf_comma (cs : List Char) : tokensOf (',' :: cs) = .comma :: tokensOf cs :=
  tokens_cons rfl rfl

theorem tokensOf_colon (cs : List Char) : tokensOf (':' :: cs) = .colon :: tokensOf cs :=
  tokens_cons rfl rfl

theorem tokensOf_null (cs : List Char) :
    tokensOf ('n' :: 'u' :: 'l' :: 'l' :: cs) = .constant null :: tokensOf cs :=
  tokens_cons rfl rfl

theorem tokensOf_true (cs : List Char) :
    tokensOf ('t' :: 'r' :: 'u' :: 'e' :: cs) = .constant (bool true) :: tokensOf cs :=
  tokens_cons rfl rfl

theorem tokensOf_false (cs : List Char) :
    tokensOf ('f' :: 'a' :: 'l' :: 's' :: 'e' :: cs) = .constant (bool false) :: tokensOf cs :=
  tokens_cons rfl rfl

/-! ## Strings

A string is scanned into pieces, the bytes that stand for themselves and the escapes. Each character
comes back as its own bytes, whichever of the two it was written as. -/

/-- The pieces that the escape of a character is read as: a unit if it is escaped by number, else
the bytes of the character. -/
def piecesOf (c : Char) : List Piece :=
  if c.toNat < 0x20 ∧ c.toNat ∉ [0x08, 0x09, 0x0A, 0x0C, 0x0D] then [.unit c.toNat]
  else (String.utf8EncodeChar c).map .byte

private theorem scanString_bytes {bs : List UInt8} (h : ∀ b ∈ bs, b ≠ 0x22 ∧ b ≠ 0x5C ∧ ¬ b < 0x20)
    (done : List Piece) (bytes : List UInt8) :
    scanString done (bs ++ bytes) = scanString ((bs.map .byte).reverse ++ done) bytes := by
  induction bs generalizing done with
  | nil => rfl
  | cons b bs ih =>
    rw [List.forall_mem_cons] at h
    rw [List.cons_append, scanString.eq_def]
    simp only [h.1.1, h.1.2.1, h.1.2.2, if_false, ih h.2]
    simp

private theorem scanString_short {e byte : UInt8} (he : shortEscape? e = some byte) (hu : e ≠ 0x75)
    (done : List Piece) (bytes : List UInt8) :
    scanString done (0x5C :: e :: bytes) = scanString (.byte byte :: done) bytes := by
  rw [scanString.eq_def]
  simp only [show ¬ (0x5C : UInt8) = 0x22 by decide, if_false, if_true, hu, he]

private theorem scanString_escape (c : Char) (done : List Piece) (bytes : List UInt8) :
    scanString done (Utf8.encode (escape c) ++ bytes)
      = scanString ((piecesOf c).reverse ++ done) bytes := by
  rw [escape]
  split
  · next h =>
    subst h
    exact scanString_short rfl (by decide) done bytes
  split
  · next h =>
    subst h
    exact scanString_short rfl (by decide) done bytes
  split
  · next hquote hslash hlow =>
    have hpieces : piecesOf c = (String.utf8EncodeChar c).map .byte := by
      rw [piecesOf, if_neg (by omega)]
    rw [hpieces, Utf8.encode_cons, show Utf8.encode [] = [] from rfl, List.append_nil]
    refine scanString_bytes (fun b hb ↦ ?_) done bytes
    have hne {b : UInt8} {n : Nat} (h : b.toNat ≠ n % 256) : b ≠ UInt8.ofNat n := by
      rintro rfl
      exact h UInt8.toNat_ofNat'
    by_cases hascii : c.toNat < 0x80
    · -- a character of ASCII is its own byte
      have hchar {c' : Char} (h : c ≠ c') : c.toNat ≠ c'.toNat :=
        fun heq ↦ h (Char.toNat_inj.mp heq)
      have hn : (UInt8.ofNat c.toNat).toNat = c.toNat :=
        UInt8.toNat_ofNat_of_lt' (show c.toNat < 256 by omega)
      rw [Utf8.utf8EncodeChar_of_ascii hascii, List.mem_singleton] at hb
      rw [hb]
      refine ⟨hne (n := 0x22) ?_, hne (n := 0x5C) ?_, Utf8.not_ofNat_lt 0x20 hlow (by omega)⟩
      · rw [hn]
        exact hchar hquote
      · rw [hn]
        exact hchar hslash
    · -- the bytes of any other character are all at least 0x80
      have hhigh := Utf8.le_of_mem_utf8EncodeChar (Nat.not_lt.mp hascii) hb
      rw [UInt8.le_iff_toNat_le, show (0x80 : UInt8).toNat = 0x80 from rfl] at hhigh
      refine ⟨hne (n := 0x22) (by omega), hne (n := 0x5C) (by omega), ?_⟩
      rw [UInt8.lt_iff_toNat_lt, show (0x20 : UInt8).toNat = 0x20 from rfl]
      omega
  · next hlow =>
    obtain ⟨n, hn⟩ : ∃ n, c.toNat = n := ⟨_, rfl⟩
    have hc : c = Char.ofNat n := by rw [← hn, Char.ofNat_toNat]
    subst hc
    have hlt : n < 32 := by omega
    -- each of the control characters has an escape of its own
    interval_cases n <;> first | rfl | exact scanString_short rfl (by decide) done bytes

private theorem pieceBytes?_piecesOf (c : Char) (done : List UInt8) (ps : List Piece) :
    pieceBytes? done (piecesOf c ++ ps)
      = pieceBytes? ((String.utf8EncodeChar c).reverse ++ done) ps := by
  have hbytes (bs done : List UInt8) :
      pieceBytes? done (bs.map .byte ++ ps) = pieceBytes? (bs.reverse ++ done) ps := by
    induction bs generalizing done with
    | nil => rfl
    | cons b bs ih => rw [List.map_cons, List.cons_append, pieceBytes?, ih]; simp
  rw [piecesOf]
  split
  · next h =>
    have hlow : isLowUnit c.toNat = false := by rw [isLowUnit]; simp; omega
    have hhigh : isHighUnit c.toNat = false := by rw [isHighUnit]; simp; omega
    rw [List.cons_append, List.nil_append, pieceBytes?.eq_def]
    simp only [hlow, hhigh, Bool.false_eq_true, if_false, Char.ofNat_toNat]
  · exact hbytes _ done

private theorem scanString_flatMap_escape (cs rest : List Char) (done : List Piece) :
    scanString done (Utf8.encode (cs.flatMap escape ++ '"' :: rest))
      = (done.reverse ++ cs.flatMap piecesOf, .ok (Utf8.encode rest)) := by
  induction cs generalizing done with
  | nil =>
    have hclose : Utf8.encode ('"' :: rest) = 0x22 :: Utf8.encode rest := rfl
    rw [List.flatMap_nil, List.nil_append, hclose, scanString.eq_def, List.flatMap_nil,
      List.append_nil]
    simp only [if_true]
  | cons c cs ih =>
    rw [List.flatMap_cons, List.append_assoc, Utf8.encode_append, scanString_escape, ih]
    simp

private theorem pieceBytes?_flatMap_piecesOf (cs : List Char) (done : List UInt8) :
    pieceBytes? done (cs.flatMap piecesOf) = some (done.reverse ++ Utf8.encode cs) := by
  induction cs generalizing done with
  | nil =>
    rw [List.flatMap_nil, pieceBytes?, show Utf8.encode [] = [] from rfl, List.append_nil]
  | cons c cs ih =>
    rw [List.flatMap_cons, pieceBytes?_piecesOf, ih, Utf8.encode_cons]
    simp

/-- **A string is read as the string that is written.** -/
theorem tokensOf_writeString (s : String) (rest : List Char) :
    tokensOf (writeString s rest) = .string (some s) :: tokensOf rest := by
  have hopen (cs : List Char) : Utf8.encode ('"' :: cs) = 0x22 :: Utf8.encode cs := rfl
  have htext : pieceText? (s.toList.flatMap piecesOf) = some s := by
    rw [pieceText?, pieceBytes?_flatMap_piecesOf, List.reverse_nil, List.nil_append,
      Option.bind_some, Utf8.decode?_encode, String.ofList_toList]
  rw [tokensOf, writeString, hopen]
  refine tokens_cons rfl ?_
  show stringToken _ = _
  rw [stringToken, scanString_flatMap_escape, List.reverse_nil, List.nil_append]
  simp only [htext]

/-! ## Numbers

A number is scanned part by part: sign, digits, fraction, exponent. Each part ends where the next
character does not belong to it, so what stands behind a value ends the last of them. -/

/-- Whether a text goes on as it may behind a value. -/
def Closes (rest : List Char) : Prop := ∀ c ∈ rest.head?, c ∈ [',', ']', '\x7d']

/-- Whether bytes do not go on with a digit. -/
def EndsDigits (bytes : List UInt8) : Prop := ∀ b ∈ bytes.head?, isDigit b = false

/-- Whether bytes do not go on with a number. -/
def EndsNumber (bytes : List UInt8) : Prop :=
  ∀ b ∈ bytes.head?, isDigit b = false ∧ b ∉ [0x2E, 0x65, 0x45]

theorem closes_cons {c : Char} (h : c ∈ [',', ']', '\x7d']) (rest : List Char) :
    Closes (c :: rest) := by
  intro c' hc'
  rwa [← Option.some_inj.mp hc']

theorem Closes.endsNumber {rest : List Char} (h : Closes rest) :
    EndsNumber (Utf8.encode rest) := by
  rcases rest with _ | ⟨c, rest⟩
  · intro b hb
    exact absurd hb (by simp [Utf8.encode])
  · have hc := h c rfl
    have hbyte {b : UInt8} {bytes : List UInt8} (hb : isDigit b = false ∧ b ∉ [0x2E, 0x65, 0x45]) :
        EndsNumber (b :: bytes) := by
      intro b' hb'
      rwa [← Option.some_inj.mp hb']
    simp only [List.mem_cons, List.not_mem_nil, or_false] at hc
    rcases hc with rfl | rfl | rfl <;> exact hbyte (by decide)

section Numbers

variable {bytes rest rest' : List UInt8} {negative : Bool} {literal : Literal}

theorem EndsNumber.endsDigits (h : EndsNumber rest) : EndsDigits rest := fun b hb ↦ (h b hb).1

private theorem takeWhile_append_of_ends (h : EndsDigits rest) (bytes : List UInt8) :
    (bytes ++ rest).takeWhile isDigit = bytes.takeWhile isDigit ∧
      (bytes ++ rest).dropWhile isDigit = bytes.dropWhile isDigit ++ rest := by
  have hrest : rest.takeWhile isDigit = [] ∧ rest.dropWhile isDigit = rest := by
    rcases rest with _ | ⟨b, rest⟩
    · exact ⟨rfl, rfl⟩
    · have hb := h b rfl
      exact ⟨List.takeWhile_cons_of_neg (by simp [hb]), List.dropWhile_cons_of_neg (by simp [hb])⟩
  induction bytes with
  | nil => exact hrest
  | cons b bytes ih =>
    rw [List.cons_append, List.takeWhile_cons, List.dropWhile_cons, List.takeWhile_cons,
      List.dropWhile_cons, ih.1, ih.2]
    split <;> exact ⟨rfl, rfl⟩

theorem digits_append (h : EndsDigits rest) (bytes : List UInt8) :
    digits (bytes ++ rest) = digits bytes := by
  rw [digits, (takeWhile_append_of_ends h bytes).1, digits]

theorem afterDigits_append (h : EndsDigits rest) (bytes : List UInt8) :
    afterDigits (bytes ++ rest) = afterDigits bytes ++ rest := (takeWhile_append_of_ends h bytes).2

theorem scanFraction_cons (b : UInt8) (bytes : List UInt8) :
    scanFraction (b :: bytes) = if b = 0x2E then
        if (digits bytes).isEmpty then .error (missingDigit bytes)
        else .ok (some (digits bytes), afterDigits bytes)
      else .ok (none, b :: bytes) := by
  by_cases hb : b = 0x2E
  · subst hb
    rfl
  · rw [if_neg hb, scanFraction]
    simpa using hb

private theorem scanFraction_append (h : EndsNumber rest) {fraction : Option (List Nat)}
    (hscan : scanFraction bytes = .ok (fraction, rest')) :
    scanFraction (bytes ++ rest) = .ok (fraction, rest' ++ rest) := by
  rcases bytes with _ | ⟨b, bytes⟩
  · rw [scanFraction, Except.ok.injEq, Prod.mk.injEq] at hscan
    · obtain ⟨rfl, rfl⟩ := hscan
      rw [List.nil_append]
      rcases rest with _ | ⟨b, rest⟩
      · rfl
      · have hb : b ≠ 0x2E := by
          rintro rfl
          exact (h _ rfl).2 (by simp)
        rw [scanFraction_cons, if_neg hb]
    · simp
  · rw [scanFraction_cons] at hscan
    rw [List.cons_append, scanFraction_cons, digits_append h.endsDigits,
      afterDigits_append h.endsDigits]
    by_cases hb : b = 0x2E
    · rw [if_pos hb] at hscan ⊢
      split at hscan
      · exact absurd hscan (by simp)
      · next hdigits =>
        rw [Except.ok.injEq, Prod.mk.injEq] at hscan
        rw [if_neg hdigits, hscan.1, hscan.2]
    · rw [if_neg hb, Except.ok.injEq, Prod.mk.injEq] at hscan
      rw [if_neg hb, ← hscan.1, ← hscan.2, List.cons_append]

private theorem scanSign_append (h : bytes ≠ []) (rest : List UInt8) :
    scanSign (bytes ++ rest) = ((scanSign bytes).1, (scanSign bytes).2 ++ rest) := by
  obtain ⟨b, bytes, rfl⟩ := List.exists_cons_of_ne_nil h
  rw [List.cons_append]
  by_cases hplus : b = 0x2B
  · subst hplus
    rfl
  by_cases hminus : b = 0x2D
  · subst hminus
    rfl
  · rw [scanSign, scanSign] <;> simp [hplus, hminus]

private theorem scanPower_append (h : EndsNumber rest) {power : Option Int}
    (hscan : scanPower bytes = .ok (power, rest')) :
    scanPower (bytes ++ rest) = .ok (power, rest' ++ rest) := by
  rcases bytes with _ | ⟨b, bytes⟩
  · rw [scanPower, Except.ok.injEq, Prod.mk.injEq] at hscan
    obtain ⟨rfl, rfl⟩ := hscan
    rw [List.nil_append]
    rcases rest with _ | ⟨b, rest⟩
    · rfl
    · have hb : ¬ (b = 0x65 || b = 0x45) = true := by
        have hmem := (h b rfl).2
        simp only [List.mem_cons, not_or] at hmem
        simp [hmem.2.1, hmem.2.2.1]
      rw [scanPower, if_neg hb]
  · rw [scanPower] at hscan
    rw [List.cons_append, scanPower]
    by_cases hb : (b = 0x65 || b = 0x45) = true
    · rw [if_pos hb] at hscan ⊢
      simp only at hscan ⊢
      -- a mark is followed by a digit at least, so what is behind does not come in
      have hne : bytes ≠ [] := by
        rintro rfl
        exact absurd hscan (by simp [scanSign, digits])
      rw [scanSign_append hne, digits_append h.endsDigits, afterDigits_append h.endsDigits]
      split at hscan
      · exact absurd hscan (by simp)
      · next hdigits =>
        rw [Except.ok.injEq, Prod.mk.injEq] at hscan
        rw [if_neg hdigits, ← hscan.1, ← hscan.2]
    · rw [if_neg hb, Except.ok.injEq, Prod.mk.injEq] at hscan
      rw [if_neg hb, ← hscan.1, ← hscan.2, List.cons_append]

/-- **A number is read up to where it ends.** -/
theorem scanNumber_append (h : EndsNumber rest)
    (hscan : scanNumber negative bytes = .ok (literal, rest')) :
    scanNumber negative (bytes ++ rest) = .ok (literal, rest' ++ rest) := by
  rw [scanNumber] at hscan ⊢
  rw [digits_append h.endsDigits, afterDigits_append h.endsDigits]
  split at hscan
  · exact absurd hscan (by simp)
  · exact absurd hscan (by simp)
  · next whole hnil hzero =>
    simp only [bind, Except.bind, pure, Except.pure] at hscan ⊢
    rcases hfraction : scanFraction (afterDigits bytes) with fault | ⟨fraction, behind⟩
    · rw [hfraction] at hscan
      exact absurd hscan (by simp)
    rcases hpower : scanPower behind with fault | ⟨power, behind'⟩
    · rw [hfraction] at hscan
      simp only [hpower] at hscan
      exact absurd hscan (by simp)
    · rw [hfraction] at hscan
      simp only [hpower, Except.ok.injEq, Prod.mk.injEq] at hscan
      simp only [scanFraction_append h hfraction, scanPower_append h hpower, hscan.1, hscan.2]

private theorem isDigit_bounds {c : Char} (h : c.isDigit = true) :
    0x30 ≤ c.toNat ∧ c.toNat ≤ 0x39 := by
  simp only [Char.isDigit, Bool.and_eq_true, decide_eq_true_eq, ge_iff_le,
    UInt32.le_iff_toNat_le] at h
  exact h

theorem isDigit_ofNat {c : Char} (h : c.isDigit = true) :
    Utf8.encode [c] = [UInt8.ofNat c.toNat] ∧ isDigit (UInt8.ofNat c.toNat) = true ∧
      (UInt8.ofNat c.toNat).toNat = c.toNat := by
  have hbounds := isDigit_bounds h
  have hn : (UInt8.ofNat c.toNat).toNat = c.toNat :=
    UInt8.toNat_ofNat_of_lt' (show c.toNat < 256 by omega)
  refine ⟨?_, ?_, hn⟩
  · rw [Utf8.encode_cons, Utf8.utf8EncodeChar_of_ascii (by omega)]
    rfl
  · rw [isDigit, Bool.and_eq_true, decide_eq_true_eq, decide_eq_true_eq, UInt8.le_iff_toNat_le,
      UInt8.le_iff_toNat_le, hn]
    exact hbounds

theorem digits_encode {cs : List Char} (hcs : AllDigits cs) (h : EndsDigits rest) :
    digits (Utf8.encode cs ++ rest) = cs.map (fun c ↦ c.toNat - 0x30) ∧
      afterDigits (Utf8.encode cs ++ rest) = rest := by
  rw [digits_append h, afterDigits_append h]
  induction cs with
  | nil => exact ⟨rfl, rfl⟩
  | cons c cs ih =>
    obtain ⟨hdigit, hrest⟩ := List.forall_mem_cons.mp hcs
    obtain ⟨hbyte, hisDigit, hn⟩ := isDigit_ofNat hdigit
    have hcons : Utf8.encode (c :: cs) = UInt8.ofNat c.toNat :: Utf8.encode cs := by
      rw [← List.singleton_append, Utf8.encode_append, hbyte, List.singleton_append]
    rw [hcons, digits, List.takeWhile_cons_of_pos hisDigit, afterDigits,
      List.dropWhile_cons_of_pos hisDigit, List.map_cons, hn, List.map_cons]
    exact ⟨by rw [← digits, (ih hrest).1], (ih hrest).2⟩

/-- No number is written with a zero ahead of other digits. -/
theorem toDigits_ne_zero_cons (n : Nat) (c : Char) (cs : List Char) :
    Nat.toDigits 10 n ≠ '0' :: c :: cs := by
  induction n using Nat.strong_induction_on generalizing c cs with
  | _ n ih =>
    intro h
    rw [Nat.toDigits_eq_if (by decide)] at h
    split at h
    · exact absurd h (by simp)
    · next hn =>
      -- the digits ahead of the last one would be a single zero
      rcases hds : Nat.toDigits 10 (n / 10) with _ | ⟨d, _ | ⟨d', ds⟩⟩
      · exact Nat.toDigits_ne_nil hds
      · rw [hds, List.cons_append, List.cons.injEq] at h
        have hvalue := Nat.ofDigitChars_ten_toDigits (n := n / 10)
        rw [hds, h.1] at hvalue
        simp [Nat.ofDigitChars] at hvalue
        omega
      · rw [hds, List.cons_append, List.cons.injEq] at h
        rw [h.1] at hds
        exact ih (n / 10) (by omega) d' ds hds

/-- Digits without a useless zero ahead are the digits of a number. -/
theorem scanNumber_digits {cs : List Char} (hcs : AllDigits cs) (hne : cs ≠ [])
    (hzero : ∀ c tail, cs ≠ '0' :: c :: tail) (h : EndsDigits rest) (negative : Bool) :
    scanNumber negative (Utf8.encode cs ++ rest) = do
      let (fraction, behind) ← scanFraction rest
      let (power, behind') ← scanPower behind
      return (⟨negative, cs.map fun c ↦ c.toNat - 0x30, fraction, power⟩, behind') := by
  obtain ⟨hdigits, hafter⟩ := digits_encode hcs h
  rw [scanNumber, hdigits, hafter]
  split
  · next hnil => exact absurd (List.map_eq_nil_iff.mp hnil) hne
  · next hmap =>
    obtain ⟨c, tail, rfl, hc, hrest⟩ := List.map_eq_cons_iff.mp hmap
    obtain ⟨c', tail', rfl, -, -⟩ := List.map_eq_cons_iff.mp hrest
    have hchar : c = '0' := by
      have hbounds := isDigit_bounds (hcs c List.mem_cons_self)
      rw [← Char.toNat_inj, show '0'.toNat = 48 from rfl]
      omega
    exact absurd (hchar ▸ rfl) (hzero c' tail')
  · rfl

end Numbers

private theorem tokens_digit {b : UInt8} (hb : isDigit b = true) (bytes : List UInt8) :
    tokens (b :: bytes) = (numberToken false (b :: bytes)).1
      :: tokens (numberToken false (b :: bytes)).2 := by
  have htoken : tokenAt b bytes = numberToken false (b :: bytes) := by
    unfold tokenAt
    split
    all_goals first | exact absurd hb (by decide) | rw [if_pos hb]
  have hblank : isBlank b = false := by
    rw [← Bool.not_eq_true]
    intro h
    simp only [isBlank, Bool.or_eq_true, decide_eq_true_eq] at h
    rcases h with ((rfl | rfl) | rfl) | rfl <;> exact absurd hb (by decide)
  exact tokens_cons hblank htoken

/-- A number starts with its sign, or with a digit. -/
theorem tokensOf_signText (negative : Bool) {cs : List Char}
    (hcs : ∃ c rest, cs = c :: rest ∧ c.isDigit = true) :
    tokensOf (signText negative ++ cs) = (numberToken negative (Utf8.encode cs)).1
      :: tokens (numberToken negative (Utf8.encode cs)).2 := by
  obtain ⟨c, rest, rfl, hc⟩ := hcs
  rcases negative with _ | _
  · obtain ⟨hbyte, hdigit, -⟩ := isDigit_ofNat hc
    have hcons : Utf8.encode (c :: rest) = UInt8.ofNat c.toNat :: Utf8.encode rest := by
      rw [← List.singleton_append, Utf8.encode_append, hbyte, List.singleton_append]
    rw [tokensOf, signText, if_neg (by simp), List.nil_append, hcons]
    exact tokens_digit hdigit _
  · exact tokens_cons rfl rfl

theorem tokensOf_of_scanNumber {negative : Bool} {cs rest : List Char} {literal : Literal}
    {behind : List UInt8} (hcs : ∃ c rest, cs = c :: rest ∧ c.isDigit = true)
    (hscan : scanNumber negative (Utf8.encode cs) = .ok (literal, behind)) (h : Closes rest) :
    tokensOf (signText negative ++ cs ++ rest)
      = .number literal :: tokens (behind ++ Utf8.encode rest) := by
  have hhead : ∃ c rest', cs ++ rest = c :: rest' ∧ c.isDigit = true := by
    obtain ⟨c, rest', rfl, hc⟩ := hcs
    exact ⟨c, rest' ++ rest, rfl, hc⟩
  rw [List.append_assoc, tokensOf_signText negative hhead, numberToken, Utf8.encode_append,
    scanNumber_append h.endsNumber hscan]

/-- The literal of an integer. -/
def intLiteral (n : Int) : Literal :=
  ⟨decide (n < 0), (Nat.toDigits 10 n.natAbs).map fun c ↦ c.toNat - 0x30, none, none⟩

/-- An integer of 64 bits, with or without sign, stays an integer. -/
private theorem value?_intLiteral {n : Int} (h : minSigned ≤ n ∧ n < UInt64.size) :
    (intLiteral n).value? = some (.int n) := by
  have hmagnitude : ((Nat.toDigits 10 n.natAbs).map fun c ↦ c.toNat - 0x30).foldl
      (fun n d ↦ n * 10 + d) 0 = n.natAbs := by
    rw [List.foldl_map]
    conv_rhs => rw [← Nat.ofDigitChars_ten_toDigits (n := n.natAbs), Nat.ofDigitChars_eq_foldl]
    congr 1
    funext m c
    rw [Nat.mul_comm]
    rfl
  -- the sign is read apart from the digits
  have hinteger : (if decide (n < 0) = true then -(n.natAbs : Int) else n.natAbs) = n := by
    split
    · next hneg => rw [decide_eq_true_eq] at hneg; omega
    · next hneg => rw [decide_eq_true_eq] at hneg; omega
  rw [Literal.value?, intLiteral]
  simp only [hmagnitude, hinteger]
  rw [if_pos]
  simp only [minSigned, UInt64.size] at h
  simp only [Literal.maxUnsigned, Literal.minSigned, UInt64.size, Option.isNone_none, true_and,
    decide_eq_true_eq]
  omega

/-- **An integer is read as the integer.** -/
theorem tokensOf_int (n : Int) {rest : List Char} (h : Closes rest) :
    tokensOf (intText n ++ rest) = .number (intLiteral n) :: tokensOf rest := by
  have hends : EndsDigits [] := fun b hb ↦ absurd hb (by simp)
  have hscan := scanNumber_digits (allDigits_toDigits n.natAbs) Nat.toDigits_ne_nil
    (toDigits_ne_zero_cons n.natAbs) hends (decide (n < 0))
  rw [List.append_nil] at hscan
  exact tokensOf_of_scanNumber (toDigits_head _) hscan h

/-- Whether the text of a value is read as the value. -/
def ReadsBack (v : Json) : Prop := read (Utf8.ofString v.text) = .ok v

theorem closes_nil : Closes [] := fun c hc ↦ absurd hc (by simp)

theorem read_of_tokens {v : Json} {ts : List Token} (h : tokensOf (v.write []) = ts) :
    read (Utf8.ofString v.text) = readFrom .value [] ts := by
  rw [← h, read, text, Utf8.ofString, String.toList_ofList]
  rfl

theorem readsBack_int {n : Int} (h : minSigned ≤ n ∧ n < UInt64.size) : (int n).ReadsBack := by
  have htokens : tokensOf ((int n).write []) = [.number (intLiteral n)] := by
    rw [write_int, tokensOf_int n closes_nil, tokensOf_nil]
  rw [ReadsBack, read_of_tokens htokens, readFrom]
  simp only [advance, startValue, value?_intLiteral h, readFrom]

/-- A double is read back if the literal of its text stands for it. -/
theorem readsBack_of_scanNumber {d : Double} (cs : List Char) (literal : Literal)
    (htext : d.text.toList = signText d.negative ++ cs)
    (hscan : scanNumber d.negative (Utf8.encode cs) = .ok (literal, []))
    (hvalue : literal.value? = some (.double d)) : (double d).ReadsBack := by
  obtain ⟨cs', q, htext', hwrites, -⟩ := d.text_form
  rw [htext'] at htext
  obtain rfl := List.append_cancel_left htext
  have htokens : tokensOf ((double d).write []) = [.number literal] := by
    rw [write, htext', tokensOf_of_scanNumber hwrites.form.1 hscan closes_nil]
    exact congrArg _ tokensOf_nil
  rw [ReadsBack, read_of_tokens htokens, readFrom]
  simp only [advance, startValue, hvalue, readFrom]

end ReactiveVars.Json
