import Mathlib.Tactic.IntervalCases
import ReactiveVars.Json.Printer
import ReactiveVars.Proofs.Decimal.Texts

/-!
# The text of a value tells the value

The text of a value can be told from what follows it, as long as that does not go on with a number:
brackets and quotes close what they open, and an escape stands for one character. So two values with
the same text are the same, which is what change detection relies on.
-/

namespace ReactiveVars.Json

open Double

/-! ## Strings

An escape starts with a character that is not written by itself and has a length that its second
character tells, so no escape is the beginning of another. -/

/-- The value of a digit in base sixteen. -/
def hexValue (c : Char) : Nat := if c.isDigit then c.toNat - 0x30 else c.toNat - 0x57

/-- The first character of a string and what follows it. -/
def unescape : List Char → Option (Char × List Char)
  | '\\' :: 'b' :: rest => some ('\x08', rest)
  | '\\' :: 't' :: rest => some ('\t', rest)
  | '\\' :: 'n' :: rest => some ('\n', rest)
  | '\\' :: 'f' :: rest => some ('\x0c', rest)
  | '\\' :: 'r' :: rest => some ('\r', rest)
  | '\\' :: 'u' :: '0' :: '0' :: high :: low :: rest =>
    some (Char.ofNat (hexValue high * 16 + hexValue low), rest)
  | '\\' :: c :: rest => some (c, rest)
  | c :: rest => some (c, rest)
  | [] => none

theorem unescape_escape (c : Char) (rest : List Char) :
    unescape (escape c ++ rest) = some (c, rest) := by
  rw [escape]
  split
  · next h => rw [h]; rfl
  · split
    · next h => rw [h]; rfl
    · next hquote hslash =>
      split
      · rw [List.cons_append, List.nil_append, unescape]
        all_goals simp_all
      · next hlow =>
        obtain ⟨n, hn⟩ : ∃ n, c.toNat = n := ⟨_, rfl⟩
        have hc : c = Char.ofNat n := by rw [← hn, Char.ofNat_toNat]
        subst hc
        have hlt : n < 32 := by omega
        interval_cases n <;> rfl

private theorem flatMap_escape_inj {cs cs' rest rest' : List Char}
    (h : cs.flatMap escape ++ '"' :: rest = cs'.flatMap escape ++ '"' :: rest') :
    cs = cs' ∧ rest = rest' := by
  -- no character is written as the bare quote that ends a string
  have hquote (c : Char) (x y : List Char) : '"' :: x ≠ escape c ++ y := by
    intro heq
    have hc := unescape_escape c y
    rw [← heq, show unescape ('"' :: x) = some ('"', x) from rfl, Option.some_inj,
      Prod.mk.injEq] at hc
    rw [← hc.1] at heq
    exact absurd (List.cons.inj heq).1 (by decide)
  induction cs generalizing cs' with
  | nil =>
    rcases cs' with _ | ⟨c', cs'⟩
    · exact ⟨rfl, (List.cons.inj h).2⟩
    · rw [List.flatMap_nil, List.nil_append, List.flatMap_cons, List.append_assoc] at h
      exact absurd h (hquote c' _ _)
  | cons c cs ih =>
    rcases cs' with _ | ⟨c', cs'⟩
    · rw [List.flatMap_nil, List.nil_append, List.flatMap_cons, List.append_assoc] at h
      exact absurd h.symm (hquote c _ _)
    · rw [List.flatMap_cons, List.flatMap_cons, List.append_assoc, List.append_assoc] at h
      have hc := unescape_escape c (cs.flatMap escape ++ '"' :: rest)
      rw [h, unescape_escape, Option.some_inj, Prod.mk.injEq] at hc
      obtain ⟨rfl, hrest⟩ := ih hc.2.symm
      exact ⟨by rw [hc.1], hrest⟩

theorem writeString_inj {s s' : String} {rest rest' : List Char}
    (h : writeString s rest = writeString s' rest') : s = s' ∧ rest = rest' := by
  rw [writeString, writeString] at h
  obtain ⟨hs, hrest⟩ := flatMap_escape_inj (List.cons.inj h).2
  exact ⟨String.toList_inj.mp hs, hrest⟩

/-! ## Numbers

Numbers are the only texts without an end of their own. What follows a value never goes on with a
character of a number, and that is all that telling them apart asks for. -/

/-- Whether a text does not go on with a number. -/
def Ends (rest : List Char) : Prop := ∀ c ∈ rest.head?, ¬ IsNumberChar c

theorem ends_cons {c : Char} (h : ¬ IsNumberChar c) (rest : List Char) : Ends (c :: rest) := by
  intro c' hc'
  rwa [← Option.some_inj.mp hc']

theorem numberChars_inj {cs cs' rest rest' : List Char} (hcs : ∀ c ∈ cs, IsNumberChar c)
    (hcs' : ∀ c ∈ cs', IsNumberChar c) (hrest : Ends rest) (hrest' : Ends rest')
    (h : cs ++ rest = cs' ++ rest') : cs = cs' ∧ rest = rest' := by
  induction cs generalizing cs' with
  | nil =>
    rcases cs' with _ | ⟨c', cs'⟩
    · exact ⟨rfl, h⟩
    · rw [List.nil_append] at h
      exact absurd (hcs' c' List.mem_cons_self) (hrest c' (by rw [h]; rfl))
  | cons c cs ih =>
    rcases cs' with _ | ⟨c', cs'⟩
    · rw [List.nil_append] at h
      exact absurd (hcs c List.mem_cons_self) (hrest' c (by rw [← h]; rfl))
    · obtain ⟨rfl, htail⟩ := List.cons.inj h
      obtain ⟨rfl, heq⟩ := ih (fun c hc ↦ hcs c (List.mem_cons_of_mem _ hc))
        (fun c hc ↦ hcs' c (List.mem_cons_of_mem _ hc)) htail
      exact ⟨rfl, heq⟩

/-- The characters of an integer. -/
def intText (n : Int) : List Char := signText (decide (n < 0)) ++ Nat.toDigits 10 n.natAbs

theorem toDigits_head (n : Nat) : ∃ c rest, Nat.toDigits 10 n = c :: rest ∧ c.isDigit = true := by
  obtain ⟨c, rest, h⟩ := List.exists_cons_of_ne_nil (Nat.toDigits_ne_nil (n := n) (b := 10))
  exact ⟨c, rest, h, allDigits_toDigits n c (by rw [h]; exact List.mem_cons_self)⟩

private theorem isNumberChar_signText (negative : Bool) :
    ∀ c ∈ signText negative, IsNumberChar c := by
  rcases negative with _ | _ <;> intro c hc
  · exact absurd hc (by simp [signText])
  · rw [List.mem_singleton.mp hc]
    exact .inr (by simp)

private theorem isNumberChar_intText (n : Int) : ∀ c ∈ intText n, IsNumberChar c := by
  intro c hc
  rcases List.mem_append.mp hc with hc | hc
  · exact isNumberChar_signText _ c hc
  · exact .inl (allDigits_toDigits _ c hc)

private theorem isNumberChar_text (d : Double) : ∀ c ∈ d.text.toList, IsNumberChar c := by
  obtain ⟨cs, q, htext, hwrites, -⟩ := d.text_form
  intro c hc
  rw [htext] at hc
  rcases List.mem_append.mp hc with hc | hc
  · exact isNumberChar_signText _ c hc
  · exact hwrites.form.2.1 c hc

private theorem intText_inj {n n' : Int} (h : intText n = intText n') : n = n' := by
  obtain ⟨hsign, hdigits⟩ := signText_append_inj (toDigits_head _) (toDigits_head _) h
  have habs := congrArg (fun cs ↦ Nat.ofDigitChars 10 cs 0) hdigits
  simp only [Nat.ofDigitChars_ten_toDigits] at habs
  have hneg : n < 0 ↔ n' < 0 := by simpa using hsign
  omega

/-- An integer is not written as a double. -/
private theorem intText_ne_text (n : Int) (d : Double) : intText n ≠ d.text.toList := by
  obtain ⟨cs, q, htext, hwrites, -⟩ := d.text_form
  rw [htext]
  intro h
  obtain ⟨-, rfl⟩ := signText_append_inj (toDigits_head _) hwrites.form.1 h
  exact hwrites.form.2.2 (allDigits_toDigits _)

/-! ## Values

The first character tells the kind, and within a kind the text goes on until its own bracket or
quote. The induction is on the value, together with lists of items and of fields. -/

/-- What the first character of a text tells apart: the kinds of values, and the end of an array. -/
inductive Kind where
  | null
  | isTrue
  | isFalse
  | number
  | string
  | array
  | object
  | close

/-- The kind of a value. -/
def kind : Json → Kind
  | null => .null
  | bool true => .isTrue
  | bool false => .isFalse
  | int _ | double _ => .number
  | string _ => .string
  | array _ => .array
  | object _ => .object

/-- What starts with a character. -/
def startKind (c : Char) : Kind :=
  if c = 'n' then .null
  else if c = 't' then .isTrue
  else if c = 'f' then .isFalse
  else if c = '"' then .string
  else if c = '[' then .array
  else if c = '\x7b' then .object
  else if c = ']' then .close
  else .number

private theorem kind_ne_close (v : Json) : v.kind ≠ .close := by
  rcases v with _ | (_ | _) | _ | _ | _ | _ | _ <;> exact Kind.noConfusion

private theorem startKind_of_signText (negative : Bool) {cs : List Char}
    (hcs : ∃ c rest, cs = c :: rest ∧ c.isDigit = true) :
    ∃ c tail, signText negative ++ cs = c :: tail ∧ startKind c = .number := by
  obtain ⟨c, rest, rfl, hc⟩ := hcs
  rcases negative with _ | _
  · refine ⟨c, rest, rfl, ?_⟩
    have hne (c' : Char) (hc' : ¬ c'.isDigit = true) : c ≠ c' := by
      rintro rfl
      exact hc' hc
    rw [startKind, if_neg (hne _ (by decide)), if_neg (hne _ (by decide)),
      if_neg (hne _ (by decide)), if_neg (hne _ (by decide)), if_neg (hne _ (by decide)),
      if_neg (hne _ (by decide)), if_neg (hne _ (by decide))]
  · exact ⟨'-', c :: rest, rfl, rfl⟩

theorem write_int (n : Int) (rest : List Char) : write (int n) rest = intText n ++ rest := by
  rw [write, intText, signText]
  by_cases h : n < 0 <;> simp [h]

theorem startKind_write (v : Json) (rest : List Char) :
    ∃ c tail, write v rest = c :: tail ∧ startKind c = v.kind := by
  rcases v with _ | (_ | _) | n | d | s | items | fields
  · exact ⟨'n', _, by rw [write], rfl⟩
  · exact ⟨'f', _, by rw [write], rfl⟩
  · exact ⟨'t', _, by rw [write], rfl⟩
  · obtain ⟨c, tail, heq, hc⟩ := startKind_of_signText (decide (n < 0)) (toDigits_head n.natAbs)
    exact ⟨c, tail ++ rest, by rw [write_int, intText, heq]; rfl, hc⟩
  · obtain ⟨cs, q, htext, hwrites, -⟩ := d.text_form
    obtain ⟨c, tail, heq, hc⟩ := startKind_of_signText d.negative hwrites.form.1
    exact ⟨c, tail ++ rest, by rw [write, htext, heq]; rfl, hc⟩
  · exact ⟨'"', _, by rw [write, writeString], rfl⟩
  · exact ⟨'[', _, by rw [write], rfl⟩
  · exact ⟨'\x7b', _, by rw [write], rfl⟩

theorem kind_eq_of_write {v v' : Json} {rest rest' : List Char}
    (h : write v rest = write v' rest') : v.kind = v'.kind := by
  obtain ⟨c, tail, hc, hkind⟩ := startKind_write v rest
  obtain ⟨c', tail', hc', hkind'⟩ := startKind_write v' rest'
  rw [hc, hc'] at h
  rw [← hkind, ← hkind', (List.cons.inj h).1]

theorem ends_comma (rest : List Char) : Ends (',' :: rest) :=
  ends_cons (by simp [IsNumberChar]) rest

private theorem ends_bracket (rest : List Char) : Ends (']' :: rest) :=
  ends_cons (by simp [IsNumberChar]) rest

private theorem ends_brace (rest : List Char) : Ends ('\x7d' :: rest) :=
  ends_cons (by simp [IsNumberChar]) rest

mutual

/-- **The text of a value can be told from what follows it.** -/
theorem write_inj (v v' : Json) {rest rest' : List Char} (hr : Ends rest) (hr' : Ends rest')
    (h : write v rest = write v' rest') : v = v' ∧ rest = rest' := by
  -- values of different kinds start with different characters, so the kinds are the same
  have hkind := kind_eq_of_write h
  match v, v' with
  | null, null => exact ⟨rfl, by simpa [write] using h⟩
  | bool true, bool true => exact ⟨rfl, by simpa [write] using h⟩
  | bool false, bool false => exact ⟨rfl, by simpa [write] using h⟩
  | int n, int n' =>
    rw [write_int, write_int] at h
    obtain ⟨htext, hrest⟩ :=
      numberChars_inj (isNumberChar_intText n) (isNumberChar_intText n') hr hr' h
    exact ⟨by rw [intText_inj htext], hrest⟩
  | int n, double d =>
    rw [write_int, write] at h
    obtain ⟨htext, -⟩ := numberChars_inj (isNumberChar_intText n) (isNumberChar_text d) hr hr' h
    exact absurd htext (intText_ne_text n d)
  | double d, int n =>
    rw [write_int, write] at h
    obtain ⟨htext, -⟩ := numberChars_inj (isNumberChar_text d) (isNumberChar_intText n) hr hr' h
    exact absurd htext.symm (intText_ne_text n d)
  | double d, double d' =>
    rw [write, write] at h
    obtain ⟨htext, hrest⟩ :=
      numberChars_inj (isNumberChar_text d) (isNumberChar_text d') hr hr' h
    exact ⟨by rw [Double.text_injective (String.toList_inj.mp htext)], hrest⟩
  | string s, string s' =>
    rw [write, write] at h
    obtain ⟨rfl, hrest⟩ := writeString_inj h
    exact ⟨rfl, hrest⟩
  | array items, array items' =>
    rw [write, write] at h
    obtain ⟨rfl, hrest⟩ := writeItems_inj items items' (List.cons.inj h).2
    exact ⟨rfl, hrest⟩
  | object fields, object fields' =>
    rw [write, write] at h
    obtain ⟨rfl, hrest⟩ := writeFields_inj fields fields' (List.cons.inj h).2
    exact ⟨rfl, hrest⟩

theorem writeItems_inj (vs vs' : List Json) {rest rest' : List Char}
    (h : writeItems vs (']' :: rest) = writeItems vs' (']' :: rest')) :
    vs = vs' ∧ rest = rest' := by
  have hopen (v : Json) (x y : List Char) : ']' :: x ≠ write v y := by
    -- no value starts with the bracket that closes the items
    obtain ⟨c, tail, hc, hkind⟩ := startKind_write v y
    rw [hc]
    rintro heq
    rw [← (List.cons.inj heq).1] at hkind
    exact v.kind_ne_close hkind.symm
  match vs, vs' with
  | [], [] => exact ⟨rfl, (List.cons.inj h).2⟩
  | [], [v'] => exact absurd h (hopen _ _ _)
  | [], v' :: u' :: us' => exact absurd h (hopen _ _ _)
  | [v], [] => exact absurd h.symm (hopen _ _ _)
  | v :: u :: us, [] => exact absurd h.symm (hopen _ _ _)
  | [v], [v'] =>
    obtain ⟨rfl, hrest⟩ := write_inj v v' (ends_bracket _) (ends_bracket _) h
    exact ⟨rfl, (List.cons.inj hrest).2⟩
  | [v], v' :: u' :: us' =>
    obtain ⟨-, hrest⟩ := write_inj v v' (ends_bracket _) (ends_comma _) h
    exact absurd (List.cons.inj hrest).1 (by decide)
  | v :: u :: us, [v'] =>
    obtain ⟨-, hrest⟩ := write_inj v v' (ends_comma _) (ends_bracket _) h
    exact absurd (List.cons.inj hrest).1 (by decide)
  | v :: u :: us, v' :: u' :: us' =>
    obtain ⟨rfl, hrest⟩ := write_inj v v' (ends_comma _) (ends_comma _) h
    obtain ⟨htail, hrest'⟩ := writeItems_inj (u :: us) (u' :: us') (List.cons.inj hrest).2
    exact ⟨by rw [htail], hrest'⟩

theorem writeFields_inj (es es' : List (String × Json)) {rest rest' : List Char}
    (h : writeFields es ('\x7d' :: rest) = writeFields es' ('\x7d' :: rest')) :
    es = es' ∧ rest = rest' := by
  have hopen (s : String) (x y : List Char) : '\x7d' :: x ≠ writeString s y := by
    rw [writeString]
    exact fun heq ↦ absurd (List.cons.inj heq).1 (by decide)
  match es, es' with
  | [], [] => exact ⟨rfl, (List.cons.inj h).2⟩
  | [], [(k', v')] => exact absurd h (hopen _ _ _)
  | [], (k', v') :: e' :: rest' => exact absurd h (hopen _ _ _)
  | [(k, v)], [] => exact absurd h.symm (hopen _ _ _)
  | (k, v) :: e :: rest, [] => exact absurd h.symm (hopen _ _ _)
  | [(k, v)], [(k', v')] =>
    obtain ⟨rfl, htail⟩ := writeString_inj h
    obtain ⟨rfl, hrest⟩ := write_inj v v' (ends_brace _) (ends_brace _) (List.cons.inj htail).2
    exact ⟨rfl, (List.cons.inj hrest).2⟩
  | [(k, v)], (k', v') :: e' :: es' =>
    obtain ⟨-, htail⟩ := writeString_inj h
    obtain ⟨-, hrest⟩ := write_inj v v' (ends_brace _) (ends_comma _) (List.cons.inj htail).2
    exact absurd (List.cons.inj hrest).1 (by decide)
  | (k, v) :: e :: es, [(k', v')] =>
    obtain ⟨-, htail⟩ := writeString_inj h
    obtain ⟨-, hrest⟩ := write_inj v v' (ends_comma _) (ends_brace _) (List.cons.inj htail).2
    exact absurd (List.cons.inj hrest).1 (by decide)
  | (k, v) :: e :: es, (k', v') :: e' :: es' =>
    obtain ⟨rfl, htail⟩ := writeString_inj h
    obtain ⟨rfl, hrest⟩ := write_inj v v' (ends_comma _) (ends_comma _) (List.cons.inj htail).2
    obtain ⟨hes, hrest'⟩ := writeFields_inj (e :: es) (e' :: es') (List.cons.inj hrest).2
    exact ⟨by rw [hes], hrest'⟩

end

/-- **Two values with the same text are the same.** -/
theorem text_injective {v v' : Json} (h : v.text = v'.text) : v = v' := by
  rw [text, text, String.ofList_inj] at h
  have hends : Ends [] := fun c hc ↦ absurd hc (by simp)
  exact (write_inj v v' hends hends h).1

end ReactiveVars.Json
