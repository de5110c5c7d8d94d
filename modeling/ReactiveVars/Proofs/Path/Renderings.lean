import Mathlib.Tactic.Tauto
import ReactiveVars.Path.Basic

/-!
# The text of a path

Segments are written one after the other, a step back as two dots, with a dot between two others.
The parser does not look for this form: it goes from dot to dot, lets dots go that separate nothing,
and tells by the characters of a token which segment it stands for. So a list of segments may be
written in a way that is read as another list, and `WellFormed` says of which lists this is not
true: each segment is one that its token stands for, and an object is named only at the start.

In the parser a token is finished by a dot or the end of the text, whatever comes behind
(`readSegments_of_finish`). That is what lets a rendered list be read segment by segment; and since
each segment enters the result through `finish`, nothing but well-formed lists comes out.

## Main statement

* `parse_render`: parsing undoes rendering on the well-formed lists, and only they are parsed.
-/

namespace ReactiveVars

/-! ## Rendering -/

/-- The text of a segment. -/
def Segment.text : Segment → List Char
  | property name => name.toList
  | index k => Nat.toDigits 10 k
  | method name => name.toList ++ ['(', ')']
  | parent => ['.', '.']
  | standard name => '@' :: name.toList

/-- Whether a text can be a token, as far as the dots and the start of the parameters go. -/
def Segment.Unbroken (cs : List Char) : Prop := '.' ∉ cs ∧ '?' ∉ cs

/-- Whether the text of a segment stands for the segment. -/
inductive Segment.WellFormed : Segment → Prop
  | property {name : String} (nonempty : name.toList ≠ []) (unbroken : Unbroken name.toList)
    (not_standard : ¬ ['@'] <+: name.toList) (not_method : ¬ ['(', ')'] <:+ name.toList)
    (not_index : ∃ c ∈ name.toList, c.isDigit = false) : WellFormed (property name)
  | index {k : Nat} (counted : 1 ≤ k) (bounded : k ≤ Path.maxIndex) : WellFormed (index k)
  | method {name : String} (nonempty : name.toList ≠ [])
    (chars : ∀ c ∈ name.toList, c.isAlphanum = true ∨ c = '_')
    (start : ∀ c ∈ name.toList.head?, c.isDigit = false) : WellFormed (method name)
  | parent : WellFormed parent
  | standard {name : String} (unbroken : Unbroken name.toList) : WellFormed (standard name)

private theorem Segment.unbroken_cons {c : Char} {cs : List Char} :
    Unbroken (c :: cs) ↔ (c ≠ '.' ∧ c ≠ '?') ∧ Unbroken cs := by
  simp only [Unbroken, List.mem_cons, not_or, eq_comm (b := c)]
  tauto

private theorem Segment.unbroken_append {cs ds : List Char} :
    Unbroken (cs ++ ds) ↔ Unbroken cs ∧ Unbroken ds := by
  simp only [Unbroken, List.mem_append, not_or]
  tauto

private theorem Segment.unbroken_of_forall {p : Char → Prop} {cs : List Char} (h : ∀ c ∈ cs, p c)
    (hdot : ¬ p '.') (hmark : ¬ p '?') : Unbroken cs :=
  ⟨fun hc ↦ hdot (h _ hc), fun hc ↦ hmark (h _ hc)⟩

namespace Path

/-- What stands between a segment and those behind it: a dot, unless one of the two neighbours is a
step back. -/
def joint (s : Segment) : List Segment → List Char
  | [] => []
  | t :: _ => if s = .parent ∨ t = .parent then [] else ['.']

/-- The characters of the text of segments. -/
def renderChars : List Segment → List Char
  | [] => []
  | s :: rest => s.text ++ (joint s rest ++ renderChars rest)

/-- The text of segments. -/
def render (segments : List Segment) : String := String.ofList (renderChars segments)

/-- Whether the text of segments is read as these segments. -/
structure WellFormed (segments : List Segment) : Prop where
  each : ∀ s ∈ segments, s.WellFormed
  standard_first : ∀ name, .standard name ∉ segments.tail

variable {token : List Char} {found found' segments rest : List Segment} {s : Segment}
  {first : Bool} {cs : List Char}

theorem WellFormed.concat (h : WellFormed segments) (hs : s.WellFormed)
    (hfirst : ∀ name, s = .standard name → segments = []) : WellFormed (segments ++ [s]) where
  each := by
    intro t ht
    rcases List.mem_append.mp ht with ht | ht
    · exact h.each t ht
    · rw [List.mem_singleton.mp ht]
      exact hs
  standard_first := by
    intro name hname
    rcases segments with _ | ⟨t, segments⟩
    · exact absurd hname (by simp)
    rw [List.cons_append, List.tail_cons] at hname
    rcases List.mem_append.mp hname with hname | hname
    · exact h.standard_first name hname
    · exact absurd (hfirst name (List.mem_singleton.mp hname).symm) (by simp)

/-! ## Tokens

`Stands` lists what a token can stand for, in the order in which the parser asks: at the start an
object of the application, then a call, an index, a property. Both directions are proved against
this list. -/

private theorem calledName?_eq_some_iff {name : List Char} :
    calledName? token = some name ↔ token = name ++ ['(', ')'] := by
  rw [calledName?]
  constructor
  · intro h
    split at h
    · next name' hreverse =>
      rw [← Option.some.inj h, ← List.reverse_reverse token, hreverse]
      simp
    · exact absurd h (by simp)
  · rintro rfl
    simp

private theorem calledName?_eq_none_iff : calledName? token = none ↔ ¬ ['(', ')'] <:+ token := by
  rw [Option.eq_none_iff_forall_ne_some]
  constructor
  · rintro h ⟨name, rfl⟩
    exact h name (calledName?_eq_some_iff.mpr rfl)
  · intro h name hname
    exact h ⟨name, (calledName?_eq_some_iff.mp hname).symm⟩

theorem isMethodName_iff {name : List Char} :
    isMethodName name = true ↔ name ≠ [] ∧ (∀ c ∈ name, c.isAlphanum = true ∨ c = '_') ∧
      ∀ c ∈ name.head?, c.isDigit = false := by
  rcases name with _ | ⟨c, cs⟩
  · simp [isMethodName]
  · simp [isMethodName, isMethodChar]
    tauto

/-- Which segment a token stands for, which is the first or not. -/
inductive Stands (first : Bool) : List Char → Segment → Prop
  | standard {name : List Char} (start : first = true) :
    Stands first ('@' :: name) (.standard (String.ofList name))
  | method {name : List Char} (not_standard : ¬ ['@'] <+: name ++ ['(', ')'])
      (valid : isMethodName name = true) :
    Stands first (name ++ ['(', ')']) (.method (String.ofList name))
  | index {token : List Char} (not_standard : ¬ ['@'] <+: token)
      (not_method : ¬ ['(', ')'] <:+ token)
      (digits : ∀ c ∈ token, c.isDigit = true) (counted : 1 ≤ decimalValue token)
      (bounded : decimalValue token ≤ maxIndex) :
    Stands first token (.index (decimalValue token))
  | property {token : List Char} (not_standard : ¬ ['@'] <+: token)
      (not_method : ¬ ['(', ')'] <:+ token) (not_index : ∃ c ∈ token, c.isDigit = false) :
    Stands first token (.property (String.ofList token))

/-- A token that does not start by naming an object is a call, a number or a name. -/
theorem classify_of_not_standard (h : ¬ ['@'] <+: token) (first : Bool) :
    classify token first = match calledName? token with
      | some name =>
        if isMethodName name then .ok (.method (String.ofList name))
        else .error (.invalidMethod (String.ofList token))
      | none =>
        if token.all Char.isDigit then
          if decimalValue token = 0 ∨ maxIndex < decimalValue token then
            .error (.zeroIndex (String.ofList token))
          else .ok (.index (decimalValue token))
        else .ok (.property (String.ofList token)) := by
  refine classify.eq_2 token first fun name hname ↦ h ?_
  rw [hname]
  exact List.prefix_append ['@'] name

theorem classify_of_stands (h : Stands first token s) : classify token first = .ok s := by
  rcases h with hfirst | ⟨hstandard, hvalid⟩ | ⟨hstandard, hmethod, hdigits, hcounted, hbounded⟩ |
    ⟨hstandard, hmethod, c, hc, hdigit⟩
  · exact if_pos hfirst
  · rw [classify_of_not_standard hstandard, calledName?_eq_some_iff.mpr rfl]
    exact if_pos hvalid
  · rw [classify_of_not_standard hstandard, calledName?_eq_none_iff.mpr hmethod]
    simp only [List.all_eq_true.mpr hdigits, if_true]
    exact if_neg (by omega)
  · rw [classify_of_not_standard hstandard, calledName?_eq_none_iff.mpr hmethod]
    refine if_neg fun hall ↦ ?_
    rw [List.all_eq_true.mp hall c hc] at hdigit
    exact absurd hdigit (by simp)

theorem stands_of_classify (h : classify token first = .ok s) : Stands first token s := by
  by_cases hstandard : ['@'] <+: token
  · obtain ⟨name, rfl⟩ := hstandard
    rw [List.singleton_append, classify] at h
    split at h
    · next hfirst =>
      obtain rfl := Except.ok.inj h
      exact .standard hfirst
    · exact absurd h (by simp)
  rw [classify_of_not_standard hstandard] at h
  split at h
  · next name hname =>
    obtain rfl := calledName?_eq_some_iff.mp hname
    split at h
    · next hvalid =>
      obtain rfl := Except.ok.inj h
      exact .method hstandard hvalid
    · exact absurd h (by simp)
  · next hnone =>
    have hmethod := calledName?_eq_none_iff.mp hnone
    split at h
    · next hdigits =>
      split at h
      · exact absurd h (by simp)
      · next hrange =>
        obtain rfl := Except.ok.inj h
        exact .index hstandard hmethod (List.all_eq_true.mp hdigits) (by omega) (by omega)
    · next hindex =>
      obtain rfl := Except.ok.inj h
      refine .property hstandard hmethod ?_
      simpa using hindex

private theorem decimalValue_toDigits (k : Nat) : decimalValue (Nat.toDigits 10 k) = k := by
  have hfold : decimalValue (Nat.toDigits 10 k) = Nat.ofDigitChars 10 (Nat.toDigits 10 k) 0 := by
    rw [decimalValue, Nat.ofDigitChars_eq_foldl]
    congr 1
    funext m c
    rw [Nat.mul_comm]
    rfl
  rw [hfold, Nat.ofDigitChars_ten_toDigits]

/-- Digits neither start by naming an object nor end in a call. -/
private theorem digits_stand (h : ∀ c ∈ token, c.isDigit = true) :
    ¬ ['@'] <+: token ∧ ¬ ['(', ')'] <:+ token := by
  constructor
  · intro hstart
    exact absurd (h '@' (hstart.subset (by simp))) (by decide)
  · intro hsuffix
    exact absurd (h '(' (hsuffix.subset (by simp))) (by decide)

/-- **The text of a segment stands for the segment.** -/
theorem stands_text (h : s.WellFormed) (hs : s ≠ .parent)
    (hfirst : ∀ name, s = .standard name → first = true) : Stands first s.text s := by
  rcases h with ⟨-, -, hstandard, hmethod, hindex⟩ | ⟨hcounted, hbounded⟩ | ⟨hne, hchars, hstart⟩ |
    _ | _
  · next name =>
    have h : Stands first name.toList (.property (String.ofList name.toList)) :=
      .property hstandard hmethod hindex
    rwa [String.ofList_toList] at h
  · next k =>
    have hdigits : ∀ c ∈ Nat.toDigits 10 k, c.isDigit = true :=
      fun c hc ↦ Nat.isDigit_of_mem_toDigits (by decide) (by decide) hc
    obtain ⟨hstandard, hmethod⟩ := digits_stand hdigits
    have hvalue := decimalValue_toDigits k
    have h : Stands first (Nat.toDigits 10 k) (.index (decimalValue (Nat.toDigits 10 k))) :=
      .index hstandard hmethod hdigits (hvalue.symm ▸ hcounted) (hvalue.symm ▸ hbounded)
    rwa [hvalue] at h
  · next name =>
    have hstandard : ¬ ['@'] <+: name.toList ++ ['(', ')'] := by
      obtain ⟨c, cs, hname⟩ := List.exists_cons_of_ne_nil hne
      rw [hname, List.cons_append, List.cons_prefix_cons]
      rintro ⟨rfl, -⟩
      exact absurd (hchars '@' (by rw [hname]; exact List.mem_cons_self)) (by decide)
    have h : Stands first (name.toList ++ ['(', ')']) (.method (String.ofList name.toList)) :=
      .method hstandard (isMethodName_iff.mpr ⟨hne, hchars, hstart⟩)
    rwa [String.ofList_toList] at h
  · exact absurd rfl hs
  · next name _ =>
    have h : Stands first ('@' :: name.toList) (.standard (String.ofList name.toList)) :=
      .standard (hfirst name rfl)
    rwa [String.ofList_toList] at h

/-- **A token stands for a well-formed segment.** -/
theorem Stands.wellFormed (h : Stands first token s) (hne : token ≠ [])
    (hunbroken : Segment.Unbroken token) :
    s.WellFormed ∧ ∀ name, s = .standard name → first = true := by
  rcases h with hfirst | ⟨-, hvalid⟩ | ⟨-, -, -, hcounted, hbounded⟩ | ⟨hstandard, hmethod, hindex⟩
  · refine ⟨.standard ?_, fun _ _ ↦ hfirst⟩
    rw [String.toList_ofList]
    exact (Segment.unbroken_cons.mp hunbroken).2
  · obtain ⟨hname, hchars, hstart⟩ := isMethodName_iff.mp hvalid
    refine ⟨.method ?_ ?_ ?_, by simp⟩ <;> rwa [String.toList_ofList]
  · exact ⟨.index hcounted hbounded, by simp⟩
  · refine ⟨.property ?_ ?_ ?_ ?_ ?_, by simp⟩ <;> rwa [String.toList_ofList]

private theorem finish_of_stands (h : Stands found.isEmpty token.reverse s) (hne : token ≠ []) :
    finish token found = .ok (s :: found) := by
  rw [finish, if_neg (by simpa using hne), classify_of_stands h]
  rfl

/-- **Finishing a token adds nothing, or a segment that the token stands for.** -/
theorem finish_cases (h : finish token found = .ok found') : found' = found ∨
    token ≠ [] ∧ ∃ s, Stands found.isEmpty token.reverse s ∧ found' = s :: found := by
  rw [finish] at h
  split at h
  · exact .inl (Except.ok.inj h).symm
  · next hne =>
    rcases hclassify : classify token.reverse found.isEmpty with e | s
    · rw [hclassify] at h
      exact absurd h (by simp [Except.map])
    · rw [hclassify] at h
      exact .inr ⟨by simpa using hne, s, stands_of_classify hclassify, (Except.ok.inj h).symm⟩

/-! ## Reading

The parser has two states, inside a token and between tokens. A token is carried along until
something finishes it, and only then does it matter what it says. -/

private theorem readSegments_append (hcs : '.' ∉ cs) (token : List Char) (found : List Segment)
    (rest : List Char) :
    readSegments token found (cs ++ rest) = readSegments (cs.reverse ++ token) found rest := by
  induction cs generalizing token with
  | nil => rfl
  | cons c cs ih =>
    rw [List.mem_cons, not_or] at hcs
    rw [List.cons_append, readSegments, ih hcs.2, List.reverse_cons, List.append_assoc]
    · rfl
    · exact fun _ hc _ ↦ hcs.1 hc.symm
    · exact fun hc ↦ hcs.1 hc.symm

/-- The end of the text or a dot finishes a token. -/
theorem readSegments_of_finish {tail : List Char} (h : finish token found = .ok found')
    (htail : ∀ c ∈ tail.head?, c = '.') :
    readSegments token found tail = readSegments [] found' tail := by
  have hnil : finish [] found' = .ok found' := rfl
  rcases tail with _ | ⟨c, tail⟩
  · rw [readSegments, readSegments, h, hnil]
  obtain rfl := htail c rfl
  by_cases hdot : ∃ rest, tail = '.' :: rest
  · obtain ⟨rest, rfl⟩ := hdot
    rw [readSegments, readSegments, h, hnil]
  · -- a dot alone: the parser looks whether another follows
    rw [readSegments, readSegments, h, hnil]
    all_goals exact fun rest hrest ↦ hdot ⟨rest, hrest⟩

theorem readSegments_dot {tail : List Char} (htail : tail.head? ≠ some '.') :
    readSegments [] found ('.' :: tail) = readSegments [] found tail := by
  rw [readSegments]
  · rfl
  · rintro rest rfl
    exact htail rfl

/-! ## Rendered segments -/

theorem unbroken_text (h : s.WellFormed) (hs : s ≠ .parent) : Segment.Unbroken s.text := by
  rcases h with ⟨-, hunbroken, -, -, -⟩ | _ | ⟨-, hchars, -⟩ | _ | ⟨hunbroken⟩
  · exact hunbroken
  · next k _ _ =>
    have hdigits (c : Char) (hc : c ∈ Nat.toDigits 10 k) : c.isDigit = true :=
      Nat.isDigit_of_mem_toDigits (by decide) (by decide) hc
    exact Segment.unbroken_of_forall hdigits (by decide) (by decide)
  · have hname := Segment.unbroken_of_forall hchars (by decide) (by decide)
    exact Segment.unbroken_append.mpr ⟨hname, by decide, by decide⟩
  · exact absurd rfl hs
  · exact Segment.unbroken_cons.mpr ⟨by decide, hunbroken⟩

private theorem text_ne_nil (h : s.WellFormed) : s.text ≠ [] := by
  rcases h with ⟨hne, -, -, -, -⟩ | _ | _ | _ | _
  · exact hne
  · exact Nat.toDigits_ne_nil
  · simp [Segment.text]
  · simp [Segment.text]
  · simp [Segment.text]

/-- What stands behind the text of a segment finishes it, and is read as the segments behind. -/
theorem readSegments_behind (hs : s ≠ .parent) (hwf : ∀ t ∈ rest, t.WellFormed) :
    (∀ c ∈ (joint s rest ++ renderChars rest).head?, c = '.') ∧ ∀ found,
      readSegments [] found (joint s rest ++ renderChars rest)
        = readSegments [] found (renderChars rest) := by
  rcases rest with _ | ⟨t, rest⟩
  · exact ⟨by simp [joint, renderChars], fun _ ↦ rfl⟩
  rw [joint]
  by_cases ht : t = .parent
  · rw [if_pos (.inr ht), ht]
    exact ⟨by simp [renderChars, Segment.text], fun _ ↦ rfl⟩
  · have htwf := hwf t List.mem_cons_self
    have hhead : (renderChars (t :: rest)).head? ≠ some '.' := by
      have hdot := (unbroken_text htwf ht).1
      obtain ⟨c, cs, hc⟩ := List.exists_cons_of_ne_nil (text_ne_nil htwf)
      rw [hc] at hdot
      rw [renderChars, hc, List.cons_append, List.head?_cons]
      rintro ⟨⟩
      exact hdot List.mem_cons_self
    rw [if_neg (by simp [hs, ht])]
    exact ⟨by simp, fun found ↦ readSegments_dot hhead⟩

/-- **Rendered segments are read segment by segment.** -/
theorem readSegments_renderChars (hwf : ∀ s ∈ segments, s.WellFormed)
    (hfirst : ∀ name, segments.head? = some (.standard name) → found = [])
    (htail : ∀ name, .standard name ∉ segments.tail) :
    readSegments [] found (renderChars segments) = .ok (found.reverse ++ segments) := by
  induction segments generalizing found with
  | nil => rw [renderChars, readSegments, List.append_nil]; rfl
  | cons s rest ih =>
    rw [List.forall_mem_cons] at hwf
    -- behind the first segment none names an object, so it no longer matters what has been found
    have hread : readSegments [] (s :: found) (renderChars rest)
        = .ok (found.reverse ++ s :: rest) := by
      rw [ih hwf.2 (fun name hname ↦ ?_) fun name hname ↦ ?_, List.reverse_cons,
        List.append_assoc]
      · rfl
      · exact absurd (List.mem_of_mem_head? hname) (htail name)
      · exact absurd (List.mem_of_mem_tail hname) (htail name)
    rw [renderChars]
    by_cases hs : s = .parent
    · subst hs
      have hjoint : joint .parent rest = [] := by
        rcases rest with _ | ⟨t, rest⟩
        · rfl
        · rw [joint, if_pos (.inl rfl)]
      rw [hjoint, List.nil_append, Segment.text]
      exact hread
    · obtain ⟨hdot, hbehind⟩ := readSegments_behind hs hwf.2
      have hstands : Stands found.isEmpty s.text s := by
        refine stands_text hwf.1 hs fun name hname ↦ ?_
        rw [hfirst name (by rw [hname, List.head?_cons]), List.isEmpty_nil]
      have hfinish : finish s.text.reverse found = .ok (s :: found) := by
        refine finish_of_stands ?_ ?_
        · rwa [List.reverse_reverse]
        · simpa using text_ne_nil hwf.1
      rw [readSegments_append (unbroken_text hwf.1 hs).1, List.append_nil,
        readSegments_of_finish hfinish hdot, hbehind, hread]

/-! ## What is read

For the converse the invariant is on the segments found so far: they are well-formed, whatever the
rest of the text is. -/

private theorem WellFormed.finish (h : finish token found = .ok found')
    (hfound : WellFormed found.reverse)
    (htoken : Segment.Unbroken token) : WellFormed found'.reverse := by
  obtain rfl | ⟨hne, s, hstands, rfl⟩ := finish_cases h
  · exact hfound
  obtain ⟨hs, hfirst⟩ := hstands.wellFormed (by simpa using hne) (by
    simpa [Segment.Unbroken] using htoken)
  rw [List.reverse_cons]
  refine hfound.concat hs fun name hname ↦ ?_
  simpa using hfirst name hname

theorem WellFormed.parent (h : WellFormed found.reverse) :
    WellFormed (Segment.parent :: found).reverse := by
  rw [List.reverse_cons]
  exact h.concat .parent (by simp)

/-- **What is read is well-formed.** -/
theorem wellFormed_of_readSegments (h : readSegments token found cs = .ok segments)
    (hfound : WellFormed found.reverse) (htoken : Segment.Unbroken token) (hcs : '?' ∉ cs) :
    WellFormed segments := by
  -- the end of the text, two dots, one dot and any other character; a bad token ends the reading
  fun_induction readSegments token found cs with
  | case1 token found =>
    rcases hfinish : finish token found with e | found'
    · rw [hfinish] at h
      exact absurd h (by simp [Except.map])
    · rw [hfinish] at h
      obtain rfl := Except.ok.inj h
      exact hfound.finish hfinish htoken
  | case2 token found rest found' hfinish ih =>
    rw [List.mem_cons, List.mem_cons, not_or, not_or] at hcs
    exact ih h (hfound.finish hfinish htoken).parent ⟨by simp, by simp⟩ hcs.2.2
  | case3 => exact absurd h (by simp)
  | case4 token found rest _ found' hfinish ih =>
    rw [List.mem_cons, not_or] at hcs
    exact ih h (hfound.finish hfinish htoken) ⟨by simp, by simp⟩ hcs.2
  | case5 => exact absurd h (by simp)
  | case6 token found c rest _ hdot ih =>
    rw [List.mem_cons, not_or] at hcs
    exact ih h hfound (Segment.unbroken_cons.mpr ⟨⟨hdot, Ne.symm hcs.1⟩, htoken⟩) hcs.2

/-! ## Paths

Neither the name of a segment nor a rendered list has a question mark in it, so the part in front of
the first one is the list and all behind it is parameters. -/

theorem not_mem_baseChars (cs : List Char) : '?' ∉ baseChars cs := by
  intro h
  have hall := List.all_eq_true.mp (List.all_takeWhile (p := (· != '?')) (l := cs)) '?' h
  exact absurd hall (by decide)

/-- The first question mark ends the text of the segments. -/
theorem baseChars_append (h : '?' ∉ cs) (tail : List Char) :
    baseChars (cs ++ tail) = cs ++ baseChars tail ∧ queryChars (cs ++ tail) = queryChars tail := by
  have hcs : ∀ c ∈ cs, (c != '?') = true := by
    intro c hc
    rw [bne_iff_ne]
    rintro rfl
    exact h hc
  constructor
  · exact List.takeWhile_append_of_pos hcs
  · rw [queryChars, List.dropWhile_append_of_pos hcs, queryChars]

theorem baseChars_of_not_mem (h : '?' ∉ cs) : baseChars cs = cs ∧ queryChars cs = [] := by
  have happend := baseChars_append h []
  rw [List.append_nil] at happend
  rw [happend.1, happend.2]
  exact ⟨List.append_nil cs, rfl⟩

/-- A text is read as a path if the part in front of the first question mark has segments. -/
theorem parse_eq_ok_iff {raw : String} {p : Path} : parse raw = .ok p ↔
    ∃ segments, readSegments [] [] (baseChars raw.toList) = .ok segments ∧
      p = ⟨raw, segments, readParams (queryChars raw.toList)⟩ := by
  rw [parse]
  rcases readSegments [] [] (baseChars raw.toList) with e | segments
  · simp [Except.map]
  · simp [Except.map, eq_comm]

theorem toList_base (p : Path) : p.base.toList = baseChars p.raw.toList := String.toList_ofList

private theorem not_mem_renderChars (h : ∀ s ∈ segments, s.WellFormed) :
    '?' ∉ renderChars segments := by
  induction segments with
  | nil => simp [renderChars]
  | cons s rest ih =>
    rw [List.forall_mem_cons] at h
    have htext : '?' ∉ s.text := by
      by_cases hs : s = .parent
      · rw [hs]
        decide
      · exact (unbroken_text h.1 hs).2
    have hjoint : '?' ∉ joint s rest := by
      rcases rest with _ | ⟨t, rest⟩
      · simp [joint]
      · rw [joint]
        split <;> decide
    rw [renderChars, List.mem_append, List.mem_append, not_or, not_or]
    exact ⟨htext, hjoint, ih h.2⟩

theorem parse_of_wellFormed (h : WellFormed segments) :
    parse (render segments) = .ok ⟨render segments, segments, .empty⟩ := by
  obtain ⟨hbase, hquery⟩ := baseChars_of_not_mem (not_mem_renderChars h.each)
  refine parse_eq_ok_iff.mpr ⟨segments, ?_, ?_⟩
  · rw [render, String.toList_ofList, hbase]
    exact readSegments_renderChars h.each (fun _ _ ↦ rfl) h.standard_first
  · rw [render, String.toList_ofList, hquery]
    rfl

theorem wellFormed_of_parse {raw : String} {p : Path} (h : parse raw = .ok p) :
    WellFormed p.segments := by
  obtain ⟨segments, hread, rfl⟩ := parse_eq_ok_iff.mp h
  refine wellFormed_of_readSegments hread ⟨by simp, by simp⟩ ⟨by simp, by simp⟩ ?_
  exact not_mem_baseChars raw.toList

private theorem toList_append_query (raw query : String) :
    (raw ++ "?" ++ query).toList = raw.toList ++ '?' :: query.toList := by
  simp

theorem parse_append_query {raw : String} {p : Path} (hraw : '?' ∉ raw.toList)
    (h : parse raw = .ok p) (query : String) : parse (raw ++ "?" ++ query)
      = .ok ⟨raw ++ "?" ++ query, p.segments, readParams query.toList⟩ := by
  obtain ⟨segments, hread, rfl⟩ := parse_eq_ok_iff.mp h
  obtain ⟨hbase, hquery⟩ := baseChars_append hraw ('?' :: query.toList)
  rw [(baseChars_of_not_mem hraw).1] at hread
  refine parse_eq_ok_iff.mpr ⟨segments, ?_, ?_⟩
  · rw [toList_append_query, hbase]
    exact (List.append_nil raw.toList).symm ▸ hread
  · rw [toList_append_query, hquery]
    rfl

theorem parse_base {raw : String} {p : Path} (h : parse raw = .ok p) :
    parse p.base = .ok ⟨p.base, p.segments, .empty⟩ := by
  obtain ⟨segments, hread, rfl⟩ := parse_eq_ok_iff.mp h
  obtain ⟨hbase, hquery⟩ := baseChars_of_not_mem (not_mem_baseChars raw.toList)
  refine parse_eq_ok_iff.mpr ⟨segments, ?_, ?_⟩
  · rwa [toList_base, hbase]
  · rw [toList_base, hquery]
    rfl

/-- **Parsing undoes rendering**, on the well-formed lists of segments and only on them; no other
lists are parsed; and parameters change neither the segments nor the base of a path, which alone is
read as the same segments. -/
theorem parse_render :
    (∀ segments, parse (render segments) = .ok ⟨render segments, segments, .empty⟩ ↔
      WellFormed segments) ∧
    (∀ raw p, parse raw = .ok p → WellFormed p.segments) ∧
    (∀ raw p query, '?' ∉ raw.toList → parse raw = .ok p →
      ∃ p', parse (raw ++ "?" ++ query) = .ok p' ∧ p'.segments = p.segments ∧ p'.base = p.base) ∧
    ∀ raw p, parse raw = .ok p → parse p.base = .ok ⟨p.base, p.segments, .empty⟩ := by
  refine ⟨fun segments ↦ ⟨fun h ↦ wellFormed_of_parse h, parse_of_wellFormed⟩,
    fun raw p h ↦ wellFormed_of_parse h, ?_, fun raw p h ↦ parse_base h⟩
  intro raw p query hraw h
  refine ⟨_, parse_append_query hraw h query, rfl, ?_⟩
  obtain ⟨segments, -, rfl⟩ := parse_eq_ok_iff.mp h
  rw [← String.toList_inj, toList_base, toList_base]
  rw [toList_append_query, (baseChars_append hraw _).1, (baseChars_of_not_mem hraw).1]
  exact List.append_nil raw.toList

end Path

end ReactiveVars
