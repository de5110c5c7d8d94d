import ReactiveVars.Proofs.Json.Numerals
import ReactiveVars.Proofs.Order.Maps

/-!
# Reading back what is written

The reader takes the tokens of a value one by one, with the arrays and objects that are open on a
stack. From the place where a value may come, the tokens of the value lead to the place behind it,
and leave the stack as it was. So a text is read as its value, with the fields of each object put in
order, as long as arrays and objects do not nest too deep.

Numbers are the ones that may be lost. An integer is read back within 64 bits. That a double is read
back is a property of the double, `Json.ReadsBack`, since the reader rounds more than once.

## Main statements

* `Json.read_text_eq`: what the text of a value is read as, or whether it is refused.
* `Json.depth_le_of_reread?`, `Json.readsBack_of_reread?`: what a value needs to be read back.
* `Json.read_text`: the text of a value is read as the value with its fields in order.
-/

namespace ReactiveVars.Json

open Double

/-! ## What is read

A value can differ from what its text is read as in two ways. Fields that were not in order come
back in order, which `sorted` says, and numbers may come back as others or not at all, which
`Readable` excludes. -/

mutual

/-- The value with the fields of its objects in order; of two with one name the later counts. -/
def sorted : Json → Json
  | array items => array (sortedItems items)
  | object fields => ofFields (sortedFields fields)
  | v => v

/-- Items with the fields of their objects in order. -/
def sortedItems : List Json → List Json
  | [] => []
  | v :: vs => sorted v :: sortedItems vs

/-- Fields with the fields of the objects in them in order. -/
def sortedFields : List (String × Json) → List (String × Json)
  | [] => []
  | (k, v) :: es => (k, sorted v) :: sortedFields es

end

mutual

/-- Whether the numbers in a value are read back: integers fit into 64 bits, and the text of each
double is read as the double. -/
def Readable : Json → Prop
  | int n => minSigned ≤ n ∧ n < UInt64.size
  | double d => (double d).ReadsBack
  | array items => ReadableItems items
  | object fields => ReadableFields fields
  | _ => True

/-- All items are readable. -/
def ReadableItems : List Json → Prop
  | [] => True
  | v :: vs => Readable v ∧ ReadableItems vs

/-- The values of all fields are readable. -/
def ReadableFields : List (String × Json) → Prop
  | [] => True
  | (_, v) :: es => Readable v ∧ ReadableFields es

end

mutual

/-- The doubles in a value. -/
def doubles : Json → List Double
  | double d => [d]
  | array items => doublesOfItems items
  | object fields => doublesOfFields fields
  | _ => []

/-- The doubles in items. -/
def doublesOfItems : List Json → List Double
  | [] => []
  | v :: vs => doubles v ++ doublesOfItems vs

/-- The doubles in the values of fields. -/
def doublesOfFields : List (String × Json) → List Double
  | [] => []
  | (_, v) :: es => doubles v ++ doublesOfFields es

end

theorem sortedItems_eq_map (vs : List Json) : sortedItems vs = vs.map sorted := by
  induction vs with
  | nil => rfl
  | cons v vs ih => rw [sortedItems, ih, List.map_cons]

theorem readableItems_iff {vs : List Json} : ReadableItems vs ↔ ∀ v ∈ vs, v.Readable := by
  induction vs with
  | nil => simp [ReadableItems]
  | cons v vs ih => rw [ReadableItems, ih, List.forall_mem_cons]

theorem wellFormedFields_iff {es : List (String × Json)} :
    WellFormedFields es ↔ ∀ e ∈ es, e.2.WellFormed := by
  induction es with
  | nil => simp [WellFormedFields]
  | cons e es ih => rw [WellFormedFields, ih, List.forall_mem_cons]

mutual

theorem sorted_of_wellFormed {v : Json} (h : v.WellFormed) : v.sorted = v := by
  match v with
  | null | bool b | int n | double d | string s => rfl
  | array items =>
    rw [WellFormed] at h
    rw [sorted, sortedItems_of_wellFormed h]
  | object fields =>
    rw [WellFormed] at h
    rw [sorted, sortedFields_of_wellFormed h.2, ofFields, h.1.foldl_insert]

theorem sortedItems_of_wellFormed {vs : List Json} (h : WellFormedItems vs) :
    sortedItems vs = vs := by
  match vs with
  | [] => rfl
  | v :: vs =>
    rw [WellFormedItems] at h
    rw [sortedItems, sorted_of_wellFormed h.1, sortedItems_of_wellFormed h.2]

theorem sortedFields_of_wellFormed {es : List (String × Json)} (h : WellFormedFields es) :
    sortedFields es = es := by
  match es with
  | [] => rfl
  | (k, v) :: es =>
    rw [WellFormedFields] at h
    rw [sortedFields, sorted_of_wellFormed h.1, sortedFields_of_wellFormed h.2]

end

mutual

theorem readable_of_wellFormed {v : Json} (h : v.WellFormed)
    (hd : ∀ d ∈ v.doubles, (double d).ReadsBack) : v.Readable := by
  match v with
  | null | bool b | string s => trivial
  | int n => rwa [WellFormed] at h
  | double d => exact hd d List.mem_cons_self
  | array items =>
    rw [WellFormed] at h
    exact readableItems_of_wellFormed h hd
  | object fields =>
    rw [WellFormed] at h
    exact readableFields_of_wellFormed h.2 hd

theorem readableItems_of_wellFormed {vs : List Json} (h : WellFormedItems vs)
    (hd : ∀ d ∈ doublesOfItems vs, (double d).ReadsBack) : ReadableItems vs := by
  match vs with
  | [] => trivial
  | v :: vs =>
    rw [WellFormedItems] at h
    rw [doublesOfItems, List.forall_mem_append] at hd
    exact ⟨readable_of_wellFormed h.1 hd.1, readableItems_of_wellFormed h.2 hd.2⟩

theorem readableFields_of_wellFormed {es : List (String × Json)} (h : WellFormedFields es)
    (hd : ∀ d ∈ doublesOfFields es, (double d).ReadsBack) : ReadableFields es := by
  match es with
  | [] => trivial
  | (k, v) :: es =>
    rw [WellFormedFields] at h
    rw [doublesOfFields, List.forall_mem_append] at hd
    exact ⟨readable_of_wellFormed h.1 hd.1, readableFields_of_wellFormed h.2 hd.2⟩

end

/-! ## What a text is read as

`reread?` says without any tokens what the reader makes of the text of a value: it goes through the
value and reads the text of each number by itself. That the reader does this is proved with any
stack of open arrays and objects, and any tokens behind the value. -/

mutual

/-- What the text of a value is read as where so many arrays and objects may still be opened;
nothing if it is refused. -/
def reread? (room : Nat) : Json → Option Json
  | int n => (read (Utf8.ofString (text (int n)))).toOption
  | double d => (read (Utf8.ofString (text (double d)))).toOption
  | array items => if room = 0 then none else (rereadItems? (room - 1) items).map array
  | object fields => if room = 0 then none else (rereadFields? (room - 1) fields).map ofFields
  | v => some v

/-- What the texts of items are read as. -/
def rereadItems? (room : Nat) : List Json → Option (List Json)
  | [] => some []
  | v :: vs => (reread? room v).bind fun v' ↦ (rereadItems? room vs).map (v' :: ·)

/-- What the texts of fields are read as, with their names. -/
def rereadFields? (room : Nat) : List (String × Json) → Option (List (String × Json))
  | [] => some []
  | (k, v) :: es =>
    (reread? room v).bind fun v' ↦ (rereadFields? room es).map ((k, v') :: ·)

end

/-- Reads on behind a value, if there is one. -/
def readBehind (v : Option Json) (stack : List Frame) (tokens : List Token) : Except Fault Json :=
  match v with
  | some v => readFrom (.after v) stack tokens
  | none => .error .malformed

/-- A number that is one token is read in any place as it is read alone. -/
private theorem readFrom_number {v : Json} (literal : Literal)
    (htokens : ∀ {rest : List Char}, Closes rest →
      tokensOf (v.write rest) = .number literal :: tokensOf rest)
    (stack : List Frame) {rest : List Char} (h : Closes rest) :
    readFrom .value stack (tokensOf (v.write rest))
      = readBehind (read (Utf8.ofString v.text)).toOption stack (tokensOf rest) := by
  rw [read_of_tokens (htokens closes_nil), htokens h, tokensOf_nil, readFrom, readFrom]
  rcases hvalue : literal.value? with _ | n | d <;>
    simp only [advance, startValue, hvalue] <;> rfl

/-- Where an array may end, a value does not, so its first item is read like any other. -/
private theorem readFrom_item (stack : List Frame) (v : Json) (rest : List Char) :
    readFrom .item stack (tokensOf (v.write rest))
      = readFrom .value (.items [] :: stack) (tokensOf (v.write rest)) := by
  -- no value starts with the bracket that would close the array
  have hstart {token : Token} (hne : token ≠ .endArray) (ts : List Token) :
      readFrom .item stack (token :: ts) = readFrom .value (.items [] :: stack) (token :: ts) := by
    have hadvance : advance stack .item token = advance (.items [] :: stack) .value token := by
      rcases token <;> first | rfl | exact absurd rfl hne
    rw [readFrom, hadvance, readFrom]
  have hnumber (negative : Bool) {cs : List Char} (bytes : List Char)
      (hcs : ∃ c rest, cs = c :: rest ∧ c.isDigit = true) :
      readFrom .item stack (tokensOf (signText negative ++ cs ++ bytes))
        = readFrom .value (.items [] :: stack) (tokensOf (signText negative ++ cs ++ bytes)) := by
    have hhead : ∃ c rest, cs ++ bytes = c :: rest ∧ c.isDigit = true := by
      obtain ⟨c, tail, rfl, hc⟩ := hcs
      exact ⟨c, tail ++ bytes, rfl, hc⟩
    rw [List.append_assoc, tokensOf_signText negative hhead]
    refine hstart ?_ _
    rw [numberToken]
    split <;> simp
  rcases v with _ | (_ | _) | n | d | s | items | fields
  · rw [write, tokensOf_null, hstart (by simp)]
  · rw [write, tokensOf_false, hstart (by simp)]
  · rw [write, tokensOf_true, hstart (by simp)]
  · rw [write_int]
    exact hnumber _ rest (toDigits_head _)
  · obtain ⟨cs, q, htext, hwrites, -⟩ := d.text_form
    rw [write, htext]
    exact hnumber _ rest hwrites.form.1
  · rw [write, tokensOf_writeString, hstart (by simp)]
  · rw [write, tokensOf_bracket, hstart (by simp)]
  · rw [write, tokensOf_brace, hstart (by simp)]

mutual

/-- **The tokens of a value lead behind what its text is read as.** -/
theorem readFrom_write (v : Json) (stack : List Frame) {rest : List Char} (h : Closes rest) :
    readFrom .value stack (tokensOf (v.write rest))
      = readBehind (v.reread? (maxDepth - stack.length)) stack (tokensOf rest) := by
  match v with
  | null => rw [write, tokensOf_null]; rfl
  | bool true => rw [write, tokensOf_true]; rfl
  | bool false => rw [write, tokensOf_false]; rfl
  | int n =>
    rw [reread?]
    refine readFrom_number (intLiteral n) (fun hrest ↦ ?_) stack h
    rw [write_int, tokensOf_int n hrest]
  | double d =>
    obtain ⟨literal, htokens⟩ := tokensOf_text d
    rw [reread?]
    refine readFrom_number literal (fun hrest ↦ ?_) stack h
    rw [write, htokens hrest]
  | string s => rw [write, tokensOf_writeString]; rfl
  | array items =>
    rw [write, tokensOf_bracket, readFrom, advance, startValue, reread?]
    by_cases hroom : maxDepth - stack.length = 0
    · rw [if_neg (by omega), if_pos hroom]
      rfl
    rw [if_pos (by omega), if_neg hroom]
    rcases items with _ | ⟨v, vs⟩
    · rw [writeItems, tokensOf_closingBracket]
      rfl
    · -- an array that is not empty is entered by its first item
      have hitem : readFrom .item stack (tokensOf (writeItems (v :: vs) (']' :: rest)))
          = readFrom .value (.items [] :: stack)
            (tokensOf (writeItems (v :: vs) (']' :: rest))) := by
        rcases vs with _ | ⟨v', vs⟩ <;> exact readFrom_item stack v _
      exact hitem.trans (readFrom_writeItems (v :: vs) (by simp) [] stack)
  | object fields =>
    rw [write, tokensOf_brace, readFrom, advance, startValue, reread?]
    by_cases hroom : maxDepth - stack.length = 0
    · rw [if_neg (by omega), if_pos hroom]
      rfl
    rw [if_pos (by omega), if_neg hroom]
    rcases fields with _ | ⟨e, es⟩
    · rw [writeFields, tokensOf_closingBrace]
      rfl
    · exact readFrom_writeFields (e :: es) (by simp) [] true stack

theorem readFrom_writeItems (vs : List Json) (hne : vs ≠ []) (done : List Json)
    (stack : List Frame) {rest : List Char} :
    readFrom .value (.items done :: stack) (tokensOf (writeItems vs (']' :: rest)))
      = readBehind ((rereadItems? (maxDepth - stack.length - 1) vs).map fun vs' ↦
        array (done.reverse ++ vs')) stack (tokensOf rest) := by
  match vs with
  | [] => exact absurd rfl hne
  | [v] =>
    have hvalue := readFrom_write v (.items done :: stack)
      (closes_cons (by simp) rest : Closes (']' :: rest))
    rw [List.length_cons, ← Nat.sub_sub] at hvalue
    rw [writeItems, hvalue, tokensOf_closingBracket, rereadItems?, rereadItems?]
    rcases v.reread? (maxDepth - stack.length - 1) with _ | v'
    · rfl
    · rw [Option.bind_some, Option.map_some, Option.map_some, ← List.reverse_cons]
      rfl
  | v :: v' :: vs =>
    have hvalue := readFrom_write v (.items done :: stack)
      (closes_cons (by simp) (writeItems (v' :: vs) (']' :: rest)) : Closes (',' :: _))
    rw [List.length_cons, ← Nat.sub_sub] at hvalue
    rw [writeItems, hvalue, tokensOf_comma, rereadItems?]
    rcases v.reread? (maxDepth - stack.length - 1) with _ | u
    · rfl
    · refine (readFrom_writeItems (v' :: vs) (by simp) (u :: done) stack).trans ?_
      rw [Option.bind_some, Option.map_map]
      congr 2
      funext us
      rw [List.reverse_cons, List.append_assoc, List.singleton_append]
      rfl

theorem readFrom_writeFields (es : List (String × Json)) (hne : es ≠ [])
    (done : List (String × Json)) (mayEnd : Bool) (stack : List Frame) {rest : List Char} :
    readFrom (.name done mayEnd) stack (tokensOf (writeFields es ('\x7d' :: rest)))
      = readBehind ((rereadFields? (maxDepth - stack.length - 1) es).map fun es' ↦
        object (es'.foldl (fun es e ↦ Entries.insert e.1 e.2 es) done)) stack (tokensOf rest) := by
  have hname (k : String) (v : Json) (rest : List Char) :
      readFrom (.name done mayEnd) stack (tokensOf (writeString k (':' :: v.write rest)))
        = readFrom .value (.fields done k :: stack) (tokensOf (v.write rest)) := by
    rw [tokensOf_writeString, tokensOf_colon]
    rcases mayEnd <;> rfl
  match es with
  | [] => exact absurd rfl hne
  | [(k, v)] =>
    have hvalue := readFrom_write v (.fields done k :: stack)
      (closes_cons (by simp) rest : Closes ('\x7d' :: rest))
    rw [List.length_cons, ← Nat.sub_sub] at hvalue
    rw [writeFields, hname, hvalue, tokensOf_closingBrace, rereadFields?, rereadFields?]
    rcases v.reread? (maxDepth - stack.length - 1) with _ | v' <;> rfl
  | (k, v) :: e :: es =>
    have hvalue := readFrom_write v (.fields done k :: stack)
      (closes_cons (by simp) (writeFields (e :: es) ('\x7d' :: rest)) : Closes (',' :: _))
    rw [List.length_cons, ← Nat.sub_sub] at hvalue
    rw [writeFields, hname, hvalue, tokensOf_comma, rereadFields?]
    rcases v.reread? (maxDepth - stack.length - 1) with _ | u
    · rfl
    · refine (readFrom_writeFields (e :: es) (by simp) (Entries.insert k u done) false
        stack).trans ?_
      rw [Option.bind_some, Option.map_map]
      rfl

end

/-- **What the text of a value is read as**, or why it is refused. -/
theorem read_text_eq (v : Json) : read (Utf8.ofString v.text)
    = match v.reread? maxDepth with
      | some v' => .ok v'
      | none => .error .malformed := by
  rw [read_of_tokens rfl, readFrom_write v [] closes_nil, tokensOf_nil, List.length_nil,
    Nat.sub_zero]
  rcases v.reread? maxDepth with _ | v' <;> rfl

/-! ## Values that are read back

If a value is read back as itself then so is each of its doubles, since fields are read under their
own names and items in their own places. -/

mutual

/-- A readable value that does not nest too deep is read with the fields of its objects in order. -/
theorem reread?_of_readable {v : Json} (h : v.Readable) {room : Nat} (hdepth : v.depth ≤ room) :
    v.reread? room = some v.sorted := by
  match v with
  | null | bool b | string s => rfl
  | int n =>
    rw [Readable] at h
    rw [reread?, readsBack_int h]
    rfl
  | double d =>
    rw [Readable, ReadsBack] at h
    rw [reread?, h]
    rfl
  | array items =>
    rw [depth] at hdepth
    rw [Readable] at h
    rw [reread?, if_neg (by omega), rereadItems?_of_readable h (by omega)]
    rfl
  | object fields =>
    rw [depth] at hdepth
    rw [Readable] at h
    rw [reread?, if_neg (by omega), rereadFields?_of_readable h (by omega)]
    rfl

theorem rereadItems?_of_readable {vs : List Json} (h : ReadableItems vs) {room : Nat}
    (hdepth : depthOfItems vs ≤ room) : rereadItems? room vs = some (sortedItems vs) := by
  match vs with
  | [] => rfl
  | v :: vs =>
    rw [depthOfItems] at hdepth
    rw [ReadableItems] at h
    rw [rereadItems?, reread?_of_readable h.1 (by omega), rereadItems?_of_readable h.2 (by omega)]
    rfl

theorem rereadFields?_of_readable {es : List (String × Json)} (h : ReadableFields es) {room : Nat}
    (hdepth : depthOfFields es ≤ room) : rereadFields? room es = some (sortedFields es) := by
  match es with
  | [] => rfl
  | (k, v) :: es =>
    rw [depthOfFields] at hdepth
    rw [ReadableFields] at h
    rw [rereadFields?, reread?_of_readable h.1 (by omega),
      rereadFields?_of_readable h.2 (by omega)]
    rfl

end

mutual

theorem depth_le_of_reread? {v v' : Json} {room : Nat} (h : v.reread? room = some v') :
    v.depth ≤ room := by
  match v with
  | null | bool _ | int _ | double _ | string _ => exact Nat.zero_le room
  | array items =>
    rw [reread?] at h
    obtain ⟨hroom, h⟩ := Option.ite_none_left_eq_some.mp h
    obtain ⟨vs, hvs, -⟩ := Option.map_eq_some_iff.mp h
    have := depthOfItems_le_of_rereadItems? hvs
    rw [depth]
    omega
  | object fields =>
    rw [reread?] at h
    obtain ⟨hroom, h⟩ := Option.ite_none_left_eq_some.mp h
    obtain ⟨es, hes, -⟩ := Option.map_eq_some_iff.mp h
    have := depthOfFields_le_of_rereadFields? hes
    rw [depth]
    omega

theorem depthOfItems_le_of_rereadItems? {vs vs' : List Json} {room : Nat}
    (h : rereadItems? room vs = some vs') : depthOfItems vs ≤ room := by
  match vs with
  | [] => exact Nat.zero_le room
  | v :: vs =>
    rw [rereadItems?] at h
    obtain ⟨v', hv, h⟩ := Option.bind_eq_some_iff.mp h
    obtain ⟨us, hus, -⟩ := Option.map_eq_some_iff.mp h
    exact max_le (depth_le_of_reread? hv) (depthOfItems_le_of_rereadItems? hus)

theorem depthOfFields_le_of_rereadFields? {es es' : List (String × Json)} {room : Nat}
    (h : rereadFields? room es = some es') : depthOfFields es ≤ room := by
  match es with
  | [] => exact Nat.zero_le room
  | (k, v) :: es =>
    rw [rereadFields?] at h
    obtain ⟨v', hv, h⟩ := Option.bind_eq_some_iff.mp h
    obtain ⟨ds, hds, -⟩ := Option.map_eq_some_iff.mp h
    exact max_le (depth_le_of_reread? hv) (depthOfFields_le_of_rereadFields? hds)

end

theorem fst_of_rereadFields? {es es' : List (String × Json)} {room : Nat}
    (h : rereadFields? room es = some es') : es'.map Prod.fst = es.map Prod.fst := by
  induction es generalizing es' with
  | nil =>
    obtain rfl := Option.some.inj h
    rfl
  | cons e es ih =>
    rw [rereadFields?] at h
    obtain ⟨v', -, h⟩ := Option.bind_eq_some_iff.mp h
    obtain ⟨ds, hds, rfl⟩ := Option.map_eq_some_iff.mp h
    rw [List.map_cons, List.map_cons, ih hds]

/-- A name finds what the text of its value is read as. -/
theorem find?_of_rereadFields? {es es' : List (String × Json)} {room : Nat}
    (h : rereadFields? room es = some es') {k : String} {v : Json}
    (hv : Entries.find? k es = some v) :
    ∃ v', v.reread? room = some v' ∧ Entries.find? k es' = some v' := by
  induction es generalizing es' with
  | nil => exact absurd hv (by simp)
  | cons e es ih =>
    rw [rereadFields?] at h
    obtain ⟨u, hu, h⟩ := Option.bind_eq_some_iff.mp h
    obtain ⟨ds, hds, rfl⟩ := Option.map_eq_some_iff.mp h
    rw [Entries.find?_cons] at hv ⊢
    split at hv
    · next hk =>
      rw [if_pos hk, ← Option.some.inj hv]
      exact ⟨u, hu, rfl⟩
    · next hk =>
      rw [if_neg hk]
      exact ih hds hv

mutual

/-- The doubles of a value that is read back are read back. -/
theorem readsBack_of_reread? {v : Json} (hv : v.WellFormed) {room : Nat}
    (h : v.reread? room = some v) : ∀ d ∈ v.doubles, (double d).ReadsBack := by
  match v with
  | null | bool _ | int _ | string _ => exact fun d hd ↦ absurd hd (by simp [doubles])
  | double d =>
    rw [doubles, List.forall_mem_singleton, ReadsBack]
    rw [reread?] at h
    rcases hread : read (Utf8.ofString (text (double d))) with fault | v
    · rw [hread] at h
      exact absurd h (by simp [Except.toOption])
    · rw [hread] at h
      rw [Option.some.inj h]
  | array items =>
    rw [WellFormed] at hv
    rw [reread?] at h
    obtain ⟨vs, hvs, heq⟩ := Option.map_eq_some_iff.mp (Option.ite_none_left_eq_some.mp h).2
    rw [array.inj heq] at hvs
    exact readsBack_of_rereadItems? hv hvs
  | object fields =>
    rw [WellFormed] at hv
    rw [reread?] at h
    obtain ⟨es, hes, heq⟩ := Option.map_eq_some_iff.mp (Option.ite_none_left_eq_some.mp h).2
    -- the names are the same, so what is read is in order already
    have hascending : Entries.Ascending es := by
      rw [Entries.Ascending, ← List.pairwise_map, fst_of_rereadFields? hes]
      exact List.pairwise_map.mpr hv.1
    rw [ofFields, hascending.foldl_insert] at heq
    rw [object.inj heq] at hes
    exact readsBack_of_rereadFields? hv.2 hes

theorem readsBack_of_rereadItems? {vs : List Json} (hvs : WellFormedItems vs) {room : Nat}
    (h : rereadItems? room vs = some vs) : ∀ d ∈ doublesOfItems vs, (double d).ReadsBack := by
  match vs with
  | [] => exact fun d hd ↦ absurd hd (by simp [doublesOfItems])
  | v :: vs =>
    rw [WellFormedItems] at hvs
    rw [rereadItems?] at h
    obtain ⟨v', hv, h⟩ := Option.bind_eq_some_iff.mp h
    obtain ⟨us, hus, heq⟩ := Option.map_eq_some_iff.mp h
    rw [(List.cons.inj heq).1] at hv
    rw [(List.cons.inj heq).2] at hus
    rw [doublesOfItems, List.forall_mem_append]
    exact ⟨readsBack_of_reread? hvs.1 hv, readsBack_of_rereadItems? hvs.2 hus⟩

theorem readsBack_of_rereadFields? {es : List (String × Json)} (hes : WellFormedFields es)
    {room : Nat} (h : rereadFields? room es = some es) :
    ∀ d ∈ doublesOfFields es, (double d).ReadsBack := by
  match es with
  | [] => exact fun d hd ↦ absurd hd (by simp [doublesOfFields])
  | (k, v) :: es =>
    rw [WellFormedFields] at hes
    rw [rereadFields?] at h
    obtain ⟨v', hv, h⟩ := Option.bind_eq_some_iff.mp h
    obtain ⟨ds, hds, heq⟩ := Option.map_eq_some_iff.mp h
    obtain ⟨hhead, htail⟩ := List.cons.inj heq
    rw [(Prod.mk.inj hhead).2] at hv
    rw [htail] at hds
    rw [doublesOfFields, List.forall_mem_append]
    exact ⟨readsBack_of_reread? hes.1 hv, readsBack_of_rereadFields? hes.2 hds⟩

end

/-- **A text is read as its value with the fields in order.** -/
theorem read_text {v : Json} (hv : v.Readable) (hdepth : v.depth ≤ maxDepth) :
    read (Utf8.ofString v.text) = .ok v.sorted := by
  rw [read_text_eq, reread?_of_readable hv hdepth]

end ReactiveVars.Json
