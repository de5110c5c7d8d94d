import ReactiveVars.Proofs.Json.Readings
import ReactiveVars.Wire.Codec

/-!
# Batches survive the wire

A message has a slot for each of its fields, `Message.slots`, and those in which there is something
are written. They are read by their names, so the order in which the reader keeps them does not
matter. A name that was left out finds nothing, and what stands for nothing is what was left out.
The value of a message may be any JSON value; the names in it are below the names of the message and
not mistaken for them.

The ids of a message are integers of 64 bits and its value is well-formed. Doubles are the part of a
value that may be lost, so each of them is assumed to be read back from its own text.

## Main statement

* `Batch.decode_forms`: messages are read in each of the forms in which they may be written.
-/

namespace ReactiveVars

open Json MessageFields

/-! ## What a message may hold

These are the limits of the words of 64 bits in which the ids of a message are held, and of what the
reader of JSON keeps of a value. -/

/-- Whether a number is an integer of 64 bits with sign. -/
def Json.IsSigned (n : Int) : Prop := minSigned ≤ n ∧ n ≤ maxSigned

theorem Json.signed?_int {n : Int} (h : IsSigned n) : (int n).signed? = some n := if_pos h

private theorem Json.IsSigned.wellFormed {n : Int} (h : IsSigned n) : (int n).WellFormed := by
  rw [IsSigned, maxSigned] at h
  rw [WellFormed, UInt64.size]
  omega

/-- The ids are of 64 bits and the value is well-formed. -/
def Message.WellFormed : Message → Prop
  | create parent value _ id _ _ =>
    IsSigned parent ∧ (∀ v ∈ value, v.WellFormed) ∧ ∀ i ∈ id, IsSigned i
  | update id value _ => IsSigned id ∧ ∀ v ∈ value, v.WellFormed
  | watch id | unwatch id | destroy id | error id _ _ => IsSigned id

namespace Message

/-- The numbers of variables that a message names. -/
def ids : Message → List VarId
  | create parent _ _ id _ _ => parent :: id.toList
  | update id _ _ | watch id | unwatch id | destroy id | error id _ _ => [id]

/-- The value that a message carries. -/
def value? : Message → Option Json
  | create _ value _ _ _ _ | update _ value _ => value
  | _ => none

theorem wellFormed_iff {m : Message} :
    m.WellFormed ↔ (∀ id ∈ m.ids, IsSigned id) ∧ ∀ v ∈ m.value?, v.WellFormed := by
  rcases m with ⟨parent, value, ps, id, noWatch, unbound⟩ | _ | _ | _ | _ | _
  · simp only [WellFormed, ids, value?, List.forall_mem_cons, Option.mem_toList]
    rw [and_comm (a := ∀ v ∈ value, v.WellFormed), and_assoc]
    rfl
  all_goals simp [WellFormed, ids, value?]

end Message

/-! ## One field -/

private theorem mapM_map_eq_some {α β : Type} {f : α → β} {g : β → Option α} {as : List α}
    (h : ∀ a ∈ as, g (f a) = some a) : (as.map f).mapM g = some as := by
  induction as with
  | nil => rfl
  | cons a as ih =>
    rw [List.forall_mem_cons] at h
    rw [List.map_cons, List.mapM_cons, h.1, ih h.2]
    rfl

private theorem Properties.ofJson?_json (ps : Properties) :
    Properties.ofJson? ps.json = some ps := by
  have hentries : (ps.entries.map fun e ↦ (e.1, Json.string e.2)).mapM
      (fun e ↦ e.2.string?.map fun s ↦ (e.1, s)) = some ps.entries :=
    mapM_map_eq_some fun e _ ↦ rfl
  have hfields : ps.json.fields? = some (ps.entries.map fun e ↦ (e.1, Json.string e.2)) := rfl
  simp only [Properties.ofJson?, hfields, hentries, Option.bind_eq_bind, Option.bind_some,
    KeyMap.ofList_entries]
  rfl

private theorem Properties.wellFormed_json (ps : Properties) : ps.json.WellFormed := by
  refine ⟨List.pairwise_map.mpr ps.ascending, wellFormedFields_iff.mpr ?_⟩
  rw [List.forall_mem_map]
  intro e _
  trivial

namespace Message

/-- Properties as they are written, if there are any. -/
def writtenProperties (ps : Properties) : Option Json := if ps.isEmpty then none else some ps.json

/-- A flag as it is written, if it is true. -/
def writtenFlag (b : Bool) : Option Json := if b then some (.bool true) else none

@[simp] theorem orElse_writtenProperties (ps : Properties) :
    orElse Properties.ofJson? .empty (writtenProperties ps) = some ps := by
  rw [writtenProperties]
  split
  · next h =>
    rw [KeyMap.isEmpty, List.isEmpty_iff] at h
    have hempty : ps = .empty := KeyMap.ext_get? fun k ↦ by rw [KeyMap.get?, h]; rfl
    rw [hempty]
    rfl
  · exact ps.ofJson?_json

@[simp] theorem orElse_writtenFlag (b : Bool) :
    orElse Json.bool? false (writtenFlag b) = some b := by
  rcases b with _ | _ <;> rfl

private theorem orNull_id {id : Option VarId} (h : ∀ i ∈ id, IsSigned i) :
    orNull Json.signed? (id.map .int) = some id := by
  rcases id with _ | i
  · rfl
  · show (Json.signed? (.int i)).map some = _
    rw [signed?_int (h i rfl)]
    rfl

@[simp] theorem orNull_code (code : Option String) :
    orNull Json.string? (code.map .string) = some code := by
  rcases code with _ | s <;> rfl

/-! ## The slots of a message

A slot that holds nothing is not written. So the fields of a message are its filled slots in the
order of the slots, and the lookup by name is proved once for all of them. -/

/-- The names that a message may write, each with what it writes if it does. -/
def slots : Message → List (String × Option Json)
  | create parent value ps id noWatch unbound =>
    [("type", some (.string "create")), ("parentId", some (.int parent)), ("value", value),
      ("properties", writtenProperties ps), ("id", id.map .int),
      ("noWatch", writtenFlag noWatch), ("unbound", writtenFlag unbound)]
  | update id value ps =>
    [("type", some (.string "update")), ("id", some (.int id)), ("value", value),
      ("properties", writtenProperties ps)]
  | watch id => [("type", some (.string "watch")), ("id", some (.int id))]
  | unwatch id => [("type", some (.string "unwatch")), ("id", some (.int id))]
  | destroy id => [("type", some (.string "destroy")), ("id", some (.int id))]
  | error id code description =>
    [("type", some (.string "error")), ("id", some (.int id)), ("code", code.map .string),
      ("description", some (.string description))]

/-- The fields of the slots in which something is written. -/
def filled (slots : List (String × Option Json)) : List (String × Json) :=
  slots.flatMap fun e ↦ optional e.1 e.2

private theorem fields_eq_filled (m : Message) :
    ("type", .string m.kind) :: m.fields = filled m.slots := by
  have hproperties (ps : Properties) :
      propertiesField ps = optional "properties" (writtenProperties ps) := by
    rw [propertiesField, writtenProperties]
    split <;> rfl
  have hflag (name : String) (b : Bool) : flagField name b = optional name (writtenFlag b) := by
    rcases b with _ | _ <;> rfl
  have hsome (name : String) (v : Json) : optional name (some v) = [(name, v)] := rfl
  rcases m <;> simp [fields, kind, slots, filled, hproperties, hflag, hsome]

theorem json_eq (m : Message) : m.json = .object (filled m.slots) := by
  rw [json, fields_eq_filled]

section Filled

variable {k : String} {es : List (String × Option Json)}

theorem find?_filled (h : (es.map Prod.fst).Nodup) :
    Entries.find? k (filled es) = (Entries.find? k es).join := by
  induction es with
  | nil => rfl
  | cons e es ih =>
    obtain ⟨name, value⟩ := e
    rw [List.map_cons, List.nodup_cons] at h
    rw [filled, List.flatMap_cons, ← filled, Entries.find?_append, ih h.2, Entries.find?_cons]
    by_cases hname : name = k
    · -- no other slot has this name, so an empty slot finds nothing behind it
      have hnone : Entries.find? k es = none := by
        apply Entries.find?_eq_none
        rintro e he rfl
        exact h.1 (List.mem_map.mpr ⟨e, he, hname.symm⟩)
      rw [if_pos hname, hnone]
      rcases value with _ | v
      · rfl
      · rw [optional, Option.map_some, Option.toList_some, Entries.find?_cons, if_pos hname]
        rfl
    · rw [if_neg hname]
      rcases value with _ | v
      · rfl
      · rw [optional, Option.map_some, Option.toList_some, Entries.find?_cons, if_neg hname]
        rfl

theorem nodup_filled (h : (es.map Prod.fst).Nodup) : ((filled es).map Prod.fst).Nodup := by
  refine h.sublist ?_
  induction es with
  | nil => exact List.nil_sublist _
  | cons e es ih =>
    obtain ⟨name, value⟩ := e
    rw [List.map_cons, List.nodup_cons] at h
    rw [filled, List.flatMap_cons, ← filled, List.map_append]
    rcases value with _ | v
    · exact (ih h.2).cons name
    · exact (ih h.2).cons_cons name

theorem wellFormedFields_filled (h : ∀ e ∈ es, ∀ v ∈ e.2, v.WellFormed) :
    WellFormedFields (filled es) := by
  rw [wellFormedFields_iff, filled]
  intro e he
  obtain ⟨⟨name, value⟩, hmem, he⟩ := List.mem_flatMap.mp he
  rw [optional, Option.mem_toList] at he
  obtain ⟨v, hv, rfl⟩ := Option.map_eq_some_iff.mp he
  exact h _ hmem v hv

end Filled

theorem nodup_slots (m : Message) : (m.slots.map Prod.fst).Nodup := by
  rcases m <;> simp [slots]

theorem find?_type (m : Message) :
    (Entries.find? "type" m.slots).join = some (.string m.kind) := by
  rcases m <;> rfl

private theorem find?_messages (m : Message) : (Entries.find? "messages" m.slots).join = none := by
  rcases m <;> simp [slots, Entries.find?_cons]

/-- What a message writes besides its value: texts, truth values, ids and properties. -/
theorem value_or_of_mem_slots {P : Json → Prop} (m : Message) (hstring : ∀ s, P (.string s))
    (hbool : ∀ b, P (.bool b)) (hid : ∀ id ∈ m.ids, P (.int id))
    (hproperties : ∀ ps : Properties, P ps.json) :
    ∀ e ∈ m.slots, ∀ v ∈ e.2, m.value? = some v ∨ P v := by
  have hsome {u : Json} (hu : P u) : ∀ v ∈ some u, m.value? = some v ∨ P v := by
    rintro v ⟨⟩
    exact .inr hu
  have hmap {α : Type} {f : α → Json} {a : Option α} (h : ∀ x ∈ a, P (f x)) :
      ∀ v ∈ a.map f, m.value? = some v ∨ P v := by
    intro v hv
    obtain ⟨x, hx, rfl⟩ := Option.map_eq_some_iff.mp hv
    exact .inr (h x hx)
  have hwritten (ps : Properties) : ∀ v ∈ writtenProperties ps, m.value? = some v ∨ P v := by
    rw [writtenProperties]
    split
    · simp
    · exact hsome (hproperties ps)
  have hflag (b : Bool) : ∀ v ∈ writtenFlag b, m.value? = some v ∨ P v := by
    rcases b with _ | _
    · simp [writtenFlag]
    · exact hsome (hbool true)
  -- one case for each kind of message, slot by slot
  rcases m with ⟨parent, value, ps, id, noWatch, unbound⟩ | ⟨id, value, ps⟩ | id | id | id |
    ⟨id, code, description⟩
  · simp only [ids, List.forall_mem_cons, Option.mem_toList] at hid
    simp only [slots, List.forall_mem_cons]
    exact ⟨hsome (hstring _), hsome hid.1, fun v hv ↦ .inl hv, hwritten ps, hmap hid.2,
      hflag noWatch, hflag unbound, nofun⟩
  all_goals rw [ids, List.forall_mem_singleton] at hid
  · simp only [slots, List.forall_mem_cons]
    exact ⟨hsome (hstring _), hsome hid, fun v hv ↦ .inl hv, hwritten ps, nofun⟩
  · simp only [slots, List.forall_mem_cons]
    exact ⟨hsome (hstring _), hsome hid, nofun⟩
  · simp only [slots, List.forall_mem_cons]
    exact ⟨hsome (hstring _), hsome hid, nofun⟩
  · simp only [slots, List.forall_mem_cons]
    exact ⟨hsome (hstring _), hsome hid, nofun⟩
  · simp only [slots, List.forall_mem_cons]
    exact ⟨hsome (hstring _), hsome hid, hmap fun s _ ↦ hstring s, hsome (hstring _), nofun⟩

theorem wellFormed_slots {m : Message} (hm : m.WellFormed) :
    ∀ e ∈ m.slots, ∀ v ∈ e.2, v.WellFormed := by
  obtain ⟨hids, hvalue⟩ := wellFormed_iff.mp hm
  have hslots := m.value_or_of_mem_slots (P := Json.WellFormed) (fun s ↦ trivial)
    (fun b ↦ trivial) (fun id hid ↦ (hids id hid).wellFormed) Properties.wellFormed_json
  exact fun e he v hv ↦ (hslots e he v hv).elim (hvalue v) id

/-! ## One message

The reader sorts the fields by name and, of the values in them, reads those again. Neither is seen
by a lookup, which is why a message is read from any fields that find what its slots hold. -/

/-- **A message is read from any fields in which each name finds what its slot holds.** -/
theorem ofFields?_named {m : Message} (hm : m.WellFormed) {fs : List (String × Json)}
    (hfs : ∀ k, Entries.find? k fs = (Entries.find? k m.slots).join) :
    ofFields? m.kind (.named fs) = some m := by
  have hget (name : String) (position : Nat) :
      (named fs).get? name position = (Entries.find? name m.slots).join := hfs name
  have hmost (n : Nat) : guard (f := Option) ((named fs).atMost n = true) = some () := if_pos rfl
  rcases m with ⟨parent, value, ps, id, noWatch, unbound⟩ | ⟨id, value, ps⟩ | id | id | id |
    ⟨id, code, description⟩
  · obtain ⟨hparent, -, hid⟩ := hm
    have hparent : orElse Json.signed? 0 (some (.int parent)) = some parent := signed?_int hparent
    simp [kind, ofFields?, hget, hmost, slots, Entries.find?_cons, hparent, orNull_id hid]
  · simp [kind, ofFields?, hget, hmost, slots, Entries.find?_cons, signed?_int hm.1]
  · simp [kind, ofFields?, hget, hmost, slots, Entries.find?_cons, signed?_int hm]
  · simp [kind, ofFields?, hget, hmost, slots, Entries.find?_cons, signed?_int hm]
  · simp [kind, ofFields?, hget, hmost, slots, Entries.find?_cons, signed?_int hm]
  · simp [kind, ofFields?, hget, hmost, slots, Entries.find?_cons, signed?_int hm, Json.string?]

/-- What is read for a message is an object in which each name finds what its slot holds. -/
theorem sorted_json {m : Message} (hm : m.WellFormed) : ∃ fs, m.json.sorted = .object fs ∧
    ∀ k, Entries.find? k fs = (Entries.find? k m.slots).join := by
  refine ⟨(filled m.slots).foldl (fun es e ↦ Entries.insert e.1 e.2 es) [], ?_, fun k ↦ ?_⟩
  · have hfields := sortedFields_of_wellFormed (wellFormedFields_filled (wellFormed_slots hm))
    rw [json_eq, sorted, hfields, ofFields]
  · rw [Entries.find?_foldl_insert (nodup_filled m.nodup_slots), find?_filled m.nodup_slots]

theorem readable_json {m : Message} (hm : m.WellFormed)
    (hd : ∀ d ∈ m.json.doubles, (Json.double d).ReadsBack) : m.json.Readable := by
  rw [json_eq] at hd ⊢
  exact readableFields_of_wellFormed (wellFormedFields_filled (wellFormed_slots hm)) hd

/-- **A message is read from its fields in order.** -/
theorem ofJson?_sorted {m : Message} (hm : m.WellFormed) : ofJson? m.json.sorted = some m := by
  obtain ⟨fs, hfs, hfind⟩ := sorted_json hm
  have htype := (hfind "type").trans m.find?_type
  rw [hfs, ofJson?, htype]
  exact ofFields?_named hm hfind

theorem mapM_ofJson?_sorted {ms : List Message} (hms : ∀ m ∈ ms, m.WellFormed) :
    (ms.map fun m ↦ m.json.sorted).mapM ofJson? = some ms :=
  mapM_map_eq_some fun m hm ↦ ofJson?_sorted (hms m hm)

end Message

/-! ## Batches -/

namespace Batch

theorem decode_text {v : Json} (hv : v.Readable) (hdepth : v.depth ≤ maxDepth) :
    decode (Utf8.ofString v.text) = ofValue v.sorted := by
  rw [decode, read_text hv hdepth]

theorem ofValue_ofFields (userEvent : Bool) (us : List Json) :
    ofValue (ofFields [("userEvent", .bool userEvent), ("messages", .array us)])
      = orUnfit ((us.mapM Message.ofJson?).map (Batch.mk userEvent)) := by
  have hsorted : ofFields [("userEvent", .bool userEvent), ("messages", .array us)]
      = .object [("messages", .array us), ("userEvent", .bool userEvent)] := by
    have hlt : "messages" < "userEvent" := by decide
    simp only [ofFields, List.foldl_cons, List.foldl_nil, Entries.insert, if_pos hlt]
  rw [hsorted]
  simp [ofValue, ofJson?, field?, fields?, items?, bool?, orElse, Entries.find?_cons,
    Option.map_eq_bind]

section Forms

variable {ms : List Message} (hms : ∀ m ∈ ms, m.WellFormed)
  (hd : ∀ m ∈ ms, ∀ d ∈ m.json.doubles, (Json.double d).ReadsBack)

include hms hd

theorem readableItems_messages : ReadableItems (ms.map Message.json) := by
  rw [readableItems_iff, List.forall_mem_map]
  intro m hm
  exact Message.readable_json (hms m hm) (hd m hm)

/-- **A batch is read from its bytes.** -/
theorem decode_encode {userEvent : Bool} (hdepth : (json ⟨userEvent, ms⟩).depth ≤ maxDepth) :
    decode (encode ⟨userEvent, ms⟩) = .ok ⟨userEvent, ms⟩ := by
  have hreadable : (json ⟨userEvent, ms⟩).Readable :=
    ⟨trivial, readableItems_messages hms hd, trivial⟩
  have hsorted : (json ⟨userEvent, ms⟩).sorted = ofFields [("userEvent", .bool userEvent),
      ("messages", .array (ms.map fun m ↦ m.json.sorted))] := by
    simp only [json, sorted, sortedFields, sortedItems_eq_map, List.map_map]
    rfl
  rw [encode, text, decode_text hreadable hdepth, hsorted, ofValue_ofFields,
    Message.mapM_ofJson?_sorted hms]
  rfl

/-- **An array of messages is read as a batch that is no user event.** -/
theorem decode_array (hdepth : (Json.array (ms.map Message.json)).depth ≤ maxDepth) :
    decode (Utf8.ofString (Json.array (ms.map Message.json)).text) = .ok ⟨false, ms⟩ := by
  have hreadable : (Json.array (ms.map Message.json)).Readable := readableItems_messages hms hd
  rw [decode_text hreadable hdepth, sorted, sortedItems_eq_map, List.map_map]
  show orUnfit (((ms.map fun m ↦ m.json.sorted).mapM Message.ofJson?).map (Batch.mk false)) = _
  rw [Message.mapM_ofJson?_sorted hms]
  rfl

omit hms hd in
/-- **A message is read as a batch that is no user event.** -/
theorem decode_message {m : Message} (hm : m.WellFormed)
    (hd : ∀ d ∈ m.json.doubles, (Json.double d).ReadsBack) (hdepth : m.json.depth ≤ maxDepth) :
    decode (Utf8.ofString m.json.text) = .ok ⟨false, [m]⟩ := by
  obtain ⟨fs, hfs, hfind⟩ := Message.sorted_json hm
  have hmessages : (Json.object fs).field? "messages" = none :=
    (hfind "messages").trans m.find?_messages
  have htype : (Json.object fs).field? "type" = some (.string m.kind) :=
    (hfind "type").trans m.find?_type
  have hread : Message.ofJson? (.object fs) = some m := hfs ▸ Message.ofJson?_sorted hm
  rw [decode_text (Message.readable_json hm hd) hdepth, hfs]
  simp [ofValue, orUnfit, hmessages, htype, hread]

/-- **Messages survive the wire in each of its forms**: in a batch, as an array, and one of them
alone. -/
theorem decode_forms :
    (∀ userEvent, (json ⟨userEvent, ms⟩).depth ≤ maxDepth →
      decode (encode ⟨userEvent, ms⟩) = .ok ⟨userEvent, ms⟩) ∧
    ((Json.array (ms.map Message.json)).depth ≤ maxDepth →
      decode (Utf8.ofString (Json.array (ms.map Message.json)).text) = .ok ⟨false, ms⟩) ∧
    ∀ m, ms = [m] → m.json.depth ≤ maxDepth →
      decode (Utf8.ofString m.json.text) = .ok ⟨false, [m]⟩ := by
  refine ⟨fun userEvent hdepth ↦ decode_encode hms hd hdepth, decode_array hms hd, ?_⟩
  rintro m rfl hdepth
  exact decode_message (hms m List.mem_cons_self) (hd m List.mem_cons_self) hdepth

end Forms

/-- Whether nothing of a batch is lost on the wire. -/
structure IsLossless (b : Batch) : Prop where
  wellFormed : ∀ m ∈ b.messages, m.WellFormed
  depth_le : b.json.depth ≤ maxDepth
  readsBack : ∀ m ∈ b.messages, ∀ d ∈ m.json.doubles, (Json.double d).ReadsBack

theorem IsLossless.decode_encode {b : Batch} (hb : b.IsLossless) : decode b.encode = .ok b :=
  Batch.decode_encode hb.wellFormed hb.readsBack hb.depth_le

/-- A tenth, as a double. -/
def tenth : Double := ⟨false, 7205759403792794, 1018, by decide, .inl (by decide), by decide⟩

private theorem readsBack_tenth : (Json.double tenth).ReadsBack :=
  readsBack_of_scanNumber ['0', '.', '1'] ⟨false, [0], some [1], none⟩ (by decide +kernel) rfl
    (by decide +kernel)

/-- A message whose value has fields with the names that the wire uses. -/
def lookalike : Message :=
  .create 1 (some (.object [("messages", .array []), ("type", .double tenth)]))
    (.ofList [("path", "name")]) (some (-2)) true false

theorem isLossless_lookalike : IsLossless ⟨true, [lookalike]⟩ where
  wellFormed := by
    have hnames : Entries.Ascending [("messages", Json.array []), ("type", .double tenth)] :=
      List.pairwise_pair.mpr (by decide)
    rw [List.forall_mem_singleton]
    refine ⟨⟨by decide, by decide⟩, ?_, ?_⟩
    · rintro v ⟨⟩
      exact ⟨hnames, trivial, trivial, trivial⟩
    · rintro i ⟨⟩
      exact ⟨by decide, by decide⟩
  depth_le := by decide
  readsBack := by
    rw [List.forall_mem_singleton, show lookalike.json.doubles = [tenth] from rfl,
      List.forall_mem_singleton]
    exact readsBack_tenth

theorem decode_lookalike :
    decode (encode ⟨true, [lookalike]⟩) = .ok ⟨true, [lookalike]⟩ ∧
    decode (Utf8.ofString (Json.array [lookalike.json]).text) = .ok ⟨false, [lookalike]⟩ ∧
    decode (Utf8.ofString lookalike.json.text) = .ok ⟨false, [lookalike]⟩ := by
  have hlossless := isLossless_lookalike
  obtain ⟨hbatch, harray, hmessage⟩ := decode_forms hlossless.wellFormed hlossless.readsBack
  exact ⟨hbatch true hlossless.depth_le, harray (by decide), hmessage lookalike rfl (by decide)⟩

end Batch

end ReactiveVars
