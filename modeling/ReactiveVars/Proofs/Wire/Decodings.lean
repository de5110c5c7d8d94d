import ReactiveVars.Proofs.Json.Orders
import ReactiveVars.Proofs.Wire.Batches

/-!
# Which batches are decodable

The values in the messages of a batch are what may not survive the wire. Three levels of the text
are taken by the batch itself: the batch, its list of messages, and the message. A value that nests
deeper than these leave room for is refused together with the whole batch, and a double that is not
read back comes out as another number, or not at all.

It does not matter in which form a value came in. A message by itself takes one level only and an
array of messages two, so there are values that can come in but nest too deep to go out again.

## Main statements

* `Batch.decode_encode_iff`: which batches are read back from their bytes.
* `Batch.ordered_of_decode`: the values of whatever is decoded are in order.
-/

namespace ReactiveVars

open Json MessageFields

/-! ## What nests in a batch

Besides its value a message holds texts, truth values, ids and properties. They are flat, one object
of texts at most and no doubles, so it is the value that decides how deep a message nests. -/

namespace Json

private theorem depthOfItems_le_iff {vs : List Json} {k : Nat} :
    depthOfItems vs ≤ k ↔ ∀ v ∈ vs, v.depth ≤ k := by
  induction vs with
  | nil => simp [depthOfItems]
  | cons v vs ih => rw [depthOfItems, max_le_iff, ih, List.forall_mem_cons]

private theorem depthOfFields_le_iff {es : List (String × Json)} {k : Nat} :
    depthOfFields es ≤ k ↔ ∀ e ∈ es, e.2.depth ≤ k := by
  induction es with
  | nil => simp [depthOfFields]
  | cons e es ih => rw [depthOfFields, max_le_iff, ih, List.forall_mem_cons]

private theorem mem_doublesOfFields {es : List (String × Json)} {d : Double} :
    d ∈ doublesOfFields es ↔ ∃ e ∈ es, d ∈ e.2.doubles := by
  induction es with
  | nil => simp [doublesOfFields]
  | cons e es ih => simp [doublesOfFields, ih]

/-- Whether a value nests nothing but texts and the like, and no doubles. -/
def Flat (v : Json) : Prop := v.depth ≤ 1 ∧ v.doubles = []

private theorem flat_properties (ps : Properties) : ps.json.Flat := by
  have hstring : ∀ e ∈ ps.entries.map fun e ↦ (e.1, Json.string e.2), ∃ s, e.2 = .string s :=
    List.forall_mem_map.mpr fun e _ ↦ ⟨e.2, rfl⟩
  constructor
  · rw [Properties.json, depth, Nat.add_le_add_iff_right, depthOfFields_le_iff]
    intro e he
    obtain ⟨s, hs⟩ := hstring e he
    rw [hs]
    exact Nat.le_refl 0
  · rw [Properties.json, doubles, List.eq_nil_iff_forall_not_mem]
    intro d hd
    obtain ⟨e, he, hd⟩ := mem_doublesOfFields.mp hd
    obtain ⟨s, hs⟩ := hstring e he
    rw [hs] at hd
    exact absurd hd (by simp [doubles])

end Json

namespace Message

private theorem mem_filled {es : List (String × Option Json)} {e : String × Json} :
    e ∈ filled es ↔ (e.1, some e.2) ∈ es := by
  rw [filled, List.mem_flatMap]
  constructor
  · rintro ⟨⟨name, value⟩, hmem, he⟩
    rw [optional, Option.mem_toList] at he
    obtain ⟨v, rfl, rfl⟩ := Option.map_eq_some_iff.mp he
    exact hmem
  · intro hmem
    exact ⟨_, hmem, by simp [optional]⟩

private theorem find?_value (m : Message) : (Entries.find? "value" m.slots).join = m.value? := by
  rcases m <;> simp [slots, value?, Entries.find?_cons]

/-- The fields of a message are its value, under its name, and flat ones. -/
theorem value_or_flat {m : Message} {e : String × Json} (he : e ∈ filled m.slots) :
    m.value? = some e.2 ∨ e.2.Flat := by
  have hconstant {v : Json} (hdepth : v.depth = 0) (hdoubles : v.doubles = []) : v.Flat :=
    ⟨hdepth ▸ Nat.zero_le 1, hdoubles⟩
  exact m.value_or_of_mem_slots (fun s ↦ hconstant rfl rfl) (fun b ↦ hconstant rfl rfl)
    (fun id _ ↦ hconstant rfl rfl) flat_properties _ (mem_filled.mp he) e.2 rfl

theorem value_mem_filled {m : Message} {v : Json} (h : m.value? = some v) :
    ("value", v) ∈ filled m.slots := by
  rw [mem_filled]
  rcases m <;> simp_all [slots, value?]

/-- A message takes one level besides its value. -/
theorem depth_json_le_iff {m : Message} {k : Nat} (hk : 1 ≤ k) :
    m.json.depth ≤ k + 1 ↔ ∀ v ∈ m.value?, v.depth ≤ k := by
  rw [json_eq, depth, Nat.add_le_add_iff_right, depthOfFields_le_iff]
  constructor
  · exact fun h v hv ↦ h _ (value_mem_filled hv)
  · intro h e he
    obtain hvalue | hflat := value_or_flat he
    · exact h e.2 hvalue
    · exact hflat.1.trans hk

/-- The doubles of a message are those of its value. -/
theorem forall_doubles_json_iff {m : Message} {P : Double → Prop} :
    (∀ d ∈ m.json.doubles, P d) ↔ ∀ v ∈ m.value?, ∀ d ∈ v.doubles, P d := by
  rw [json_eq, doubles]
  constructor
  · exact fun h v hv d hd ↦ h d (mem_doublesOfFields.mpr ⟨_, value_mem_filled hv, hd⟩)
  · intro h d hd
    obtain ⟨e, he, hd⟩ := mem_doublesOfFields.mp hd
    obtain hvalue | hflat := value_or_flat he
    · exact h e.2 hvalue d hd
    · rw [hflat.2] at hd
      exact absurd hd (by simp)

end Message

namespace Batch

/-- The values that the messages of a batch carry. -/
def values (b : Batch) : List Json := b.messages.filterMap Message.value?

private theorem forall_mem_values_iff {b : Batch} {P : Json → Prop} :
    (∀ v ∈ b.values, P v) ↔ ∀ m ∈ b.messages, ∀ v ∈ m.value?, P v := by
  rw [values]
  simp only [List.mem_filterMap, Option.mem_def]
  exact ⟨fun h m hm v hv ↦ h v ⟨m, hm, hv⟩, fun h v ⟨m, hm, hv⟩ ↦ h m hm v hv⟩

/-- A batch takes three levels besides its values. -/
theorem depth_json_le_iff {b : Batch} :
    b.json.depth ≤ maxDepth ↔ ∀ v ∈ b.values, v.depth + 3 ≤ maxDepth := by
  have hbatch : b.json.depth = depthOfItems (b.messages.map Message.json) + 2 := by
    simp [json, depth, depthOfFields]
  rw [hbatch, forall_mem_values_iff, maxDepth, show 127 = 125 + 2 from rfl,
    Nat.add_le_add_iff_right, depthOfItems_le_iff, List.forall_mem_map]
  refine forall₂_congr fun m _ ↦ (Message.depth_json_le_iff (by decide)).trans ?_
  exact forall₂_congr fun v _ ↦ by omega

end Batch

/-! ## What is read of a message

A message may be an object or an array, and its fields or items are taken apart before they are
looked at. So it is the value in it that is followed, whichever way it was read. -/

namespace Message

/-- Whether the value of a message is in order. -/
def Ordered (m : Message) : Prop := ∀ v ∈ m.value?, v.Ordered

/-- Whether the numbers in a message, ids and others, fit into 64 bits. -/
def FitsWords (m : Message) : Prop :=
  (∀ id ∈ m.ids, IsSigned id) ∧
    ∀ v ∈ m.value?, ∀ n ∈ v.integers, minSigned ≤ n ∧ n < UInt64.size

theorem Ordered.wellFormed {m : Message} (h : m.Ordered) (hfits : m.FitsWords) : m.WellFormed :=
  wellFormed_iff.mpr ⟨hfits.1, fun v hv ↦ Json.Ordered.wellFormed (h v hv) (hfits.2 v hv)⟩

/-- The value of a message that is read is the field of this name, or at this position. -/
theorem get?_value_of_ofFields? {kind : String} {fs : MessageFields} {m : Message}
    (h : ofFields? kind fs = some m) {v : Json} (hv : m.value? = some v) :
    fs.get? "value" 1 = some v := by
  unfold ofFields? at h
  split at h
  all_goals
    simp only [Option.bind_eq_bind, Option.bind_eq_some_iff, Option.pure_def,
      Option.some.injEq] at h
  · -- only creates and updates have a value
    obtain ⟨-, -, parent, -, ps, -, id, -, noWatch, -, unbound, -, rfl⟩ := h
    exact hv
  · obtain ⟨-, -, id, -, ps, -, rfl⟩ := h
    exact hv
  · obtain ⟨-, -, id, -, rfl⟩ := h
    exact absurd hv (by simp [value?])
  · obtain ⟨-, -, id, -, rfl⟩ := h
    exact absurd hv (by simp [value?])
  · obtain ⟨-, -, id, -, rfl⟩ := h
    exact absurd hv (by simp [value?])
  · obtain ⟨-, -, id, -, code, -, description, -, rfl⟩ := h
    exact absurd hv (by simp [value?])
  · exact absurd h (by simp)

/-- A message is read from an object or from an array, and its value from a field or an item. -/
theorem value_of_ofJson? {u : Json} {m : Message} (h : ofJson? u = some m) {v : Json}
    (hv : m.value? = some v) :
    (∃ fields, u = .object fields ∧ Entries.find? "value" fields = some v) ∨
      ∃ items, u = .array items ∧ v ∈ items := by
  rw [ofJson?.eq_def] at h
  split at h
  · next fields =>
    split at h
    · exact .inl ⟨fields, rfl, get?_value_of_ofFields? h hv⟩
    · exact absurd h (by simp)
  · next kind items =>
    refine .inr ⟨_, rfl, List.mem_cons_of_mem _ ?_⟩
    exact List.mem_of_getElem? (get?_value_of_ofFields? h hv)
  · exact absurd h (by simp)

/-- A message that is read from a value in order has a value in order. -/
theorem ordered_of_ofJson? {u : Json} {m : Message} (h : ofJson? u = some m) (hu : u.Ordered) :
    m.Ordered := by
  intro v hv
  obtain ⟨fields, rfl, hfind⟩ | ⟨items, rfl, hmem⟩ := value_of_ofJson? h hv
  · exact (ordered_object.mp hu).2 _ (Entries.mem_of_find? hfind)
  · exact ordered_array.mp hu v hmem

private theorem reread?_value {m : Message} {room : Nat} {u : Json}
    (hread : m.json.reread? room = some u)
    (h : ofJson? u = some m) : ∀ v ∈ m.value?, ∃ room', v.reread? room' = some v := by
  intro v hv
  rw [json_eq, reread?] at hread
  obtain ⟨es, hes, rfl⟩ := Option.map_eq_some_iff.mp (Option.ite_none_left_eq_some.mp hread).2
  have hnames : (es.map Prod.fst).Nodup := by
    rw [fst_of_rereadFields? hes]
    exact nodup_filled m.nodup_slots
  have hwritten : Entries.find? "value" (filled m.slots) = some v := by
    rw [find?_filled m.nodup_slots, find?_value, hv]
  obtain ⟨v', hv', hfound⟩ := find?_of_rereadFields? hes hwritten
  obtain ⟨fields, hfields, hfind⟩ | ⟨items, hitems, -⟩ := value_of_ofJson? h hv
  · rw [ofFields, object.injEq] at hfields
    rw [← hfields, Entries.find?_foldl_insert hnames, hfound] at hfind
    exact ⟨room - 1, by rw [hv', hfind]⟩
  · exact absurd hitems (by simp [ofFields])

private theorem reread?_of_mapM {ms : List Message} {room : Nat} {us : List Json}
    (hread : rereadItems? room (ms.map json) = some us) (h : us.mapM ofJson? = some ms) :
    ∀ m ∈ ms, ∃ u, m.json.reread? room = some u ∧ ofJson? u = some m := by
  induction ms generalizing us with
  | nil => exact fun m hm ↦ absurd hm (by simp)
  | cons m ms ih =>
    rw [List.map_cons, rereadItems?] at hread
    obtain ⟨u, hu, hread⟩ := Option.bind_eq_some_iff.mp hread
    obtain ⟨us, hus, rfl⟩ := Option.map_eq_some_iff.mp hread
    rw [List.mapM_cons] at h
    obtain ⟨m', hm', h⟩ := Option.bind_eq_some_iff.mp h
    obtain ⟨ms', hms', h⟩ := Option.bind_eq_some_iff.mp h
    obtain ⟨rfl, rfl⟩ := List.cons.inj (Option.some.inj h)
    exact List.forall_mem_cons.mpr ⟨⟨u, hu, hm'⟩, ih hus hms'⟩

end Message

/-! ## Batches -/

namespace Batch

/-- What the text of a batch is read as has the same flag and as many messages. -/
theorem reread?_json {b : Batch} {room : Nat} {w : Json} (h : b.json.reread? room = some w) :
    ∃ us room', rereadItems? room' (b.messages.map Message.json) = some us ∧
      w = ofFields [("userEvent", .bool b.userEvent), ("messages", .array us)] := by
  rw [json, reread?] at h
  obtain ⟨es, hes, rfl⟩ := Option.map_eq_some_iff.mp (Option.ite_none_left_eq_some.mp h).2
  simp only [rereadFields?, reread?, Option.bind_some, Option.map_some,
    Option.map_eq_some_iff, Option.bind_eq_some_iff] at hes
  obtain ⟨_, ⟨_, hitems, hfield⟩, rfl⟩ := hes
  obtain ⟨us, hus, rfl⟩ := Option.map_eq_some_iff.mp (Option.ite_none_left_eq_some.mp hitems).2
  obtain rfl := Option.some.inj hfield
  exact ⟨us, _, hus, rfl⟩

/-- A batch that is read back has been read message by message. -/
theorem reread?_of_decode {b : Batch} (h : decode b.encode = .ok b) :
    b.json.depth ≤ maxDepth ∧ ∀ m ∈ b.messages, ∃ u room,
      m.json.reread? room = some u ∧ Message.ofJson? u = some m := by
  rw [decode, encode, text, read_text_eq] at h
  rcases hread : b.json.reread? maxDepth with _ | w
  · rw [hread] at h
    exact absurd h (by simp)
  refine ⟨depth_le_of_reread? hread, fun m hm ↦ ?_⟩
  obtain ⟨us, room, hus, rfl⟩ := reread?_json hread
  rw [hread] at h
  simp only [ofValue_ofFields] at h
  rcases hmessages : us.mapM Message.ofJson? with _ | ms
  · rw [hmessages] at h
    exact absurd h (by simp [orUnfit])
  · rw [hmessages] at h
    have hms : ms = b.messages := congrArg messages (Except.ok.inj h)
    obtain ⟨u, hu, hm⟩ := Message.reread?_of_mapM hus (hms ▸ hmessages) m hm
    exact ⟨u, room, hu, hm⟩

/-- **Which batches are decodable**: no value nests so deep that the three levels of the batch go
beyond the limit, and each double in a value is read back. -/
theorem decode_encode_iff {b : Batch} (hb : ∀ m ∈ b.messages, m.WellFormed) :
    decode b.encode = .ok b ↔ ∀ v ∈ b.values,
      v.depth + 3 ≤ maxDepth ∧ ∀ d ∈ v.doubles, (Json.double d).ReadsBack := by
  constructor
  · intro h v hv
    obtain ⟨hdepth, hmessages⟩ := reread?_of_decode h
    refine ⟨depth_json_le_iff.mp hdepth v hv, ?_⟩
    obtain ⟨m, hm, hv⟩ := List.mem_filterMap.mp hv
    obtain ⟨u, room, hu, hread⟩ := hmessages m hm
    obtain ⟨room', hvalue⟩ := Message.reread?_value hu hread v hv
    exact readsBack_of_reread? ((Message.wellFormed_iff.mp (hb m hm)).2 v hv) hvalue
  · intro h
    refine decode_encode hb (fun m hm ↦ ?_) (depth_json_le_iff.mpr fun v hv ↦ (h v hv).1)
    exact Message.forall_doubles_json_iff.mpr fun v hv ↦
      (h v (List.mem_filterMap.mpr ⟨m, hm, hv⟩)).2

/-! ## What is decoded

A value comes out of the reader in order and is handed on as it is, through the forms of a batch and
of a message. -/

private theorem eq_of_orUnfit {α : Type} {a : Option α} {x : α} (h : orUnfit a = .ok x) :
    a = some x := by
  rcases a with _ | a
  · exact absurd h (by simp [orUnfit])
  · rw [Except.ok.inj h]

private theorem ordered_of_mapM {us : List Json} {ms : List Message} (hus : ∀ u ∈ us, u.Ordered)
    (h : us.mapM Message.ofJson? = some ms) : ∀ m ∈ ms, m.Ordered := by
  induction us generalizing ms with
  | nil =>
    obtain rfl := Option.some.inj h
    exact fun m hm ↦ absurd hm (by simp)
  | cons u us ih =>
    rw [List.forall_mem_cons] at hus
    rw [List.mapM_cons] at h
    obtain ⟨m, hm, h⟩ := Option.bind_eq_some_iff.mp h
    obtain ⟨ms', hms', h⟩ := Option.bind_eq_some_iff.mp h
    obtain rfl := Option.some.inj h
    exact List.forall_mem_cons.mpr ⟨Message.ordered_of_ofJson? hm hus.1, ih hus.2 hms'⟩

private theorem ordered_field? {u v : Json} {name : String} (hu : u.Ordered)
    (h : u.field? name = some v) : v.Ordered := by
  rw [Json.field?] at h
  obtain ⟨fields, hfields, hfind⟩ := Option.bind_eq_some_iff.mp h
  rcases u with _ | _ | _ | _ | _ | _ | fields'
  all_goals obtain ⟨⟩ := hfields
  exact (ordered_object.mp hu).2 _ (Entries.mem_of_find? hfind)

theorem ordered_of_ofJson? {u : Json} {b : Batch} (hu : u.Ordered) (h : ofJson? u = some b) :
    ∀ m ∈ b.messages, m.Ordered := by
  simp only [ofJson?, Option.bind_eq_bind, Option.bind_eq_some_iff, Option.pure_def,
    Option.some.injEq] at h
  obtain ⟨-, -, items, ⟨list, hlist, hitems⟩, ms, hms, rfl⟩ := h
  have hordered := ordered_field? hu hlist
  rcases list with _ | _ | _ | _ | _ | items' | _
  all_goals obtain ⟨⟩ := hitems
  exact ordered_of_mapM (ordered_array.mp hordered) hms

/-- **The values of whatever is decoded are in order.** -/
theorem ordered_of_decode {payload : List UInt8} {b : Batch} (h : decode payload = .ok b) :
    ∀ m ∈ b.messages, m.Ordered := by
  rw [decode] at h
  split at h
  · next u hread =>
    have hu := ordered_of_read hread
    rw [ofValue.eq_def] at h
    split at h
    · obtain ⟨ms, hms, rfl⟩ := Option.map_eq_some_iff.mp (eq_of_orUnfit h)
      exact ordered_of_mapM (ordered_array.mp hu) hms
    · split at h
      · exact ordered_of_ofJson? hu (eq_of_orUnfit h)
      · split at h
        · obtain ⟨m, hm, rfl⟩ := Option.map_eq_some_iff.mp (eq_of_orUnfit h)
          exact List.forall_mem_singleton.mpr (Message.ordered_of_ofJson? hm hu)
        · exact absurd h (by simp)
  · exact absurd h (by simp)

end Batch

end ReactiveVars
