import ReactiveVars.Proofs.Wire.Batches
import ReactiveVars.Wire.Frame

/-!
# Frames stay aligned

The length in front of a payload tells where the next frame starts, whether the payload is taken or
skipped and whether it can be decoded or not. So a reader hands out one result for each frame, and
a last frame that is cut short, in its header or in its payload, hands out none.

What is written for batches is a stream of such frames, without those of batches that are too large.
A batch in it is read as itself if its doubles are read back. Others are not, `rounded` is one.

## Main statement

* `Frame.readAll_streams`: what is read from a stream of frames, and from what is written for
  batches.
-/

namespace ReactiveVars

namespace Frame

/-- The frame of a payload. -/
def framed (payload : List UInt8) : List UInt8 := header payload.length ++ payload

/-- What the frame of a payload hands out. -/
def found (maximum : Nat) (payload : List UInt8) : Except CodecError Batch :=
  if maximum < payload.length then .error (.frameTooLarge payload.length maximum)
  else Batch.decode payload

/-- Whether a payload is not too large to be written. -/
def fits (maximum : Nat) (payload : List UInt8) : Bool :=
  payload.length ≤ maximum && payload.length < UInt32.size

/-- The batches that are written. -/
def kept (maximum : Nat) (batches : List Batch) : List Batch :=
  batches.filter fun b ↦ fits maximum b.encode

/-! ## One frame

The four bytes of the header are the digits of the length to the base 256, so the reader gets back
the length that was written and knows where the payload ends before it looks at it. -/

section Header

variable {a b c d : UInt8} {n : Nat}

/-- The four bytes of a header give the length back. -/
private theorem lengthOf_of_header (h : header n = [a, b, c, d]) (hn : n < UInt32.size) :
    lengthOf a b c d = n := by
  rw [header, List.cons.injEq, List.cons.injEq, List.cons.injEq, List.cons.injEq] at h
  obtain ⟨rfl, rfl, rfl, rfl, -⟩ := h
  rw [UInt32.size] at hn
  simp only [lengthOf, UInt8.toNat_ofNat', Nat.shiftRight_eq_div_pow, Nat.reducePow]
  omega

end Header

section Reading

variable {maximum : Nat} {ending : Ending} {payload rest trailer : List UInt8}

/-- **A frame is taken off the stream as a whole**, whatever it hands out. -/
private theorem readAll_framed (h : payload.length < UInt32.size) :
    readAll maximum ending (framed payload ++ rest)
      = (found maximum payload :: (readAll maximum ending rest).1,
        (readAll maximum ending rest).2) := by
  obtain ⟨a, b, c, d, hheader⟩ : ∃ a b c d, header payload.length = [a, b, c, d] :=
    ⟨_, _, _, _, rfl⟩
  have hlength := lengthOf_of_header hheader h
  have hle : payload.length ≤ (payload ++ rest).length := by
    rw [List.length_append]
    omega
  rw [framed, hheader, List.append_assoc]
  show readAll maximum ending (a :: b :: c :: d :: (payload ++ rest)) = _
  rw [readAll.eq_def]
  simp only [hlength, if_pos hle, List.take_left, List.drop_left]
  rfl

/-- **A frame that is cut short hands out nothing.** -/
private theorem readAll_trailer (h : payload.length < UInt32.size)
    (hmaximum : payload.length ≤ maximum)
    (hcut : trailer <+: framed payload) (hne : trailer ≠ framed payload) :
    readAll maximum .closed trailer = ([], .ok ()) := by
  obtain ⟨a, b, c, d, hheader⟩ : ∃ a b c d, header payload.length = [a, b, c, d] :=
    ⟨_, _, _, _, rfl⟩
  rw [framed, hheader] at hcut hne
  match trailer with
  | [] | [_] | [_, _] | [_, _, _] => rw [readAll.eq_def]
  | a' :: b' :: c' :: d' :: rest =>
    simp only [List.cons_append, List.nil_append, List.cons_prefix_cons] at hcut
    obtain ⟨rfl, rfl, rfl, rfl, hcut⟩ := hcut
    have hlt : rest.length < payload.length := by
      refine lt_of_le_of_ne hcut.length_le fun hlength ↦ hne ?_
      rw [hcut.eq_of_length hlength]
      rfl
    rw [readAll.eq_def]
    simp only [lengthOf_of_header hheader h, if_neg (Nat.not_le.mpr hlt),
      if_neg (Nat.not_lt.mpr hmaximum)]

/-! ## Streams -/

/-- **A stream hands out one result for each frame.** -/
theorem readAll_flatMap {payloads : List (List UInt8)}
    (hpayloads : ∀ q ∈ payloads, q.length < UInt32.size) :
    readAll maximum ending (payloads.flatMap framed ++ rest)
      = (payloads.map (found maximum) ++ (readAll maximum ending rest).1,
        (readAll maximum ending rest).2) := by
  induction payloads with
  | nil => rfl
  | cons q payloads ih =>
    rw [List.forall_mem_cons] at hpayloads
    rw [List.flatMap_cons, List.append_assoc, readAll_framed hpayloads.1, ih hpayloads.2,
      List.map_cons, List.cons_append]

end Reading

/-! ## What is written

A batch that is too large is dropped by the writer, so that it leaves no header behind. The rest is
one frame for each batch. -/

private theorem writeOrDrop_eq (maximum : Nat) (payload : List UInt8) :
    writeOrDrop maximum payload = if fits maximum payload then framed payload else [] := by
  rw [writeOrDrop, write, fits, framed]
  by_cases h : maximum < payload.length ∨ UInt32.size ≤ payload.length
  · have hfits : ¬ (payload.length ≤ maximum ∧ payload.length < UInt32.size) := by omega
    simp [h, hfits]
  · have hfits : payload.length ≤ maximum ∧ payload.length < UInt32.size := by omega
    simp [h, hfits]

private theorem mem_kept {maximum : Nat} {batches : List Batch} {b : Batch}
    (hb : b ∈ kept maximum batches) :
    b ∈ batches ∧ b.encode.length ≤ maximum ∧ b.encode.length < UInt32.size := by
  rw [kept, List.mem_filter, fits, Bool.and_eq_true, decide_eq_true_eq, decide_eq_true_eq] at hb
  exact hb

theorem writeAll_eq_flatMap (maximum : Nat) (batches : List Batch) :
    writeAll maximum batches = ((kept maximum batches).map Batch.encode).flatMap framed := by
  rw [writeAll, kept, List.flatMap_map]
  induction batches with
  | nil => rw [List.filter_nil, List.flatMap_nil, List.flatMap_nil]
  | cons b batches ih =>
    rw [List.flatMap_cons, ih, writeOrDrop_eq, List.filter_cons]
    split
    · rw [List.flatMap_cons]
    · rw [List.nil_append]

/-- **What is written for batches is read as the batches.** -/
theorem readAll_writeAll {maximum : Nat} {batches : List Batch}
    (hbatches : ∀ b ∈ batches, b.IsLossless) :
    readAll maximum .closed (writeAll maximum batches)
      = ((kept maximum batches).map .ok, .ok ()) := by
  have hsize : ∀ q ∈ (kept maximum batches).map Batch.encode, q.length < UInt32.size := by
    rw [List.forall_mem_map]
    intro b hb
    exact (mem_kept hb).2.2
  have hfound : ((kept maximum batches).map Batch.encode).map (found maximum)
      = (kept maximum batches).map .ok := by
    rw [List.map_map]
    apply List.map_congr_left
    intro b hb
    obtain ⟨hmem, hle, -⟩ := mem_kept hb
    rw [Function.comp_apply, found, if_neg (Nat.not_lt.mpr hle), (hbatches b hmem).decode_encode]
  have hnil : readAll maximum .closed [] = ([], .ok ()) := by rw [readAll.eq_def]
  rw [writeAll_eq_flatMap, ← List.append_nil (List.flatMap framed _), readAll_flatMap hsize, hnil,
    hfound, List.append_nil]

/-- **Frames stay aligned**: a stream that ends inside a frame hands out one result for each whole
frame, and what is written for batches is read as those batches that are not too large. -/
theorem readAll_streams (maximum : Nat) :
    (∀ (payloads : List (List UInt8)) (trailer payload : List UInt8),
      (∀ q ∈ payloads, q.length < UInt32.size) → payload.length < UInt32.size →
      payload.length ≤ maximum → trailer <+: framed payload → trailer ≠ framed payload →
      readAll maximum .closed (payloads.flatMap framed ++ trailer)
        = (payloads.map (found maximum), .ok ())) ∧
    ∀ batches : List Batch, (∀ b ∈ batches, b.IsLossless) →
      readAll maximum .closed (writeAll maximum batches)
        = ((kept maximum batches).map .ok, .ok ()) := by
  refine ⟨?_, fun batches hbatches ↦ readAll_writeAll hbatches⟩
  intro payloads trailer payload hpayloads hsize hmaximum hcut hne
  rw [readAll_flatMap hpayloads, readAll_trailer hsize hmaximum hcut hne, List.append_nil]

/-- A payload that is too large by one byte, one that is not, an empty one, and a payload that is
cut short. -/
theorem readAll_cutShort :
    readAll 2 .closed
        ([[0x5B, 0x20, 0x5D], [0x5B, 0x5D], []].flatMap framed ++ [0x00, 0x00, 0x00, 0x02, 0x5B])
      = ([.error (.frameTooLarge 3 2), .ok ⟨false, []⟩, .error (.json .truncated)], .ok ()) ∧
    readAll 1024 .closed (writeAll 1024 [⟨true, [Batch.lookalike]⟩])
      = ([.ok ⟨true, [Batch.lookalike]⟩], .ok ()) := by
  have htext : Utf8.ofString (Json.array (List.map Message.json [])).text = [0x5B, 0x5D] := by
    decide
  have harray : Batch.decode [0x5B, 0x5D] = .ok ⟨false, []⟩ := by
    rw [← htext]
    exact Batch.decode_array (by simp) (by simp) (by decide)
  have hnil : Batch.decode [] = .error (.json .truncated) := by
    rw [Batch.decode, Json.read, show Json.tokens [] = [] from Json.tokensOf_nil]
    rfl
  have hlength : (Batch.encode ⟨true, [Batch.lookalike]⟩).length = 149 := by decide +kernel
  have hfits : fits 1024 (Batch.encode ⟨true, [Batch.lookalike]⟩) = true := by
    rw [fits, hlength]
    rfl
  have hkept : kept 1024 [⟨true, [Batch.lookalike]⟩] = [⟨true, [Batch.lookalike]⟩] := by
    rw [kept, List.filter_cons, if_pos hfits, List.filter_nil]
  constructor
  · rw [(readAll_streams 2).1 _ _ [0x5B, 0x5D] (by decide) (by decide) (by decide) (by decide)
      (by decide)]
    simp [found, harray, hnil]
  · rw [(readAll_streams 1024).2, hkept, List.map_cons, List.map_nil]
    rw [List.forall_mem_singleton]
    exact Batch.isLossless_lookalike

/-- A batch with a double that is read as its neighbour. -/
def rounded : Batch := ⟨false, [.ofValue 1 (.double
  ⟨false, 8940696716308594, 1099, by decide, .inl (by decide), by decide⟩)]⟩

theorem readAll_rounded : (∀ m ∈ rounded.messages, m.WellFormed) ∧
    rounded.json.depth ≤ Json.maxDepth ∧ kept 1024 [rounded] = [rounded] ∧
    readAll 1024 .closed (writeAll 1024 [rounded]) ≠ ([.ok rounded], .ok ()) := by
  have hwellFormed : ∀ m ∈ rounded.messages, m.WellFormed := by
    rw [rounded, List.forall_mem_singleton]
    refine ⟨⟨by decide, by decide⟩, ?_⟩
    rintro v ⟨⟩
    trivial
  have hlength : rounded.encode.length = 71 := by decide +kernel
  have hfits : fits 1024 rounded.encode = true := by
    rw [fits, hlength]
    rfl
  have hkept : kept 1024 [rounded] = [rounded] := by
    rw [kept, List.filter_cons, if_pos hfits, List.filter_nil]
  have hrounded : (Batch.decode rounded.encode).toOption.map Batch.text ≠ some rounded.text := by
    decide +kernel
  refine ⟨hwellFormed, by decide, hkept, fun hread ↦ hrounded ?_⟩
  have hsize : ∀ q ∈ [rounded.encode], q.length < UInt32.size := by
    rw [List.forall_mem_singleton, hlength]
    decide
  have hfound : found 1024 rounded.encode = Batch.decode rounded.encode :=
    if_neg (by rw [hlength]; decide)
  rw [writeAll_eq_flatMap, hkept, List.map_singleton, ← List.append_nil (List.flatMap framed _),
    readAll_flatMap hsize, List.map_singleton, hfound] at hread
  have hdecode : Batch.decode rounded.encode = .ok rounded := by
    simpa [readAll.eq_def] using hread
  rw [hdecode, Except.toOption, Option.map_some]

end Frame

end ReactiveVars
