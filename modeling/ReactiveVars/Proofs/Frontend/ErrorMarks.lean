import ReactiveVars.Proofs.Frontend.Showings

/-!
# How long an element shows an error

The backend tells of a variable that its path has failed, and later, by an update, that it is well
again. An element may be bound to several variables, but it keeps one of them only as the one whose
failure it shows: the one that failed last. A failure takes the place of an earlier one, and when
its own variable recovers nothing brings the earlier one back.

So the mark tells of the latest failure, and only as long as that is *outstanding*, that is not
followed by an update of its variable. An element that shows an error has an outstanding failure.
The converse holds exactly if, when any failure is outstanding, the latest one is, so for instance
as long as only one variable of the element fails.

## Main statement

* `error_shown_iff`: when an element shows which error.
-/

namespace ReactiveVars

/-! ## Signs

Of all that a batch tells two things matter to an error: that a variable has failed, and that it has
been updated. A history comes to a list of these signs, and both failures and the mark are read off
the list. -/

/-- A sign of how a variable does: it has failed, for a reason, or it has been updated. -/
structure Sign where
  id : VarId
  failure : Option String
deriving DecidableEq

namespace Sign

variable {signs rest : List Sign} {k : VarId} {text : String}

/-- Whether a variable has failed and has not been updated since. -/
def Outstanding (signs : List Sign) : Prop :=
  ∃ front k text rest, signs = front ++ ⟨k, some text⟩ :: rest ∧ ⟨k, none⟩ ∉ rest

/-- Whether the latest failure, with a given text, is outstanding. -/
def LatestOutstanding (signs : List Sign) (text : String) : Prop :=
  ∃ front k rest, signs = front ++ ⟨k, some text⟩ :: rest ∧ ⟨k, none⟩ ∉ rest ∧
    ∀ s ∈ rest, s.failure = none

/-- Whether no variable has failed. -/
def Quiet (signs : List Sign) : Prop := ∀ s ∈ signs, s.failure = none

theorem LatestOutstanding.outstanding (h : LatestOutstanding signs text) : Outstanding signs := by
  obtain ⟨front, k, rest, hsigns, hnone, -⟩ := h
  exact ⟨front, k, text, rest, hsigns, hnone⟩

/-- If any variable has failed there is a latest failure. -/
theorem quiet_or_latest (signs : List Sign) : Quiet signs ∨
    ∃ front k text rest, signs = front ++ ⟨k, some text⟩ :: rest ∧ Quiet rest := by
  induction signs with
  | nil => exact .inl fun _ h ↦ absurd h List.not_mem_nil
  | cons s signs ih =>
    rcases ih with hquiet | ⟨front, k, text, rest, rfl, hquiet⟩
    · rcases s with ⟨k, _ | text⟩
      · exact .inl (List.forall_mem_cons.mpr ⟨rfl, hquiet⟩)
      · exact .inr ⟨[], k, text, signs, rfl, hquiet⟩
    · exact .inr ⟨s :: front, k, text, rest, rfl, hquiet⟩

private theorem Outstanding.latest (h : Outstanding signs)
    (hone : ∀ s ∈ signs, s.failure ≠ none → s.id = k) : ∃ text, LatestOutstanding signs text := by
  obtain ⟨front, k', text, rest, rfl, hnone⟩ := h
  obtain rfl : k' = k := hone ⟨k', some text⟩ (by simp) (by simp)
  rcases quiet_or_latest rest with hquiet | ⟨front', k'', text', rest', rfl, hquiet⟩
  · exact ⟨text, front, k', rest, rfl, hnone, hquiet⟩
  · obtain rfl : k'' = k' := hone ⟨k'', some text'⟩ (by simp) (by simp)
    refine ⟨text', front ++ ⟨k'', some text⟩ :: front', k'', rest', by simp, fun hmem ↦ ?_, hquiet⟩
    exact hnone (List.mem_append_right _ (List.mem_cons_of_mem _ hmem))

end Sign

/-- What an event tells of one of some variables. -/
def Inbound.sign? (ids : List VarId) : Inbound → Option Sign
  | .updated k => if k ∈ ids then some ⟨k, none⟩ else none
  | .failed k code description =>
    if code = some "path-failure" ∧ k ∈ ids then some ⟨k, some description⟩ else none
  | _ => none

/-- What a message tells of one of some variables. -/
def Message.sign? (ids : List VarId) : Message → Option Sign
  | .update k _ _ => if k ∈ ids then some ⟨k, none⟩ else none
  | .error k code description =>
    if code = some "path-failure" ∧ k ∈ ids then some ⟨k, some description⟩ else none
  | _ => none

namespace LocalStore

variable {l : LocalStore} {ids : List VarId} {ms : List Message}

private theorem filterMap_sign?_applyMessage (h : ∀ k ∈ ids, l.store.contains k = true)
    (m : Message) : (l.applyMessage m).1.filterMap (Inbound.sign? ids) = (m.sign? ids).toList := by
  have hone (e : Inbound) : [e].filterMap (Inbound.sign? ids) = (e.sign? ids).toList := by
    rw [List.filterMap_cons]
    split <;> simp_all
  rcases m with ⟨parent, value, ps, _ | id, noWatch, unbound⟩ | ⟨k, value, ps⟩ | k | k | k |
    ⟨k, code, description⟩
  · rfl
  · rw [applyMessage]
    split <;> rfl
  · rw [applyMessage, Message.sign?]
    split
    · exact hone (.updated k)
    · next hrefused =>
      rw [if_neg fun hk ↦ ?_]
      · rfl
      · rw [Store.update, if_pos (h k hk)] at hrefused
        exact absurd hrefused (by simp)
  · rfl
  · rfl
  · refine List.filterMap_eq_nil_iff.mpr fun e he ↦ ?_
    obtain ⟨k', -, rfl⟩ := List.mem_map.mp he
    rfl
  · exact hone (.failed k code description)

/-- The events of messages tell what the messages tell, if the variables are there and stay. -/
private theorem filterMap_sign?_applyAll (h : ∀ k ∈ ids, l.store.contains k = true)
    {ms : List Message} (hstay : ∀ k ∈ ids, .destroyed k ∉ (l.applyAll ms).1) :
    (l.applyAll ms).1.filterMap (Inbound.sign? ids) = ms.filterMap (Message.sign? ids) := by
  induction ms generalizing l with
  | nil => rfl
  | cons m ms ih =>
    have hfirst (k : VarId) (hk : k ∈ ids) : (l.applyMessage m).2.store.contains k = true :=
      (contains_applyMessage m (h k hk)).resolve_left fun hgone ↦
        hstay k hk (List.mem_append_left _ hgone)
    have hrest := ih hfirst fun k hk hgone ↦ hstay k hk (List.mem_append_right _ hgone)
    rw [applyAll, List.filterMap_append, filterMap_sign?_applyMessage h, hrest]
    cases hm : m.sign? ids with
    | none => rw [List.filterMap_cons_none hm]; rfl
    | some s => rw [List.filterMap_cons_some hm]; rfl

end LocalStore

/-! ## Marks

A mark has a variable and a text. Only a failure changes the variable, and only an update of that
very variable takes the mark away, so from the latest failure on the mark depends on one
variable. -/

/-- The error that an element shows, that of the last call for it. -/
def Element.error? (e : Element) : Option String :=
  e.calls.foldl (fun shown call ↦ match call with
    | .setError text => text
    | _ => shown) none

/-- The error mark of an element: the variable that it stands for, and what is shown. -/
structure Mark where
  failing : Option VarId
  text : Option String

namespace Mark

variable {signs rest : List Sign} {k : VarId} {text : String}

/-- What becomes of a mark by a sign. -/
def after (m : Mark) (s : Sign) : Mark :=
  match s.failure with
  | some text => ⟨some s.id, some text⟩
  | none => if m.failing = some s.id then ⟨none, none⟩ else m

theorem foldl_after_none (h : Sign.Quiet rest) (text : Option String) :
    rest.foldl after ⟨none, text⟩ = ⟨none, text⟩ := by
  induction rest with
  | nil => rfl
  | cons s rest ih =>
    obtain ⟨hs, hrest⟩ := List.forall_mem_cons.mp h
    rw [List.foldl_cons, after, hs]
    exact ih hrest

/-- The mark of a failure stays until its variable is updated or one fails. -/
theorem foldl_after_some (h : Sign.Quiet rest) (text : Option String) :
    rest.foldl after ⟨some k, text⟩
      = if ⟨k, none⟩ ∈ rest then ⟨none, none⟩ else ⟨some k, text⟩ := by
  induction rest with
  | nil => rfl
  | cons s rest ih =>
    obtain ⟨hs, hrest⟩ := List.forall_mem_cons.mp h
    obtain ⟨j, rfl⟩ : ∃ j, s = ⟨j, none⟩ := ⟨s.id, hs ▸ rfl⟩
    rw [List.foldl_cons, after]
    by_cases hj : k = j
    · subst hj
      rw [if_pos List.mem_cons_self]
      exact (congrArg (rest.foldl after) (if_pos rfl)).trans (foldl_after_none hrest none)
    · have hmem : (⟨k, none⟩ : Sign) ∈ ⟨j, none⟩ :: rest ↔ ⟨k, none⟩ ∈ rest := by simp [hj]
      simp only [hmem, Option.some.injEq, if_neg hj]
      exact ih hrest

private theorem foldl_after_append (front : List Sign) (h : Sign.Quiet rest) (text : String)
    (m : Mark) : (front ++ ⟨k, some text⟩ :: rest).foldl after m
      = if ⟨k, none⟩ ∈ rest then ⟨none, none⟩ else ⟨some k, some text⟩ := by
  rw [List.foldl_append, List.foldl_cons]
  exact foldl_after_some h (some text)

/-- **What a mark shows in the end:** the latest failure if it is outstanding and, as long as there
has been none, what it showed at first. -/
theorem text_foldl_after_iff (shown : Option String) :
    (signs.foldl after ⟨none, shown⟩).text = some text ↔
      Sign.LatestOutstanding signs text ∨ shown = some text ∧ Sign.Quiet signs := by
  constructor
  · intro h
    rcases Sign.quiet_or_latest signs with hquiet | ⟨front, k, text', rest, rfl, hquiet⟩
    · rw [foldl_after_none hquiet] at h
      exact .inr ⟨h, hquiet⟩
    · rw [foldl_after_append front hquiet] at h
      split at h
      · exact absurd h (by simp)
      · next hnone =>
        obtain rfl := Option.some.inj h
        exact .inl ⟨front, k, rest, rfl, hnone, hquiet⟩
  · rintro (⟨front, k, rest, rfl, hnone, hquiet⟩ | ⟨rfl, hquiet⟩)
    · rw [foldl_after_append front hquiet, if_neg hnone]
    · rw [foldl_after_none hquiet]

end Mark

namespace BoundElement

open BindingEngine

variable {value : VarId → Json} {b : BoundElement} {e : Inbound} {es : List Inbound} {k : VarId}

/-- The error mark of a bound element. -/
def mark (b : BoundElement) : Mark := ⟨b.failing, b.element.error?⟩

private theorem error?_showing (x : Element) (v : Json) (c : Binding) :
    { x with calls := x.calls ++ showing v c }.error? = x.error? := by
  rw [Element.error?, List.foldl_append, ← Element.error?, showing]
  split
  · cases c.kind <;> rfl
  · rfl

/-- What an element makes of an update takes its mark away if that stands for the variable. -/
theorem mark_showOn (h : k ∈ b.ids) (v : Json) :
    (showOn v k b).mark = b.mark.after ⟨k, none⟩ := by
  rcases hc : b.binding? k with _ | c
  · exact absurd h (binding?_eq_none_iff.mp hc)
  rw [showOn_eq hc, mark, ← List.append_assoc]
  have herror := error?_showing { b.element with calls := b.element.calls ++ b.clearing k } v c
  simp only [herror]
  rw [clearing, mark, Mark.after]
  simp only
  split
  · rw [Element.error?, List.foldl_append]
    rfl
  · rw [List.append_nil]

private theorem ids_see (h : ∀ k ∈ b.ids, e ≠ .destroyed k) : (b.see value e).ids = b.ids := by
  rw [see.eq_def]
  split
  · exact ids_showOn _ _ b
  · split <;> rfl
  · next k =>
    rw [ids, filter_of_not_mem fun hk ↦ h k hk rfl]
    rfl
  · rfl

/-- The mark of an element changes by the signs that events give of its variables. -/
theorem mark_see (value : VarId → Json) (b : BoundElement) (e : Inbound) :
    (b.see value e).mark = (e.sign? b.ids).toList.foldl Mark.after b.mark := by
  rw [see.eq_def]
  split
  · next k =>
    rw [Inbound.sign?]
    split
    · next hk => exact mark_showOn hk (value k)
    · next hk => rw [showOn_of_not_mem hk]; rfl
  · next k description =>
    by_cases hk : k ∈ b.ids
    · rw [if_pos hk, Inbound.sign?, if_pos ⟨rfl, hk⟩, mark, BoundElement.call, Element.call,
        Element.error?, List.foldl_append]
      rfl
    · rw [if_neg hk, Inbound.sign?, if_neg fun h ↦ hk h.2]
      rfl
  · rfl
  · next hupdated hfailed hdestroyed =>
    have hsign : e.sign? b.ids = none := by
      cases e with
      | updated k => exact absurd rfl (hupdated k)
      | failed k code description =>
        refine if_neg ?_
        rintro ⟨rfl, -⟩
        exact hfailed k description rfl
      | _ => rfl
    rw [hsign]
    rfl

theorem mark_foldl_see (value : VarId → Json) (h : ∀ k ∈ b.ids, .destroyed k ∉ es) :
    (es.foldl (see value) b).ids = b.ids ∧
    (es.foldl (see value) b).mark
      = (es.filterMap (Inbound.sign? b.ids)).foldl Mark.after b.mark := by
  induction es generalizing b with
  | nil => exact ⟨rfl, rfl⟩
  | cons e es ih =>
    have hids : (b.see value e).ids = b.ids :=
      ids_see fun k hk heq ↦ h k hk (heq ▸ List.mem_cons_self)
    obtain ⟨hsame, hmark⟩ := ih (b := b.see value e) fun k hk hmem ↦
      h k (hids ▸ hk) (List.mem_cons_of_mem e hmem)
    refine ⟨hsame.trans hids, hmark.trans ?_⟩
    rw [hids, mark_see]
    cases he : e.sign? b.ids with
    | none => rw [List.filterMap_cons_none he]; rfl
    | some s => rw [List.filterMap_cons_some he]; rfl

end BoundElement

namespace BindingEngine

open LocalStore BoundElement

variable {window : Nat} {base : VarId} {g g' : BindingEngine} {id : ElementId} {b : BoundElement}
  {hs : List Happening}

/-! ## Histories

Between two batches anything may happen to the copy and to the other elements. `Happening.Leaves`
excludes what would take the element or its mark away by hand, and `Spares` what would take its
variables. -/

/-- Whether something that happens neither unbinds an element nor changes the error that it shows
from outside. -/
def Happening.Leaves (id : ElementId) : Happening → Prop
  | .act (.unbind _ id') => id' ≠ id
  | .element id' f => id' = id → ∀ e, (f e).error? = e.error?
  | _ => True

/-- The events of the batch that is received, if one is. -/
def eventsOf (g : BindingEngine) : Happening → List Inbound
  | .act (.receive batch) => (g.receive batch).1
  | _ => []

/-- Whether none of some variables is destroyed in a history, by a batch or from this side. -/
def Spares (ids : List VarId) : BindingEngine → List Happening → Prop
  | _, [] => True
  | g, h :: hs => (∀ k ∈ ids, .destroyed k ∉ g.eventsOf h ∧
      (g.happen h).store.store.contains k = true) ∧ Spares ids (g.happen h) hs

/-- What is told of some variables by the batch that is received, if one is. The pieces of the batch
count in the order in which they are processed. -/
def Happening.told (ids : List VarId) : Happening → List Sign
  | .act (.receive batch) => batch.ordered.filterMap (Message.sign? ids)
  | _ => []

/-- What the batches of a history tell of some variables. -/
def told (ids : List VarId) (hs : List Happening) : List Sign := hs.flatMap (Happening.told ids)

/-! ### The element while something happens

Of all that may happen only a batch gives signs, and the mark follows them. Everything else leaves
the element bound with the same mark, given what `Happening.Leaves` excludes. -/

/-- Whether an element is still bound with the same variables and the same mark. -/
def KeepsMark (id : ElementId) (b : BoundElement) (g : BindingEngine) : Prop :=
  ∃ b', g.elements.get? id = some b' ∧ b'.ids = b.ids ∧ b'.mark = b.mark

theorem get?_bind (hid : id < g.nextElement) (now : Nat) (context : VarId) (e : Element) :
    (g.bind now context e).2.elements.get? id = g.elements.get? id := by
  rw [bind]
  simp only
  split
  · rfl
  · split
    · rfl
    · rw [KeyMap.get?_insert, if_neg (Nat.ne_of_gt hid)]

theorem get?_unbind {id' : ElementId} (hid : id' ≠ id) (now : Nat) :
    (g.unbind now id').2.elements.get? id = g.elements.get? id := by
  rw [unbind]
  split
  · rfl
  · rw [KeyMap.get?_erase, if_neg hid]

private theorem Sends.get? (h : g.Sends g') (id : ElementId) :
    g'.elements.get? id = g.elements.get? id := by
  obtain ⟨l, rfl, -⟩ := h
  rfl

private theorem keepsMark_modify (hb : g.elements.get? id = some b) (id' : ElementId)
    {f : Element → Element} (hf : id' = id → ∀ e, (f e).error? = e.error?) :
    KeepsMark id b { g with
      elements := g.elements.modify id' fun b ↦ { b with element := f b.element } } := by
  by_cases hid : id' = id
  · refine ⟨{ b with element := f b.element }, ?_, rfl, ?_⟩
    · rw [KeyMap.get?_modify, if_pos hid, hb]
      rfl
    · rw [mark, mark, hf hid]
  · refine ⟨b, ?_, rfl, rfl⟩
    rw [KeyMap.get?_modify, if_neg hid, hb]

/-- Whatever else happens leaves the element and its mark as they are. -/
theorem keepsMark_happen (hb : g.elements.get? id = some b) (hid : id < g.nextElement)
    {h : Happening} (hleaves : h.Leaves id) (hreceive : ∀ batch, h ≠ .act (.receive batch)) :
    KeepsMark id b (g.happen h) := by
  have hsame {g' : BindingEngine} (hget : g'.elements.get? id = g.elements.get? id) :
      KeepsMark id b g' := ⟨b, hget.trans hb, rfl, rfl⟩
  cases h with
  | act a =>
    cases a with
    | bind now context e => exact hsame (get?_bind hid now context e)
    | unbind now id' => exact hsame (get?_unbind hleaves now)
    | receive batch => exact absurd rfl (hreceive batch)
    | writeValue now id' v => exact hsame ((followsSending_sends.writeValue g now id' v).get? id)
    | input now id' => exact hsame ((followsSending_sends.input g now id').get? id)
    | trigger now id' event payload =>
      exact hsame ((followsSending_sends.trigger g now id' event payload).get? id)
    | poll now => exact hsame rfl
    | live id' v => exact keepsMark_modify hb id' (f := fun e ↦ { e with live := v }) fun _ _ ↦ rfl
  | copy a => exact hsame rfl
  | element id' f => exact keepsMark_modify hb id' hleaves

theorem Sound.nextElement_happen (h : g.Sound window base) (e : Happening) :
    g.nextElement ≤ (g.happen e).nextElement := by
  cases e with
  | act a =>
    rcases h.act_cases a with ⟨now, id, rfl⟩ | ⟨_, hsheds, -, -⟩ | ⟨ids, hbinds⟩
    · exact Nat.le_of_eq (g.unbind_spec now id).2.2.2.2.symm
    · exact hsheds.nextElement
    · exact Nat.le_trans (Nat.le_succ _) (Nat.le_of_eq hbinds.nextElement.symm)
  | copy a => exact Nat.le_refl _
  | element id f => exact Nat.le_refl _

/-- **What happens changes a mark by the signs that it gives**, as long as the element stays bound
and its variables stay. -/
theorem Sound.mark_happen (hsound : g.Sound window base) (hb : g.elements.get? id = some b)
    (hid : id < g.nextElement) (hthere : ∀ k ∈ b.ids, g.store.store.contains k = true)
    {h : Happening} (hleaves : h.Leaves id)
    (hstay : ∀ k ∈ b.ids, .destroyed k ∉ g.eventsOf h) :
    ∃ b', (g.happen h).elements.get? id = some b' ∧ b'.ids = b.ids ∧
      b'.mark = (h.told b.ids).foldl Mark.after b.mark := by
  -- only batches give signs
  by_cases hreceive : ∃ batch, h = .act (.receive batch)
  · obtain ⟨batch, rfl⟩ := hreceive
    obtain ⟨hids, hmark⟩ := mark_foldl_see (g.receive batch).2.shown hstay
    have hsigns := filterMap_sign?_applyAll hthere hstay
    refine ⟨_, ?_, hids, hmark.trans ?_⟩
    · rw [BindingEngine.happen, BindingEngine.act, get?_receive hsound.indexed, hb]
      rfl
    · exact congrArg (List.foldl Mark.after b.mark) hsigns
  · have htold : h.told b.ids = [] := by
      rw [Happening.told.eq_def]
      split
      · next batch => exact absurd ⟨batch, rfl⟩ hreceive
      · rfl
    rw [htold]
    exact keepsMark_happen hb hid hleaves fun batch heq ↦ hreceive ⟨batch, heq⟩

/-- **What a mark becomes in a history.** -/
theorem Sound.mark_after (hsound : g.Sound window base) (hb : g.elements.get? id = some b)
    (hid : id < g.nextElement) (hthere : ∀ k ∈ b.ids, g.store.store.contains k = true)
    (hleaves : ∀ h ∈ hs, h.Leaves id) (hspares : g.Spares b.ids hs) :
    ∃ b', (g.after hs).elements.get? id = some b' ∧
      b'.mark = (told b.ids hs).foldl Mark.after b.mark := by
  induction hs generalizing g b with
  | nil => exact ⟨b, hb, rfl⟩
  | cons h hs ih =>
    obtain ⟨hfirst, hrest⟩ := List.forall_mem_cons.mp hleaves
    obtain ⟨hstay, hspares⟩ := hspares
    obtain ⟨b', hb', hids, hmark⟩ :=
      hsound.mark_happen hb hid hthere hfirst fun k hk ↦ (hstay k hk).1
    rw [← hids] at hspares
    obtain ⟨b'', hb'', hmark'⟩ := ih (hsound.happen h) hb'
      (Nat.lt_of_lt_of_le hid (hsound.nextElement_happen h))
      (fun k hk ↦ (hstay k (hids ▸ hk)).2) hrest hspares
    refine ⟨b'', hb'', hmark'.trans ?_⟩
    rw [hids, hmark, told, told, List.flatMap_cons, List.foldl_append]

theorem bind_ok {now : Nat} {context : VarId} {e : Element}
    (h : g.bind now context e = (.ok id, g')) : ∃ b, g'.elements.get? id = some b ∧
      b.element = e ∧ b.failing = none ∧ id < g'.nextElement ∧
      ∀ k ∈ b.ids, g'.store.store.contains k = true := by
  rw [bind] at h
  simp only at h
  split at h
  · exact absurd (congrArg Prod.fst h) (by simp)
  · next watched hwatch =>
    have hadds := adds_createBindings watched now context e.tag (observerOf g.nextElement)
      e.attributes
    split at h
    · exact absurd (congrArg Prod.fst h) (by simp)
    · next bs l hcreate =>
      obtain ⟨hid, rfl⟩ := Prod.mk.inj h
      obtain rfl := Except.ok.inj hid
      rw [hcreate] at hadds
      refine ⟨⟨e, context, observerOf g.nextElement, bs, none⟩, ?_, rfl, rfl, Nat.lt_succ_self _,
        fun k hk ↦ hadds.contains_iff.mpr (.inl hk)⟩
      rw [KeyMap.get?_insert, if_pos rfl]

/-- **When an element shows which error.** Whatever has happened since it was bound, as long as it
is bound and none of its variables has been destroyed, it shows the latest failure of its variables
if that is outstanding and, until one has failed, what it showed when it was bound. So if it was
bound without an error, it shows one exactly if any failure is outstanding, provided that the latest
failure is outstanding whenever any is; which is so if only one variable fails. -/
theorem error_shown_iff {now : Nat} {context : VarId} {e : Element} (hreached : g.Reached)
    (hbind : g.bind now context e = (.ok id, g')) (hleaves : ∀ h ∈ hs, h.Leaves id)
    (hspares : g'.Spares (g'.listed id) hs) :
    ∃ b, (g'.after hs).elements.get? id = some b ∧
      (∀ text, b.element.error? = some text ↔
        Sign.LatestOutstanding (told (g'.listed id) hs) text ∨
          e.error? = some text ∧ Sign.Quiet (told (g'.listed id) hs)) ∧
      (e.error? = none → ((b.element.error?.isSome = true ↔
          Sign.Outstanding (told (g'.listed id) hs)) ↔
        (Sign.Outstanding (told (g'.listed id) hs) →
          ∃ text, Sign.LatestOutstanding (told (g'.listed id) hs) text))) ∧
      (e.error? = none →
        (∃ k, ∀ s ∈ told (g'.listed id) hs, s.failure ≠ none → s.id = k) →
        (b.element.error?.isSome = true ↔ Sign.Outstanding (told (g'.listed id) hs))) := by
  obtain ⟨window, base, hsound⟩ := hreached.sound
  have hsound' : g'.Sound window base := by
    have h := hsound.act (.bind now context e)
    rwa [act, hbind] at h
  obtain ⟨b, hb, rfl, hfailing, hid, hthere⟩ := bind_ok hbind
  rw [listed_of_get? hb] at hspares ⊢
  obtain ⟨b', hb', hmark⟩ := hsound'.mark_after hb hid hthere hleaves hspares
  -- from here on the history is the list of its signs
  generalize told b.ids hs = signs at hmark ⊢
  have htext (text : String) : b'.element.error? = some text ↔
      Sign.LatestOutstanding signs text ∨ b.element.error? = some text ∧ Sign.Quiet signs := by
    rw [← Mark.text_foldl_after_iff, ← hfailing]
    exact iff_of_eq (congrArg (fun m : Mark ↦ m.text = some text) hmark)
  have hshown (hclean : b.element.error? = none) : b'.element.error?.isSome = true ↔
      ∃ text, Sign.LatestOutstanding signs text := by
    rw [Option.isSome_iff_exists]
    refine exists_congr fun text ↦ (htext text).trans ?_
    simp [hclean]
  have hany : (∃ text, Sign.LatestOutstanding signs text) → Sign.Outstanding signs := by
    rintro ⟨text, h⟩
    exact h.outstanding
  refine ⟨b', hb', htext, fun hclean ↦ ?_, ?_⟩
  · rw [hshown hclean]
    exact ⟨Iff.mpr, fun h ↦ ⟨hany, h⟩⟩
  · -- with one variable that fails, an outstanding failure is followed by no other
    rintro hclean ⟨k, hone⟩
    rw [hshown hclean]
    exact ⟨hany, fun h ↦ h.latest hone⟩

/-- Both variables of the card fail, the address last, and the name recovers. -/
def nameRecovers : List Happening := [
  .act (.receive ⟨false, [.error 2 (some "path-failure") "no name"]⟩),
  .act (.live 1 (.string "Homer")),
  .act (.receive ⟨false, [.error 3 (some "path-failure") "no email", .ofValue 2 (.string "Bart")]⟩)]

/-- Both variables of the card fail, and the one that failed last recovers. -/
def emailRecovers : List Happening := [
  .act (.receive ⟨false, [.error 2 (some "path-failure") "no name"]⟩),
  .act (.receive ⟨false, [.error 3 (some "path-failure") "no email"]⟩),
  .act (.receive ⟨false, [.ofValue 3 (.string "bart@example.com")]⟩)]

theorem bind_card : (newOver 10 0 []).bind 0 rootId card = (.ok 1, withCard) := by
  have hid : ((newOver 10 0 []).bind 0 rootId card).1 = .ok 1 := by decide +kernel
  exact Prod.ext hid rfl

/-- The card goes on showing the failure of the address. -/
theorem error_shown_card :
    (newOver 10 0 []).Reached ∧ (newOver 10 0 []).bind 0 rootId card = (.ok 1, withCard) ∧
    (∀ h ∈ nameRecovers, h.Leaves 1) ∧ withCard.Spares (withCard.listed 1) nameRecovers ∧
    ∃ b, (withCard.after nameRecovers).elements.get? 1 = some b ∧
      b.element.error? = some "no email" := by
  have hreached : (newOver 10 0 []).Reached := ⟨10, 0, [], [], rfl⟩
  have hleaves : ∀ h ∈ nameRecovers, h.Leaves 1 := by simp [nameRecovers, Happening.Leaves]
  have hspares : withCard.Spares (withCard.listed 1) nameRecovers :=
    ⟨by decide +kernel, by decide +kernel, by decide +kernel, trivial⟩
  obtain ⟨b, hb, htext, -⟩ := error_shown_iff hreached bind_card hleaves hspares
  refine ⟨hreached, bind_card, hleaves, hspares, b, hb, (htext "no email").mpr (.inl ?_)⟩
  have htold : told (withCard.listed 1) nameRecovers
      = [⟨2, some "no name"⟩, ⟨3, some "no email"⟩, ⟨2, none⟩] := by decide +kernel
  rw [htold]
  exact ⟨[⟨2, some "no name"⟩], 3, [⟨2, none⟩], rfl, by decide, by decide⟩

/-- The card is bound all the time and keeps its variables, and it shows no error although the
failure of the name is outstanding. -/
theorem recovery_hides_failure :
    (newOver 10 0 []).bind 0 rootId card = (.ok 1, withCard) ∧
    (∀ h ∈ emailRecovers, h.Leaves 1) ∧ withCard.Spares (withCard.listed 1) emailRecovers ∧
    ∃ b, (withCard.after emailRecovers).elements.get? 1 = some b ∧
      ¬ (b.element.error?.isSome = true ↔
        Sign.Outstanding (told (withCard.listed 1) emailRecovers)) := by
  have hleaves : ∀ h ∈ emailRecovers, h.Leaves 1 := by simp [emailRecovers, Happening.Leaves]
  have hspares : withCard.Spares (withCard.listed 1) emailRecovers :=
    ⟨by decide +kernel, by decide +kernel, by decide +kernel, trivial⟩
  have hshown : ((withCard.after emailRecovers).elements.get? 1).map (fun b ↦ b.element.error?)
      = some none := by decide +kernel
  obtain ⟨b, hb, hnone⟩ := Option.map_eq_some_iff.mp hshown
  have htold : told (withCard.listed 1) emailRecovers
      = [⟨2, some "no name"⟩, ⟨3, some "no email"⟩, ⟨3, none⟩] := by decide +kernel
  have houtstanding : Sign.Outstanding (told (withCard.listed 1) emailRecovers) := by
    rw [htold]
    exact ⟨[], 2, "no name", [⟨3, some "no email"⟩, ⟨3, none⟩], rfl, by decide⟩
  refine ⟨bind_card, hleaves, hspares, b, hb, fun h ↦ ?_⟩
  have hsome := h.mpr houtstanding
  rw [hnone] at hsome
  exact absurd hsome (by simp)

end BindingEngine

end ReactiveVars
