import ReactiveVars.Proofs.Application.Writes
import ReactiveVars.Proofs.Backend.Addressees
import ReactiveVars.Proofs.Backend.Presentation

/-!
# Updates that are refused

An update of a variable with a path writes before it stores anything, and a write that calls no
method changes an object, or the value of a parent, only where nothing can fail any more. So over an
object space a refused update leaves everything as it was: objects, variables, watchers, records and
the next number. `Turn.RefusesUpdate` lists the ways in which an update is refused, and there are no
others.

## Main statement

* `refused_update_changes_nothing`: which updates are refused, and what is left of them.
-/

namespace ReactiveVars

open TurnM

variable {w : WrapperRegistry} {t : Turn ObjectSpace} {o : Observer} {id : VarId} {v : Variable}
  {value : Json} {e : SyncError}

/-! ## Ways of being refused

The constructors are the checks of a write in the order in which they are made. Each names what the
check has found, down to the error that is answered. -/

/-- Why a value cannot be written to where the path of a variable leads. -/
inductive Turn.RefusesWrite (w : WrapperRegistry) (t : Turn ObjectSpace) (v : Variable)
    (value : Json) : SyncError → Prop
  /-- The text of the path is no path. -/
  | unreadable {raw : String} {reason : PathError} (text : v.path? = some raw)
    (parse : Path.parse raw = .error reason) :
    RefusesWrite w t v value (.badRequest v.id reason.message)
  /-- The parent cannot be presented. -/
  | unpresented {raw : String} {path : Path} {e : SyncError} (text : v.path? = some raw)
    (parse : Path.parse raw = .ok path)
    (parent : parentValue w v.parent t = .error (.refused e) t) : RefusesWrite w t v value e
  /-- The path starts at an object, and cannot be written from there. -/
  | object {raw : String} {path : Path} {base : Json} {r : ObjectRef} {reason : String}
    (text : v.path? = some raw) (parse : Path.parse raw = .ok path)
    (parent : parentValue w v.parent t = .ok base t) (ref : ObjectRef.ofJson? base = some r)
    (failed : (t.app.write r path.segments value).1 = .failed reason) :
    RefusesWrite w t v value (.pathFailure v.id reason)
  /-- The path starts in the parent's own value, and cannot be written from there. -/
  | literal {raw : String} {path : Path} {base : Json} {u : Variable}
    {reason : Document.WriteError} (text : v.path? = some raw) (parse : Path.parse raw = .ok path)
    (parent : parentValue w v.parent t = .ok base t) (plain : ObjectRef.ofJson? base = none)
    (found : t.session.store.get? v.parent = some u) (own : u.path? = none)
    (failed : Document.assign u.value path.segments value = .error reason) :
    RefusesWrite w t v value (.pathFailure v.id reason.message)
  /-- The path starts in a value that is not the parent's own. -/
  | derived {raw : String} {path : Path} {base : Json} (text : v.path? = some raw)
    (parse : Path.parse raw = .ok path) (parent : parentValue w v.parent t = .ok base t)
    (plain : ObjectRef.ofJson? base = none)
    (other : ∀ u, t.session.store.get? v.parent = some u → u.path?.isSome = true) :
    RefusesWrite w t v value (.pathFailure v.id ("parent of '" ++ raw ++ "' is not writable"))

/-- Why an update is refused. -/
inductive Turn.RefusesUpdate (w : WrapperRegistry) (t : Turn ObjectSpace) (id : VarId)
    (value : Option Json) : SyncError → Prop
  | unknown (missing : t.session.store.get? id = none) :
    RefusesUpdate w t id value (.unknownVariable id)
  /-- The value counts and cannot be written. -/
  | unwritable {v : Variable} {new : Json} {e : SyncError}
    (found : t.session.store.get? id = some v)
    (counts : effectiveValue t.session.store id value = some new)
    (refused : t.RefusesWrite w v new e) : RefusesUpdate w t id value e

/-! ## Parts that may fail -/

/-- Without methods, the value of a parent is found or refused, and everything stays as it is. -/
private theorem parentValue_of_methodFree (hfree : t.session.store.isMethodFree = true)
    (parent : VarId) : (∃ b, parentValue w parent t = .ok b t) ∨
      ∃ e, parentValue w parent t = .error (.refused e) t := by
  rw [parentValue, bind_run, store_run]
  by_cases hc : t.session.store.contains parent = true
  · simp only [hc, if_true]
    obtain ⟨b, hb⟩ | ⟨e, he⟩ := presentedIn_of_methodFree w parent hfree t.app
    · exact .inl ⟨b, presentedValue_of_ok hb⟩
    · exact .inr ⟨e, presentedValue_of_error he⟩
  · simp only [hc, Bool.false_eq_true, if_false]
    exact .inl ⟨Application.rootValue t.app, rfl⟩

/-- Without methods, a write that fails leaves the objects as they are, and no write crashes. -/
private theorem ask_write_cases {segments : List Segment} {base : Json} {r : ObjectRef}
    (hfree : Segment.noMethodIn segments = true) (hr : ObjectRef.ofJson? base = some r)
    (value : Json) :
    (∃ t', (t.app.write r segments value).1 = .ok () ∧
      ask (fun app ↦ Application.write app r segments value) t = .ok (.ok ()) t') ∨
      ∃ reason, (t.app.write r segments value).1 = .failed reason ∧
        ask (fun app ↦ Application.write app r segments value) t = .ok (.error reason) t := by
  have hask : ask (fun app ↦ Application.write app r segments value) t
      = match t.app.write r segments value with
        | (.ok (), app) => .ok (.ok ()) { t with app := app }
        | (.failed reason, app) => .ok (.error reason) { t with app := app }
        | (.crashed, app) => .error .crashed { t with app := app } := by
    have hwrite : Application.write t.app r segments value = t.app.write r segments value := rfl
    rw [ask, hwrite]
    rcases t.app.write r segments value with ⟨_ | _ | _, app⟩ <;> rfl
  have hstart := ObjectSpace.reaches_start (a := t.app) (ObjectRef.ofJson?_eq_some_iff.mp hr).2.1
  rw [hask, ObjectSpace.write]
  obtain ⟨reason, hfail⟩ | ⟨_, _, _, _, _, _, _, _, _, hok⟩ := hstart.writeFrom_cases hfree value
  · exact .inr ⟨reason, by rw [hfail], by rw [hfail]⟩
  · exact .inl ⟨_, by rw [hok], by rw [hok]⟩

private theorem noMethodIn_of_isMethodFree (hfree : t.session.store.isMethodFree = true)
    (hv : t.session.store.get? id = some v) {raw : String} {path : Path} (text : v.path? = some raw)
    (parse : Path.parse raw = .ok path) : Segment.noMethodIn path.segments = true :=
  Variable.noMethodIn_of_parse (List.all_eq_true.mp hfree v (Store.mem_of_get? hv)) text parse

/-- A write that is refused in one of the listed ways has changed nothing. -/
theorem writeThrough_of_refusesWrite (hfree : t.session.store.isMethodFree = true)
    (hv : t.session.store.get? id = some v) (h : t.RefusesWrite w v value e) :
    writeThrough w id value t = .error (.refused e) t := by
  obtain rfl : v.id = id := Store.id_of_get? hv
  rcases h with ⟨text, parse⟩ | ⟨text, parse, parent⟩ | ⟨text, parse, parent, ref, failed⟩
    | ⟨text, parse, parent, plain, found, own, failed⟩ | ⟨text, parse, parent, plain, other⟩
  · simp only [writeThrough, bind_run, store_run, hv, text, parse, refuse_run]
  · simp only [writeThrough, bind_run, store_run, hv, text, parse, parent]
  · have hpath := noMethodIn_of_isMethodFree hfree hv text parse
    obtain ⟨t', hok, -⟩ | ⟨reason, hreason, hask⟩ := ask_write_cases (t := t) hpath ref value
    · rw [failed] at hok
      simp at hok
    · rw [failed] at hreason
      obtain rfl := Reply.failed.inj hreason
      simp only [writeThrough, bind_run, store_run, hv, text, parse, parent, ref, hask, refuse_run]
  · simp only [writeThrough, bind_run, store_run, hv, text, parse, parent, plain, found, own,
      Option.isSome_none, Bool.false_eq_true, if_false, failed, refuse_run]
  · rcases hu : t.session.store.get? v.parent with _ | u
    · simp only [writeThrough, bind_run, store_run, hv, text, parse, parent, plain, hu, refuse_run]
    · simp only [writeThrough, bind_run, store_run, hv, text, parse, parent, plain, hu, other u hu,
        if_true, refuse_run]

/-- A write passes, or it is refused in one of the listed ways. -/
theorem writeThrough_cases (hfree : t.session.store.isMethodFree = true)
    (hv : t.session.store.get? id = some v) (value : Json) :
    (∃ t', writeThrough w id value t = .ok () t') ∨ ∃ e, t.RefusesWrite w v value e := by
  rcases text : v.path? with _ | raw
  · exact .inl ⟨t, by simp only [writeThrough, bind_run, store_run, hv, text, pure_run]⟩
  rcases parse : Path.parse raw with reason | path
  · exact .inr ⟨_, .unreadable text parse⟩
  have hpath := noMethodIn_of_isMethodFree hfree hv text parse
  obtain ⟨base, parent⟩ | ⟨e, parent⟩ := parentValue_of_methodFree (w := w) hfree v.parent
  · rcases hbase : ObjectRef.ofJson? base with _ | r
    · -- the path starts in the value of the parent
      rcases hu : t.session.store.get? v.parent with _ | u
      · exact .inr ⟨_, .derived text parse parent hbase (by simp [hu])⟩
      rcases hown : u.path? with _ | other
      · rcases hassign : Document.assign u.value path.segments value with reason | value'
        · exact .inr ⟨_, .literal text parse parent hbase hu hown hassign⟩
        · refine .inl ⟨{ t with session := t.session.assigned v.parent value' }, ?_⟩
          simp only [writeThrough, bind_run, store_run, hv, text, parse, parent, hbase, hu, hown,
            Option.isSome_none, Bool.false_eq_true, if_false, hassign, modifyStore_run]
          rfl
      · exact .inr ⟨_, .derived text parse parent hbase (by simp [hu, hown])⟩
    · obtain ⟨t', -, hask⟩ | ⟨reason, hreason, -⟩ := ask_write_cases (t := t) hpath hbase value
      · refine .inl ⟨t', ?_⟩
        simp only [writeThrough, bind_run, store_run, hv, text, parse, parent, hbase, hask,
          pure_run]
      · exact .inr ⟨_, .object text parse parent hbase hreason⟩
  · exact .inr ⟨_, .unpresented text parse parent⟩

/-! ## Updates -/

/-- An update that is refused in one of the listed ways has changed nothing. -/
theorem update_of_refusesUpdate (hfree : t.session.store.isMethodFree = true)
    {value : Option Json} (h : t.RefusesUpdate w id value e) (o : Observer) (ps : Properties) :
    update w o id value ps t = .error (.refused e) t := by
  rcases h with missing | ⟨found, counts, refused⟩
  · exact update_of_unknown missing value ps
  · have hwrite := writeThrough_of_refusesWrite hfree found refused
    exact update_of_writeThrough_error found counts hwrite ps

theorem update_passes_or_refused (hfree : t.session.store.isMethodFree = true) (o : Observer)
    (id : VarId) (value : Option Json) (ps : Properties) :
    (∃ t', update w o id value ps t = .ok () t') ∨ ∃ e, t.RefusesUpdate w id value e := by
  rcases hv : t.session.store.get? id with _ | v
  · exact .inr ⟨_, .unknown hv⟩
  rcases hnew : effectiveValue t.session.store id value with _ | new
  · exact .inl ⟨_, update_of_none hv hnew ps⟩
  obtain ⟨t', hwrite⟩ | ⟨e, he⟩ := writeThrough_cases (w := w) hfree hv new
  · exact .inl ⟨_, (update_of_writeThrough hv hnew hwrite ps).2⟩
  · exact .inr ⟨e, .unwritable hv hnew he⟩

/-- **A refused update changes nothing.** -/
theorem refused_update_changes_nothing (hfree : t.session.store.isMethodFree = true)
    (w : WrapperRegistry) (o : Observer) (id : VarId) (value : Option Json) (ps : Properties) :
    ((∃ d ∈ (Operation.handle o (.update id value ps)).sent w t, d.2.isError = true) ↔
      ∃ e, t.RefusesUpdate w id value e) ∧
    ∀ e, t.RefusesUpdate w id value e →
      handle w o (.update id value ps) t
        = .ok () { t with dispatch := t.dispatch ++ [(o, e.message)] } := by
  have hanswer (e : SyncError) (he : t.RefusesUpdate w id value e) :
      handle w o (.update id value ps) t
        = .ok () { t with dispatch := t.dispatch ++ [(o, e.message)] } := by
    rw [handle_run, obey_update, update_of_refusesUpdate hfree he o ps]
  refine ⟨⟨?_, ?_⟩, hanswer⟩
  · rintro ⟨d, hd, herror⟩
    obtain ⟨t', hok⟩ | hrefused := update_passes_or_refused (w := w) hfree o id value ps
    · -- what an accepted update sends are relays
      obtain ⟨sent, hsent, htells⟩ := obey_tells w o (.update id value ps) t
      have hafter : ((Operation.handle o (.update id value ps)).part w).after t
          = (obey w o (.update id value ps)).after t := by
        rw [Operation.part, after, handle_run, obey_update, hok, after, hok]
      rw [sent_eq (by rw [hafter, hsent])] at hd
      rw [(htells d hd).1] at herror
      exact absurd herror (by simp)
    · exact hrefused
  · rintro ⟨e, he⟩
    refine ⟨(o, e.message), ?_, rfl⟩
    rw [sent_eq (by rw [Operation.part, after_of_ok (hanswer e he)])]
    exact List.mem_singleton_self _

/-- A variable whose path leads into the text of an address. -/
def ContactBook.intoText : Turn ObjectSpace :=
  turn.run .standard [.handle "a" (.create rootId none (.ofList [("path", "spouse.email.domain")])
    (some 2) true false)]

theorem refused_update_into_text :
    ContactBook.intoText.session.store.isMethodFree = true ∧
      ∃ e, ContactBook.intoText.RefusesUpdate .standard 2 (some (.string "example.org")) e ∧
        handle .standard "a" (.update 2 (some (.string "example.org")) .empty) ContactBook.intoText
          = .ok () { ContactBook.intoText with
              dispatch := ContactBook.intoText.dispatch ++ [("a", e.message)] } := by
  have hfree : ContactBook.intoText.session.store.isMethodFree = true := by decide +kernel
  have herror : ((Operation.handle "a" (.update 2 (some (.string "example.org")) .empty)).sent
      .standard ContactBook.intoText).any (fun d ↦ d.2.isError) = true := by decide +kernel
  obtain ⟨hiff, hanswer⟩ := refused_update_changes_nothing hfree .standard "a" 2
    (some (.string "example.org")) .empty
  obtain ⟨e, he⟩ := hiff.mp (List.any_eq_true.mp herror)
  exact ⟨hfree, e, he, hanswer e he⟩

end ReactiveVars
