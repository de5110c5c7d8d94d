import ReactiveVars.Backend.Turn
import ReactiveVars.Path.Basic
import ReactiveVars.Path.Document
import ReactiveVars.Wrapper

/-!
# Presented values

What the watchers of a variable see. A variable without path presents its value. One with a path
presents what the path finds from the presented value of its parent, or from the root of the
application if it has no parent; where the path finds nothing, that is null. A wrapper may give the
value another form at the end.

Writing a value to a variable with a path writes it where the path leads.
-/

namespace ReactiveVars

open TurnM

variable {σ : Type} [Application σ]

/-! ## Reading -/

/-- What a path finds from a value; null if it cannot be followed. -/
def readPath (base : Json) (segments : List Segment) (app : σ) : Except Halt Json × σ :=
  match ObjectRef.ofJson? base with
  | some r =>
    match Application.resolve app r segments with
    | (.ok v, app') => (.ok v, app')
    | (.failed _, app') => (.ok .null, app')
    | (.crashed, app') => (.error .crashed, app')
  | none => (.ok (Document.resolve base segments), app)

/-- The presented value of a variable among variables of which the latest is first. -/
def presentedIn (w : WrapperRegistry) (id : VarId) : List Variable → σ → Except Halt Json × σ
  | [], app => (.error (.refused (.unknownVariable id)), app)
  | v :: older, app =>
    if v.id = id then
      match v.path? with
      | none => (.ok (w.present v.wrapper? v.value v.properties), app)
      | some raw =>
        match Path.parse raw with
        | .error e => (.error (.refused (.badRequest id e.message)), app)
        | .ok path =>
          let base :=
            if older.any fun u ↦ u.id = v.parent then presentedIn w v.parent older app
            else (.ok (Application.rootValue app), app)
          match base with
          | (.error halt, app') => (.error halt, app')
          | (.ok b, app') =>
            match readPath b path.segments app' with
            | (.ok found, app'') => (.ok (w.present v.wrapper? found v.properties), app'')
            | (.error halt, app'') => (.error halt, app'')
    else presentedIn w id older app

/-- The presented value of a variable. -/
def presentedValue (w : WrapperRegistry) (id : VarId) : TurnM σ Json := fun t ↦
  match presentedIn w id t.session.store.entries t.app with
  | (.ok v, app) => .ok v { t with app := app }
  | (.error halt, app) => .error halt { t with app := app }

/-- The presented value of a parent, or the root of the application if there is no such variable. -/
def parentValue (w : WrapperRegistry) (parent : VarId) : TurnM σ Json := do
  if (← store).contains parent then presentedValue w parent
  else return Application.rootValue (← get).app

/-- Presents a variable; one with a path keeps the value it presents. -/
def present (w : WrapperRegistry) (id : VarId) : TurnM σ Json := do
  let presented ← presentedValue w id
  modifyStore fun s ↦ s.modify id fun v ↦
    if v.path?.isSome then { v with value := presented } else v
  return presented

/-! ## Writing -/

/-- Writes a value where the path of a variable leads: in the application if the parent presents an
object, else in the value of the parent, which must have no path itself. -/
def writeThrough (w : WrapperRegistry) (id : VarId) (value : Json) : TurnM σ Unit := do
  match (← store).get? id with
  | none => refuse (.unknownVariable id)
  | some v =>
    match v.path? with
    | none => return
    | some raw =>
      match Path.parse raw with
      | .error e => refuse (.badRequest id e.message)
      | .ok path =>
        let base ← parentValue w v.parent
        match ObjectRef.ofJson? base with
        | some r =>
          match ← ask fun app ↦ Application.write app r path.segments value with
          | .ok () => return
          | .error reason => refuse (.pathFailure id reason)
        | none =>
          match (← store).get? v.parent with
          | some parent =>
            if parent.path?.isSome then
              refuse (.pathFailure id ("parent of '" ++ raw ++ "' is not writable"))
            else
              match Document.assign parent.value path.segments value with
              | .ok value' =>
                modifyStore fun s ↦ s.modify v.parent fun u ↦ { u with value := value' }
              | .error e => refuse (.pathFailure id e.message)
          | none => refuse (.pathFailure id ("parent of '" ++ raw ++ "' is not writable"))

end ReactiveVars
