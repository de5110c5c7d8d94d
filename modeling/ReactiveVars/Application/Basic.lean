import ReactiveVars.Path.Segment
import ReactiveVars.Variable.Basic

/-!
# Applications

The data behind the variables belongs to an application, which is only known by what it can do: name
its root, create objects, and read or write along a path from an object. Reading and writing may
call methods, so each of them may change the application, and a method may crash it.
-/

namespace ReactiveVars

/-- What comes of a request to the application. -/
inductive Reply (α : Type) where
  | ok (a : α)
  | failed (reason : String)
  /-- A method gave up; the application is beyond use. -/
  | crashed
deriving DecidableEq

/-- What an application can do. -/
class Application (σ : Type) where
  /-- The object at the root, if there is one. -/
  root : σ → Option ObjectRef
  /-- Creates an object of a named type, shaped by properties. -/
  instantiate : σ → String → Properties → Reply ObjectRef × σ
  /-- Reads along a path from an object. -/
  resolve : σ → ObjectRef → List Segment → Reply Json × σ
  /-- Writes at the end of a path from an object. -/
  write : σ → ObjectRef → List Segment → Json → Reply Unit × σ

/-- The root of an application as a value, null if there is none. -/
def Application.rootValue {σ : Type} [Application σ] (app : σ) : Json :=
  ((Application.root app).map ObjectRef.json).getD .null

end ReactiveVars
