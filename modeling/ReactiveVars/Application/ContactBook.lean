import ReactiveVars.Application.Methods

/-!
# A contact book

A small application to try things out with: a person with a spouse and contacts, a counter and a
selection. Its methods give up on a receiver that has no fields to set.
-/

namespace ReactiveVars.ContactBook

/-- A contact. -/
def contact (name email : String) : Json :=
  .object [("email", .string email), ("name", .string name)]

/-- The contact that properties describe. -/
def contactOf (ps : Properties) : Json :=
  contact ((ps.get? "name").getD "") ((ps.get? "email").getD "")

/-- Counts one further. -/
def increment : Method := fun receiver _ ↦
  let n := Json.int (Method.successor (Method.countOf receiver))
  (Method.setField? receiver "count" n).map fun receiver' ↦ (receiver', n)

/-- Keeps the argument as what is selected. -/
def select : Method := fun receiver arg ↦
  (Method.setField? receiver "selected" arg).map fun receiver' ↦ (receiver', arg)

/-- The person at the root, with a spouse and a list of contacts. -/
def person (spouse : ObjectRef) (contacts : List ObjectRef) : Json :=
  .object [("contacts", .array (contacts.map ObjectRef.json)), ("count", .int 0),
    ("name", .string "Homer"), ("selected", .null), ("spouse", spouse.json)]

/-- The application with its first contacts. -/
def space : ObjectSpace :=
  let (marge, a) := ObjectSpace.empty.insert (contact "Marge" "marge@example.com")
  let (bart, a) := a.insert (contact "Bart" "bart@example.com")
  let (_, a) := a.setRoot (person marge [marge, bart])
  ((a.registerType "Contact" contactOf).registerMethod "increment" increment).registerMethod
    "select" select

end ReactiveVars.ContactBook
