import ReactiveVars.Variable.Basic

/-!
# Errors about variables

Why a request about a variable is refused. Each error names a variable, has a code, and is reported
to whoever made the request as an error message.
-/

namespace ReactiveVars

/-- Why a request is refused. -/
inductive SyncError where
  | unknownVariable (id : VarId)
  | unknownParent (id parent : VarId)
  | duplicateId (id : VarId)
  /-- No object of the type can be created. -/
  | invalidType (id : VarId) (typeName : String)
  /-- The path cannot be followed or written. -/
  | pathFailure (id : VarId) (reason : String)
  | badRequest (id : VarId) (reason : String)
  /-- The application is gone. -/
  | executorClosed
deriving DecidableEq

namespace SyncError

/-- The variable that the error is about, zero when there is none. -/
def id : SyncError → VarId
  | unknownVariable id | unknownParent id _ | duplicateId id | invalidType id _ | pathFailure id _
  | badRequest id _ => id
  | executorClosed => 0

/-- The code of the error. -/
def code : SyncError → String
  | unknownVariable _ => "not-found"
  | unknownParent .. => "unknown-parent"
  | duplicateId _ => "duplicate-id"
  | invalidType .. => "invalid-type"
  | pathFailure .. => "path-failure"
  | badRequest .. => "bad-request"
  | executorClosed => "closed"

/-- The wording of the error. -/
def text : SyncError → String
  | unknownVariable id => "variable " ++ Int.repr id ++ " not found"
  | unknownParent id parent =>
    "variable " ++ Int.repr id ++ ": parent " ++ Int.repr parent ++ " not found"
  | duplicateId id => "variable " ++ Int.repr id ++ " already exists"
  | invalidType id typeName =>
    "variable " ++ Int.repr id ++ ": cannot instantiate type '" ++ typeName ++ "'"
  | pathFailure id reason | badRequest id reason => "variable " ++ Int.repr id ++ ": " ++ reason
  | executorClosed => "session executor closed"

/-- The error as a message. -/
def message (e : SyncError) : Message := .error e.id (some e.code) e.text

end SyncError

end ReactiveVars
