import ReactiveVars.Json.Token

/-!
# Reading JSON texts

The tokens of a text are taken one by one, with a stack of the arrays and objects that are still
open. At each token the reader is at a place that says what may come, so the first problem met
decides what is reported. A name that occurs twice in an object keeps its last value.
-/

namespace ReactiveVars.Json

/-- An array or object that is still open: the items so far, latest first, or the fields so far and
the name whose value is being read. -/
inductive Frame where
  | items (done : List Json)
  | fields (done : List (String × Json)) (name : String)

/-- What may come next. -/
inductive Place where
  /-- A value. -/
  | value
  /-- The first item of an array, or its end. -/
  | item
  /-- The name of a field, or the end of the object if no comma has been read. -/
  | name (fields : List (String × Json)) (mayEnd : Bool)
  /-- The colon after a name. -/
  | colon (fields : List (String × Json)) (name : String)
  /-- What follows a value that is complete. -/
  | after (v : Json)

/-- The greatest number of arrays and objects that may be open at once. -/
def maxDepth : Nat := 127

/-- The place and the stack after the first token of a value. -/
def startValue (stack : List Frame) : Token → Except Fault (Place × List Frame)
  | .beginArray => if stack.length < maxDepth then .ok (.item, stack) else .error .malformed
  | .beginObject =>
    if stack.length < maxDepth then .ok (.name [] true, stack) else .error .malformed
  | .constant v => .ok (.after v, stack)
  | .number literal =>
    match literal.value? with
    | some (.int n) => .ok (.after (int n), stack)
    | some (.double d) => .ok (.after (double d), stack)
    | none => .error .malformed
  | .string (some s) => .ok (.after (string s), stack)
  | .brokenString fault _ => .error fault
  | .brokenValue fault _ => .error fault
  | _ => .error .malformed

/-- The place and the stack after the first token behind a complete value. -/
def endValue (v : Json) : List Frame → Token → Except Fault (Place × List Frame)
  | .items done :: stack, .comma => .ok (.value, .items (v :: done) :: stack)
  | .items done :: stack, .endArray => .ok (.after (array (v :: done).reverse), stack)
  | .fields done name :: stack, .comma => .ok (.name (Entries.insert name v done) false, stack)
  | .fields done name :: stack, .endObject =>
    .ok (.after (object (Entries.insert name v done)), stack)
  | _, _ => .error .malformed

/-- The place and the stack after one token. -/
def advance (stack : List Frame) : Place → Token → Except Fault (Place × List Frame)
  | .value, token => startValue stack token
  | .item, .endArray => .ok (.after (array []), stack)
  | .item, token => startValue (.items [] :: stack) token
  | .name fields true, .endObject => .ok (.after (object fields), stack)
  | .name fields _, .string (some name) => .ok (.colon fields name, stack)
  | .name _ _, .brokenString fault _ => .error fault
  | .name _ _, _ => .error .malformed
  | .colon fields name, .colon => .ok (.value, .fields fields name :: stack)
  | .colon _ _, _ => .error .malformed
  | .after v, token => endValue v stack token

/-- Reads the rest of a text from its tokens. -/
def readFrom (place : Place) (stack : List Frame) : List Token → Except Fault Json
  | [] =>
    match place, stack with
    | .after v, [] => .ok v
    | _, _ => .error .truncated
  | token :: rest =>
    match advance stack place token with
    | .ok (place', stack') => readFrom place' stack' rest
    | .error fault => .error fault

/-- Reads a JSON text that holds one value. -/
def read (bytes : List UInt8) : Except Fault Json := readFrom .value [] (tokens bytes)

end ReactiveVars.Json
