import ReactiveVars.Json.Token
import ReactiveVars.Settings.Basic

/-!
# Settings in a JSON text

Settings are also written as an object of their fields, or as an array of them in order; fields may
be missing at the end of the array, and anywhere in the object. A field of another name is skipped.

The text is matched while it is read, so the first problem met is what is reported: a value that
does not fit, and a field that is given twice, come before anything that is wrong behind them.
-/

namespace ReactiveVars.Settings

open Json (Fault Token)

/-! ## Skipping a value -/

/-- What may come next while a value is skipped. -/
inductive SkipPlace where
  | value
  | item
  | name (mayEnd : Bool)
  | colon
  | after

/-- A container that is still open while a value is skipped. -/
inductive Container where
  | array
  | object
deriving DecidableEq

/-- The place and the open containers after the first token of a value. -/
def skipValue (stack : List Container) : Token → Except Fault (SkipPlace × List Container)
  | .beginArray => .ok (.item, .array :: stack)
  | .beginObject => .ok (.name true, .object :: stack)
  | .constant _ | .number _ | .string _ => .ok (.after, stack)
  | .brokenString _ fault | .brokenValue _ fault => .error fault
  | _ => .error .malformed

/-- The place and the open containers after one token. -/
def skipToken (stack : List Container) :
    SkipPlace → Token → Except Fault (SkipPlace × List Container)
  | .value, token => skipValue stack token
  | .item, .endArray => .ok (.after, stack.tail)
  | .item, token => skipValue stack token
  | .name true, .endObject => .ok (.after, stack.tail)
  | .name _, .string _ => .ok (.colon, stack)
  | .name _, .brokenString _ fault => .error fault
  | .name _, _ => .error .malformed
  | .colon, .colon => .ok (.value, stack)
  | .colon, _ => .error .malformed
  | .after, .comma =>
    match stack with
    | .array :: _ => .ok (.value, stack)
    | .object :: _ => .ok (.name false, stack)
    | [] => .error .malformed
  | .after, .endArray =>
    if stack.head? = some .array then .ok (.after, stack.tail) else .error .malformed
  | .after, .endObject =>
    if stack.head? = some .object then .ok (.after, stack.tail) else .error .malformed
  | .after, _ => .error .malformed

/-- Skips the rest of a value; returns the tokens behind it. -/
def skipFrom (place : SkipPlace) (stack : List Container) : List Token → Except Fault (List Token)
  | [] =>
    match place, stack with
    | .after, [] => .ok []
    | _, _ => .error .truncated
  | token :: rest =>
    match place, stack with
    | .after, [] => .ok (token :: rest)
    | place, stack =>
      match skipToken stack place token with
      | .ok (place', stack') => skipFrom place' stack' rest
      | .error fault => .error fault

/-! ## Values that fit -/

/-- What is wrong with a token that starts a value of another kind than the wanted one. -/
def misfit : Token → Fault
  | .constant _ | .string (some _) | .beginArray | .beginObject => .unfit
  | .number literal => if literal.value?.isSome then .unfit else .malformed
  | .brokenString fault _ | .brokenValue fault _ => fault
  | _ => .malformed

/-- Reads an unsigned number. -/
def takeNumber : List Token → Except Fault (Nat × List Token)
  | [] => .error .truncated
  | .number literal :: rest =>
    match literal.value? with
    | some (.int n) => if 0 ≤ n then .ok (n.toNat, rest) else .error .unfit
    | _ => .error (misfit (.number literal))
  | token :: _ => .error (misfit token)

/-- Reads a text. -/
def takeText : List Token → Except Fault (String × List Token)
  | [] => .error .truncated
  | .string (some s) :: rest => .ok (s, rest)
  | token :: _ => .error (misfit token)

/-! ## Fields -/

/-- The fields of the settings, in order. -/
inductive Field where
  | debounce
  | clientDebounce
  | maxFrame
  | session
deriving DecidableEq

/-- The fields in the order that an array of them has. -/
def Field.all : List Field := [debounce, clientDebounce, maxFrame, session]

/-- The field with a name. -/
def Field.ofName? : String → Option Field
  | "debounce_ms" => some debounce
  | "client_debounce_ms" => some clientDebounce
  | "max_frame" => some maxFrame
  | "session" => some session
  | _ => none

/-- Reads the value of a field. -/
def takeField (s : Settings) (field : Field) (tokens : List Token) :
    Except Fault (Settings × List Token) :=
  match field with
  | .debounce => (takeNumber tokens).map fun (n, rest) ↦ ({ s with debounce := n }, rest)
  | .clientDebounce =>
    (takeNumber tokens).map fun (n, rest) ↦ ({ s with clientDebounce := n }, rest)
  | .maxFrame => (takeNumber tokens).map fun (n, rest) ↦ ({ s with maxFrame := n }, rest)
  | .session => (takeText tokens).map fun (t, rest) ↦ ({ s with session := t }, rest)

/-- Reads what must come behind the last field. -/
def takeEnd (s : Settings) : List Token → Except Fault Settings
  | [] => .ok s
  | _ => .error .malformed

/-- Reads the items of an array, which are the given fields; `first` tells whether none has been
read. -/
def takeItems (s : Settings) (first : Bool) : List Field → List Token → Except Fault Settings
  | _, [] => .error .truncated
  | _, .endArray :: rest => takeEnd s rest
  | [], _ => .error .malformed
  | field :: fields, token :: rest =>
    if first then
      match takeField s field (token :: rest) with
      | .ok (s', rest') => takeItems s' false fields rest'
      | .error fault => .error fault
    else
      match token, rest with
      | .comma, .endArray :: _ => .error .malformed
      | .comma, rest =>
        match takeField s field rest with
        | .ok (s', rest') => takeItems s' false fields rest'
        | .error fault => .error fault
      | _, _ => .error .malformed

/-- Reads the colon behind a name. -/
def takeColon : List Token → Except Fault (List Token)
  | [] => .error .truncated
  | .colon :: rest => .ok rest
  | _ => .error .malformed

/-- The text of a name, and what is behind it. -/
def takeName : List Token → Except Fault (String × List Token)
  | [] => .error .truncated
  | .string (some name) :: rest => .ok (name, rest)
  | .brokenString fault _ :: _ => .error fault
  | _ => .error .malformed

/-- Reads one field with its name; `seen` holds the fields that have been given. -/
def takeNamed (s : Settings) (seen : List Field) (tokens : List Token) :
    Except Fault (Settings × List Field × List Token) := do
  let (name, rest) ← takeName tokens
  match Field.ofName? name with
  | none =>
    let rest ← skipFrom .value [] (← takeColon rest)
    return (s, seen, rest)
  | some field =>
    if field ∈ seen then throw .unfit
    let (s, rest) ← takeField s field (← takeColon rest)
    return (s, field :: seen, rest)

/-- Reads the fields of an object; `first` tells whether none has been read. At most `fuel` fields
are read. -/
def takeNameds : Nat → Settings → List Field → Bool → List Token → Except Fault Settings
  | 0, _, _, _, _ => .error .malformed
  | _, _, _, _, [] => .error .truncated
  | _, s, _, _, .endObject :: rest => takeEnd s rest
  | fuel + 1, s, seen, true, tokens =>
    match takeNamed s seen tokens with
    | .ok (s', seen', rest) => takeNameds fuel s' seen' false rest
    | .error fault => .error fault
  | fuel + 1, s, seen, false, .comma :: tokens =>
    match takeNamed s seen tokens with
    | .ok (s', seen', rest) => takeNameds fuel s' seen' false rest
    | .error fault => .error fault
  | _, _, _, false, _ => .error .malformed

/-- The settings that tokens write. Each field takes a token, so there are no more fields than
tokens. -/
def ofTokens : List Token → Except Fault Settings
  | [] => .error .truncated
  | .beginArray :: rest => takeItems usual true Field.all rest
  | .beginObject :: rest => takeNameds (rest.length + 1) usual [] true rest
  | token :: _ => .error (misfit token)

/-- The settings that a JSON text writes. -/
def ofText (text : String) : Except Fault Settings := ofTokens (Json.tokens (Utf8.ofString text))

end ReactiveVars.Settings
