import ReactiveVars.Order.KeyMap
import ReactiveVars.Path.Segment
import ReactiveVars.Text.FormEncoded

/-!
# Paths

The text of a path names segments, with a dot between two of them and two dots for a step back, and
after the first question mark form-encoded parameters. A parameter with an equals sign is a text,
one without is a flag that is set.
-/

namespace ReactiveVars

/-- Why a text is not a path. -/
inductive PathError where
  /-- An application object is named behind the first segment. -/
  | misplacedStandard (token : String)
  /-- A number that counts no item. -/
  | zeroIndex (token : String)
  /-- A call of something that cannot name a method. -/
  | invalidMethod (token : String)
deriving DecidableEq

/-- The wording of a path error. -/
def PathError.message : PathError → String
  | misplacedStandard token => "standard variable '" ++ token ++ "' may only start a path"
  | zeroIndex token => "invalid index '" ++ token ++ "': indexes are 1-based"
  | invalidMethod token => "invalid method segment '" ++ token ++ "'"

/-- A parameter of a path. -/
inductive Param where
  | set
  | text (s : String)
deriving DecidableEq

/-- The parameter as a property of a variable. -/
def Param.property : Param → String
  | set => "true"
  | text s => s

/-- A path, with the text that it was read from. -/
structure Path where
  raw : String
  segments : List Segment
  params : KeyMap String Param
deriving DecidableEq

namespace Path

/-! ## Segments -/

/-- Whether a character may stand in the name of a method. -/
def isMethodChar (c : Char) : Bool := c.isAlphanum || c == '_'

/-- Whether a name can be the name of a method. -/
def isMethodName : List Char → Bool
  | [] => false
  | c :: cs => !c.isDigit && (c :: cs).all isMethodChar

/-- The number that decimal digits write. -/
def decimalValue (cs : List Char) : Nat := cs.foldl (fun n c ↦ n * 10 + (c.toNat - 0x30)) 0

/-- The greatest number of an item. -/
def maxIndex : Nat := UInt64.size - 1

/-- The name in front of a pair of parentheses at the end of a token. -/
def calledName? (token : List Char) : Option (List Char) :=
  match token.reverse with
  | ')' :: '(' :: name => some name.reverse
  | _ => none

/-- The segment that a token between dots stands for. -/
def classify (token : List Char) (first : Bool) : Except PathError Segment :=
  match token with
  | '@' :: name =>
    if first then .ok (.standard (String.ofList name))
    else .error (.misplacedStandard (String.ofList token))
  | _ =>
    match calledName? token with
    | some name =>
      if isMethodName name then .ok (.method (String.ofList name))
      else .error (.invalidMethod (String.ofList token))
    | none =>
      if token.all Char.isDigit then
        let k := decimalValue token
        if k = 0 ∨ maxIndex < k then .error (.zeroIndex (String.ofList token)) else .ok (.index k)
      else .ok (.property (String.ofList token))

/-- Adds the segment of a token to those found so far, latest first; an empty token is none. -/
def finish (token : List Char) (found : List Segment) : Except PathError (List Segment) :=
  if token.isEmpty then .ok found
  else (classify token.reverse found.isEmpty).map (· :: found)

/-- Reads the segments of a text. `token` holds the characters since the last dot and `found` the
segments so far, both latest first. -/
def readSegments (token : List Char) (found : List Segment) :
    List Char → Except PathError (List Segment)
  | [] => (finish token found).map List.reverse
  | '.' :: '.' :: rest =>
    match finish token found with
    | .ok found' => readSegments [] (.parent :: found') rest
    | .error e => .error e
  | '.' :: rest =>
    match finish token found with
    | .ok found' => readSegments [] found' rest
    | .error e => .error e
  | c :: rest => readSegments (c :: token) found rest

/-! ## Parameters -/

/-- The parts of a text between the separators; `part` holds the current part, latest first. -/
def splitAt (separator : Char) (part : List Char) : List Char → List (List Char)
  | [] => [part.reverse]
  | c :: rest =>
    if c = separator then part.reverse :: splitAt separator [] rest
    else splitAt separator (c :: part) rest

/-- The parameter that a pair stands for. -/
def readParam (pair : List Char) : String × Param :=
  let key := FormEncoded.decode (pair.takeWhile (· != '='))
  match pair.dropWhile (· != '=') with
  | _ :: value => (key, .text (FormEncoded.decode value))
  | [] => (key, .set)

/-- The parameters of a query; of two with one key the later counts. -/
def readParams (query : List Char) : KeyMap String Param :=
  KeyMap.ofList (((splitAt '&' [] query).filter fun pair ↦ !pair.isEmpty).map readParam)

/-! ## Paths -/

/-- The part of a text in front of the first question mark. -/
def baseChars (cs : List Char) : List Char := cs.takeWhile (· != '?')

/-- The part of a text behind the first question mark, empty if there is none. -/
def queryChars (cs : List Char) : List Char := (cs.dropWhile (· != '?')).tail

/-- Reads a path. -/
def parse (raw : String) : Except PathError Path :=
  (readSegments [] [] (baseChars raw.toList)).map fun segments ↦
    ⟨raw, segments, readParams (queryChars raw.toList)⟩

/-- The text of the path without its parameters. -/
def base (p : Path) : String := String.ofList (baseChars p.raw.toList)

/-- The parameter with a key, if it is a text. -/
def paramText? (p : Path) (key : String) : Option String :=
  match p.params.get? key with
  | some (.text s) => some s
  | _ => none

/-- Whether a parameter is switched on: set, or any text but `false`. -/
def flag (p : Path) (key : String) : Bool :=
  match p.params.get? key with
  | some .set => true
  | some (.text s) => s != "false"
  | none => false

/-- The parameters as properties of a variable. -/
def properties (p : Path) : KeyMap String String :=
  p.params.filterMap fun _ param ↦ some param.property

end Path

end ReactiveVars
