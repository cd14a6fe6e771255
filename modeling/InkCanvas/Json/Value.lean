import InkCanvas.Json.Token

/-! # Values of JSON

`Value.ofTokens?` assembles tokens with a stack of the arrays and objects that are still open, one
token at a time, so a text may be nested to any depth. -/

namespace InkCanvas.Json

/-- A JSON value. Numbers are kept as they are spelled, members in the order they are written, and
a string, or the name of a member, may have no value. -/
inductive Value where
  | null
  /-- `true` or `false`. -/
  | bool (b : Bool)
  | num (n : Numeral)
  | str (s : Option String)
  /-- A list of values. -/
  | array (items : List Value)
  /-- A list of named values. -/
  | object (members : List (Option String × Value))

namespace Value

/-- An array or an object that is still open, with what it holds so far, last first. -/
inductive Frame where
  /-- An array. -/
  | items (before : List Value)
  /-- An object, and the name of the value that comes next. -/
  | members (before : List (Option String × Value)) (name : Option String)

/-- What has to come next. -/
inductive Expectation where
  | value
  /-- The first item of an array, or its end. -/
  | firstItem
  /-- The name of a member behind others, or, if there are none yet, the end of the object. -/
  | name (before : List (Option String × Value))
  /-- The colon behind a name. -/
  | colon (before : List (Option String × Value)) (name : Option String)
  /-- What stands behind a finished value. -/
  | after (v : Value)

/-- What has to come next, and what is still open, innermost first. -/
abbrev Progress := Expectation × List Frame

/-- The progress when a token begins a value. -/
def begin? (stack : List Frame) : Token → Option Progress
  | .null => some (.after .null, stack)
  | .bool b => some (.after (.bool b), stack)
  | .num n => some (.after (.num n), stack)
  | .str s => some (.after (.str s), stack)
  | .openArray => some (.firstItem, stack)
  | .openObject => some (.name [], stack)
  | _ => none

/-- The progress after one token more. -/
def step? : Progress → Token → Option Progress
  | (.value, stack), t => begin? stack t
  | (.firstItem, stack), .closeArray => some (.after (.array []), stack)
  | (.firstItem, stack), t => begin? (.items [] :: stack) t
  | (.name before, stack), .str name => some (.colon before name, stack)
  | (.name [], stack), .closeObject => some (.after (.object []), stack)
  | (.colon before name, stack), .colon => some (.value, .members before name :: stack)
  | (.after v, .items before :: stack), .comma => some (.value, .items (v :: before) :: stack)
  | (.after v, .items before :: stack), .closeArray =>
    some (.after (.array (v :: before).reverse), stack)
  | (.after v, .members before name :: stack), .comma =>
    some (.name ((name, v) :: before), stack)
  | (.after v, .members before name :: stack), .closeObject =>
    some (.after (.object ((name, v) :: before).reverse), stack)
  | _, _ => none

/-- The value that a list of tokens spells in full. -/
def ofTokens? (ts : List Token) : Option Value :=
  match ts.foldlM step? (.value, []) with
  | some (.after v, []) => some v
  | _ => none

/-- The value that a text spells in full. -/
def ofText? (s : String) : Option Value := (Token.scan? s.toList).bind ofTokens?

end Value

end InkCanvas.Json
