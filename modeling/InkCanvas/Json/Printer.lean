import InkCanvas.Json.Value

/-! # Writing JSON

`Value.compact` writes a value without blanks and `Value.pretty` over several lines, two blanks to
a level. -/

namespace InkCanvas.Json

/-- The text of a token. A string without a value is written as the empty one. -/
def Token.text : Token → String
  | .openObject => "\x7b"
  | .closeObject => "\x7d"
  | .openArray => "["
  | .closeArray => "]"
  | .colon => ":"
  | .comma => ","
  | .null => "null"
  | .bool b => if b then "true" else "false"
  | .num n => n.text
  | .str s => Text.quoted (s.getD "")

namespace Value

mutual

/-- The tokens of a value. -/
def tokens : Value → List Token
  | .null => [.null]
  | .bool b => [.bool b]
  | .num n => [.num n]
  | .str s => [.str s]
  | .array items => .openArray :: (itemTokens items ++ [.closeArray])
  | .object members => .openObject :: (memberTokens members ++ [.closeObject])

/-- The tokens between the brackets of an array. -/
def itemTokens : List Value → List Token
  | [] => []
  | [v] => v.tokens
  | v :: rest => v.tokens ++ .comma :: itemTokens rest

/-- The tokens between the braces of an object. -/
def memberTokens : List (Option String × Value) → List Token
  | [] => []
  | [(name, v)] => .str name :: .colon :: v.tokens
  | (name, v) :: rest => .str name :: .colon :: (v.tokens ++ .comma :: memberTokens rest)

end

/-- The text of a value, without blanks. -/
def compact (v : Value) : String := String.join (v.tokens.map Token.text)

/-- A new line at a level. -/
def newLine (level : Nat) : String := "\n" ++ String.ofList (List.replicate (2 * level) ' ')

mutual

/-- The text of a value over several lines, the first of which stands at a level. -/
def prettyAt (level : Nat) : Value → String
  | .array [] => "[]"
  | .array items => "[" ++ prettyItems (level + 1) items ++ newLine level ++ "]"
  | .object [] => "\x7b\x7d"
  | .object members => "\x7b" ++ prettyMembers (level + 1) members ++ newLine level ++ "\x7d"
  | v => v.compact

/-- The items of an array, each on a line of its own. -/
def prettyItems (level : Nat) : List Value → String
  | [] => ""
  | [v] => newLine level ++ v.prettyAt level
  | v :: rest => newLine level ++ v.prettyAt level ++ "," ++ prettyItems level rest

/-- The members of an object, each on a line of its own. -/
def prettyMembers (level : Nat) : List (Option String × Value) → String
  | [] => ""
  | [(name, v)] => newLine level ++ (Token.str name).text ++ ": " ++ v.prettyAt level
  | (name, v) :: rest =>
    newLine level ++ (Token.str name).text ++ ": " ++ v.prettyAt level ++ ","
      ++ prettyMembers level rest

end

/-- The text of a value over several lines. -/
def pretty (v : Value) : String := v.prettyAt 0

/-! ## Values to write -/

/-- A double; what is no number is written as `null`. -/
def ofFloat (x : Float) : Value := if x.isFinite then .num (.ofFloat x) else .null

/-- A count. -/
def ofNat (n : Nat) : Value := .num (.ofNat n)

/-- A text. -/
def ofString (s : String) : Value := .str (some s)

/-- A record of named values. -/
def ofFields (fields : List (String × Value)) : Value :=
  .object (fields.map fun (name, v) => (some name, v))

end Value

end InkCanvas.Json
