import InkCanvas.Json.Numeral
import InkCanvas.Json.Text

/-! # Tokens of JSON -/

namespace InkCanvas.Json

/-- The smallest meaningful pieces of a JSON text. -/
inductive Token where
  | openObject
  | closeObject
  | openArray
  | closeArray
  | colon
  | comma
  | null
  /-- `true` or `false`. -/
  | bool (b : Bool)
  | num (n : Numeral)
  /-- A string; it has no value if half of a surrogate pair stands alone in it. -/
  | str (s : Option String)
  deriving DecidableEq

namespace Token

/-- The four characters that may stand between tokens. -/
def isBlank (c : Char) : Bool := c == ' ' || c == '\n' || c == '\r' || c == '\t'

/-- A character that a literal or a numeral may contain. -/
def isWordChar (c : Char) : Bool :=
  c.isAlphanum || c == '+' || c == '-' || c == '.'

/-- The token that a word stands for. -/
def ofWord? (cs : List Char) : Option Token :=
  if cs = ['n', 'u', 'l', 'l'] then some .null
  else if cs = ['t', 'r', 'u', 'e'] then some (.bool true)
  else if cs = ['f', 'a', 'l', 's', 'e'] then some (.bool false)
  else (Numeral.ofChars? cs).map .num

/-- The token that a single character makes. -/
def ofMark? : Char → Option Token
  | '{' => some .openObject
  | '}' => some .closeObject
  | '[' => some .openArray
  | ']' => some .closeArray
  | ':' => some .colon
  | ',' => some .comma
  | _ => none

/-- The tokens of a text. A word ends only where no further character can belong to it. -/
def scan? (cs : List Char) : Option (List Token) :=
  match cs with
  | [] => some []
  | c :: rest =>
    if isBlank c then scan? rest
    else if c = '"' then
      match h : Text.pieces? rest with
      | none => none
      | some (ps, rest) =>
        have := Text.length_of_pieces? h
        (scan? rest).map (.str ((Text.chars? ps).map String.ofList) :: ·)
    else if isWordChar c then do
      let token ← ofWord? (c :: rest.takeWhile isWordChar)
      have := (List.dropWhile_suffix isWordChar (l := rest)).length_le
      (scan? (rest.dropWhile isWordChar)).map (token :: ·)
    else do
      let token ← ofMark? c
      (scan? rest).map (token :: ·)
termination_by cs.length
decreasing_by all_goals (simp only [List.length_cons]; omega)

end Token

end InkCanvas.Json
