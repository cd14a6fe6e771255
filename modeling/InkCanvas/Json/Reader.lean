import InkCanvas.Json.Value

/-! # Reading records out of JSON

A record is stored as an object, whose members may be in any order and among others that mean
nothing, or as an array of its fields in their order. A choice between several kinds of record is
stored with a tag: a member of the object, or the first item of the array. Such a record is read as
a whole before its tag is known, so here everything has to be legible, even what means nothing. -/

namespace InkCanvas.Json

/-- How deep arrays and objects may be nested where everything has to be legible. -/
def nestingLimit : Nat := 127

/-- The numeral is a count of 64 bits or a double. -/
def Numeral.isLegible (n : Numeral) : Bool :=
  n.toNat?.any (· < UInt64.size) || n.toFloat?.isSome

namespace Value

mutual

/-- Every string has a value, every numeral is legible, and no more than `room` arrays and objects
are nested. -/
def isLegible : Nat → Value → Bool
  | _, .null => true
  | _, .bool _ => true
  | _, .num n => n.isLegible
  | _, .str s => s.isSome
  | 0, .array _ => false
  | room + 1, .array items => areLegible room items
  | 0, .object _ => false
  | room + 1, .object members => areLegibleMembers room members

/-- Every item is legible. -/
def areLegible (room : Nat) : List Value → Bool
  | [] => true
  | v :: rest => v.isLegible room && areLegible room rest

/-- Every member is legible. -/
def areLegibleMembers (room : Nat) : List (Option String × Value) → Bool
  | [] => true
  | (name, v) :: rest => name.isSome && v.isLegible room && areLegibleMembers room rest

end

/-- The double that a value spells. -/
def toFloat? : Value → Option Float
  | .num n => n.toFloat?
  | _ => none

/-- The count below `bound` that a value spells. -/
def toNatBelow? (bound : Nat) : Value → Option Nat
  | .num n => n.toNat?.filter (· < bound)
  | _ => none

/-- The eight-bit count that a value spells. -/
def toUInt8? (v : Value) : Option UInt8 := (v.toNatBelow? UInt8.size).map Nat.toUInt8

/-- The 32-bit count that a value spells. -/
def toUInt32? (v : Value) : Option UInt32 := (v.toNatBelow? UInt32.size).map Nat.toUInt32

/-- The 64-bit count that a value spells. -/
def toUInt64? (v : Value) : Option UInt64 := (v.toNatBelow? UInt64.size).map Nat.toUInt64

/-- The text that a value spells. -/
def toString? : Value → Option String
  | .str s => s
  | _ => none

/-- The items of an array. -/
def toList? : Value → Option (List Value)
  | .array items => some items
  | _ => none

/-- The members of an object, if all their names have a value. -/
def namedMembers? (members : List (Option String × Value)) : Option (List (String × Value)) :=
  members.mapM fun (name, v) => name.map (·, v)

end Value

/-- Where a record stands: by itself, or behind a tag. -/
inductive Setting where
  /-- By itself. -/
  | plain
  /-- Behind a tag. -/
  | tagged
  deriving DecidableEq

/-- The name of a constant: a string, or an object whose only member has that name and holds
nothing. -/
def nameOf? (setting : Setting) : Value → Option String
  | .str name => name
  | .object [(name, .null)] => name
  | .object [(name, .object [])] => if setting = .tagged then name else none
  | _ => none

/-- The constant whose name is stored, out of a table of names. -/
def constant? {α : Type} (table : List (String × α)) (setting : Setting) (v : Value) : Option α :=
  (nameOf? setting v).bind fun name => table.lookup name

/-- The stored fields of a record, by their names. -/
abbrev Fields := List (String × Value)

namespace Fields

/-- The members that have one of the given names, if none of them is repeated. -/
def ofMembers? (names : List String) (members : List (String × Value)) : Option Fields :=
  let known := members.filter fun m => names.contains m.1
  if (known.map Prod.fst).Nodup then some known else none

/-- The items as the fields with the given names, if they are not too many. -/
def ofItems? (names : List String) (items : List Value) : Option Fields :=
  if items.length ≤ names.length then some (names.zip items) else none

/-- The fields of a record, which has the given names for them. -/
def ofValue? (names : List String) : Value → Option Fields
  | .object members => (Value.namedMembers? members).bind (ofMembers? names)
  | .array items => ofItems? names items
  | _ => none

variable {α : Type}

/-- A field that has to be there. -/
def get? (fields : Fields) (name : String) (read? : Value → Option α) : Option α :=
  (fields.lookup name).bind read?

/-- A field that is `default` if it is not there. -/
def getD? (fields : Fields) (name : String) (default : α) (read? : Value → Option α) :
    Option α :=
  match fields.lookup name with
  | none => some default
  | some v => read? v

/-- A field that may be missing or `null`. -/
def getOption? (fields : Fields) (name : String) (read? : Value → Option α) :
    Option (Option α) :=
  match fields.lookup name with
  | none | some .null => some none
  | some v => (read? v).map some

end Fields

/-- A record behind its tag. -/
inductive Tagged where
  /-- The other members of the object. -/
  | named (tag : String) (rest : List (String × Value))
  /-- The other items of the array. -/
  | listed (tag : String) (rest : List Value)

namespace Tagged

/-- The record whose tag is the member called `key`, or the first item, where `room` arrays and
objects may be nested. -/
def ofValue? (key : String) (room : Nat) : Value → Option Tagged
  | .object members => do
    let members ← Value.namedMembers? members
    match members.filter (·.1 == key) with
    | [(_, v)] =>
      let rest := members.filter (·.1 != key)
      guard (rest.all fun m => m.2.isLegible (room - 1))
      return .named (← v.toString?) rest
    | _ => none
  | .array (v :: rest) => do
    guard (rest.all (·.isLegible (room - 1)))
    return .listed (← v.toString?) rest
  | _ => none

/-- The tag. -/
def tag : Tagged → String
  | .named tag _ => tag
  | .listed tag _ => tag

/-- The fields of the record, which has the given names for them. -/
def fields? (names : List String) : Tagged → Option Fields
  | .named _ rest => Fields.ofMembers? names rest
  | .listed _ rest => Fields.ofItems? names rest

end Tagged

end InkCanvas.Json
