/-! # The command line

The command takes options only, each with one value, as `--name value` or as `--name=value`, in
any order and each at most once. `Invocation.ofArgs` reads them from left to right.

An option waits for its value. A value is looked at only when the next known option comes or the
arguments end, so an unknown argument behind it is reported first. -/

namespace InkCanvas

/-- Why the arguments make no invocation. -/
inductive UsageError where
  /-- The script or the output is not named. -/
  | missingRequiredArgument
  /-- There is no such option, or a value belongs to none. -/
  | unknownArgument
  /-- An option has no value, or an empty path. -/
  | invalidValue
  /-- A size is no 32-bit count. -/
  | valueValidation
  /-- An option is given twice. -/
  | argumentConflict
  /-- An option that takes no value has one. -/
  | tooManyValues
  /-- The help is asked for. -/
  | displayHelp
  /-- The version is asked for. -/
  | displayVersion
  deriving DecidableEq

/-- The options that take a value. -/
inductive Opt where
  /-- The recorded session. -/
  | script
  /-- The configuration. -/
  | config
  /-- The picture. -/
  | out
  /-- The width of the picture. -/
  | width
  /-- The height of the picture. -/
  | height
  /-- The request for a recognizer. -/
  | payload
  deriving DecidableEq

/-- The option with a name. -/
def Opt.ofName? (name : String) : Option Opt :=
  [("script", Opt.script), ("config", .config), ("out", .out), ("width", .width),
    ("height", .height), ("payload", .payload)].lookup name

/-- The values of the options so far. -/
structure Given where
  script : Option String := none
  config : Option String := none
  out : Option String := none
  width : Option UInt32 := none
  height : Option UInt32 := none
  payload : Option String := none
  deriving DecidableEq

/-- A text behind its sign, if it has one, and whether the sign is a minus. -/
def splitSign : List Char → Bool × List Char
  | '+' :: cs => (false, cs)
  | '-' :: cs => (true, cs)
  | cs => (false, cs)

/-- The count that a text spells: digits, perhaps behind a sign, below `2 ^ 32`. Zero is the only
count behind a minus. -/
def uint32OfText? (s : String) : Option UInt32 :=
  let (negative, digits) := splitSign s.toList
  if digits.isEmpty || !digits.all Char.isDigit then none
  else
    let n : Nat := digits.foldl (fun n c => n * 10 + (c.toNat - '0'.toNat)) 0
    if n < (if negative then 1 else UInt32.size) then some n.toUInt32 else none

namespace Given

/-- A path for an option that has none yet. -/
def path (before : Option String) (value : String) : Except UsageError (Option String) :=
  if before.isSome then .error .argumentConflict
  else if value.isEmpty then .error .invalidValue
  else .ok (some value)

/-- A size for an option that has none yet. -/
def size (before : Option UInt32) (value : String) : Except UsageError (Option UInt32) :=
  if before.isSome then .error .argumentConflict
  else match uint32OfText? value with
    | none => .error .valueValidation
    | some n => .ok (some n)

/-- The value of an option is looked at. -/
def settle (g : Given) (o : Opt) (value : String) : Except UsageError Given :=
  match o with
  | .script => do return { g with script := ← path g.script value }
  | .config => do return { g with config := ← path g.config value }
  | .out => do return { g with out := ← path g.out value }
  | .width => do return { g with width := ← size g.width value }
  | .height => do return { g with height := ← size g.height value }
  | .payload => do return { g with payload := ← path g.payload value }

/-- The option that waits, with its value if that came already, is looked at. -/
def resolve (g : Given) : Option (Opt × Option String) → Except UsageError Given
  | none => .ok g
  | some (_, none) => .error .invalidValue
  | some (o, some value) => g.settle o value

/-- The name and the value of an argument behind its two dashes. -/
def splitLong (cs : List Char) : String × Option String :=
  (String.ofList (cs.takeWhile (· != '=')),
    match cs.dropWhile (· != '=') with
    | [] => none
    | _ :: value => some (String.ofList value))

/-- The values of the options after the arguments. -/
def ofArgs (g : Given) (waiting : Option (Opt × Option String)) :
    List String → Except UsageError Given
  | [] => g.resolve waiting
  | arg :: rest =>
    match arg.toList with
    | ['-', '-'] => if rest.isEmpty then g.resolve waiting else .error .unknownArgument
    | '-' :: '-' :: cs =>
      match splitLong cs with
      | ("help", value) => do
        if value.isSome then throw .tooManyValues
        let _ ← g.resolve waiting
        throw .displayHelp
      | ("version", value) => do
        if value.isSome then throw .tooManyValues
        let _ ← g.resolve waiting
        throw .displayVersion
      | (name, value) =>
        match Opt.ofName? name, value with
        | none, _ => .error .unknownArgument
        | some o, some value => do ((← (← g.resolve waiting).settle o value)).ofArgs none rest
        | some o, none => do (← g.resolve waiting).ofArgs (some (o, none)) rest
    | '-' :: c :: _ => do
      if c != 'h' && c != 'V' then throw .unknownArgument
      let _ ← g.resolve waiting
      throw (if c == 'h' then .displayHelp else .displayVersion)
    | _ =>
      match waiting with
      | some (o, none) => g.ofArgs (some (o, some arg)) rest
      | _ => .error .unknownArgument

end Given

/-- What the command is to do. -/
structure Invocation where
  script : String
  /-- The configuration, if one is named. -/
  config : Option String
  out : String
  width : UInt32
  height : UInt32
  /-- The request for a recognizer, if one is asked for. -/
  payload : Option String
  deriving DecidableEq

/-- The invocation that the arguments make. -/
def Invocation.ofArgs (args : List String) : Except UsageError Invocation := do
  let g ← ({} : Given).ofArgs none args
  match g.script, g.out with
  | some script, some out =>
    return ⟨script, g.config, out, g.width.getD 800, g.height.getD 400, g.payload⟩
  | _, _ => throw .missingRequiredArgument

end InkCanvas
