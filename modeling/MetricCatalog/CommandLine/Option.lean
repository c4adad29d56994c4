/-!
# Options and operands

How the words of a command line are read.  An option takes its value from its
own word or from the next one; a value in a word of its own is looked at only
when the next option or operand is taken up.
-/

namespace MetricCatalog.CommandLine

/-- Why a command line is refused, or answered without a run. -/
inductive UsageError
  | nothingGiven
  | missingCommand
  | unknownCommand
  | unknownArgument
  | missingOperand
  /-- An option has no value, or an empty one where it must not be. -/
  | missingValue
  | badNumber
  | repeatedOption
  | unexpectedValue
  | helpRequested
  | versionRequested
deriving DecidableEq

inductive ValueKind
  | text
  | path
  | count
deriving DecidableEq

inductive Role
  | flag
  | value (kind : ValueKind)
  /-- May be given many times, each time with values between commas. -/
  | values
  | help
  | version
deriving DecidableEq

structure OptionSpec where
  name : String
  role : Role
  short : Option Char := none
deriving DecidableEq

structure Grammar where
  options : List OptionSpec
  operands : Nat := 0
  commands : List String := []

/-- What has been read of a command line. -/
structure Given where
  options : List (String × List String) := []
  operands : List String := []
  /-- The last option and the value in the word after it. -/
  pending : Option (OptionSpec × Option String) := none
  onlyOperands : Bool := false

/-- A whole number of 64 bits; a plus sign may come first. -/
def count? (text : String) : Option Nat :=
  let digits :=
    match text.toList with
    | '+' :: digits => digits
    | digits => digits
  let n := digits.foldl (fun n d => 10 * n + (d.toNat - '0'.toNat)) 0
  if !digits.isEmpty && digits.all Char.isDigit && n < 1 <<< 64 then some n else none

def ValueKind.check (kind : ValueKind) (value : String) : Except UsageError Unit :=
  match kind with
  | text => .ok ()
  | path => if value = "" then .error .missingValue else .ok ()
  | count => if (count? value).isNone then .error .badNumber else .ok ()

def commaSeparated (text : String) : List String :=
  (text.toList.splitOnP (· = ',')).map String.ofList

namespace Given

def has (g : Given) (name : String) : Bool := (g.options.lookup name).isSome

def values (g : Given) (name : String) : List String := (g.options.lookup name).getD []

def value? (g : Given) (name : String) : Option String := (g.values name).head?

def isAwaitingValue (g : Given) : Bool := g.pending.any (·.2.isNone)

def add (g : Given) (name : String) (values : List String) : Given :=
  { g with options := (name, g.values name ++ values) :: g.options.filter (·.1 ≠ name) }

def accept (g : Given) (o : OptionSpec) (value : Option String) : Except UsageError Given := do
  match o.role, value with
  | .help, _ => throw .helpRequested
  | .version, _ => throw .versionRequested
  | .flag, _ =>
    if g.has o.name then throw .repeatedOption
    return g.add o.name []
  | _, none => throw .missingValue
  | .value kind, some value =>
    if g.has o.name then throw .repeatedOption
    kind.check value
    return g.add o.name [value]
  | .values, some value => return g.add o.name (commaSeparated value)

def resolve (g : Given) : Except UsageError Given := do
  match g.pending with
  | none => return g
  | some (o, value) => accept { g with pending := none } o value

/-- Meets an option, with the value that its own word gives it. -/
def meet (g : Given) (o : OptionSpec) (attached : Option String) : Except UsageError Given := do
  match o.role, attached with
  | .value _, none | .values, none => return { ← g.resolve with pending := some (o, none) }
  | .value _, some _ | .values, some _ => (← g.resolve).accept o attached
  | _, some _ => throw .unexpectedValue
  | _, none => (← g.resolve).accept o none

end Given

namespace Grammar

def long (s : Grammar) (g : Given) (word : List Char) : Except UsageError Given := do
  let name := String.ofList (word.takeWhile (· ≠ '='))
  let attached :=
    match word.dropWhile (· ≠ '=') with
    | _ :: value => some (String.ofList value)
    | [] => none
  match s.options.find? (·.name = name) with
  | some o => g.meet o attached
  | none => throw .unknownArgument

/-- Options of one letter each. -/
def cluster (s : Grammar) : Given → List Char → Except UsageError Given
  | g, [] => .ok g
  | g, c :: cs => do
    match s.options.find? (·.short = some c) with
    | some o => cluster s (← g.meet o none) cs
    | none => throw .unknownArgument

def operand (s : Grammar) (g : Given) (word : String) : Except UsageError Given := do
  if g.operands.length < s.operands then
    let g ← g.resolve
    return { g with operands := g.operands ++ [word] }
  if s.commands.isEmpty || (g.onlyOperands && s.commands.contains word) then
    throw .unknownArgument
  throw .unknownCommand

/-- Reads a word that is no command.  A dash alone is a value or an operand. -/
def word (s : Grammar) (g : Given) (word : String) : Except UsageError Given :=
  if g.onlyOperands then s.operand g word
  else
    match word.toList with
    | ['-', '-'] => .ok { g with onlyOperands := true }
    | '-' :: '-' :: long => s.long g long
    | '-' :: c :: cs => s.cluster g (c :: cs)
    | _ =>
      match g.pending with
      | some (o, none) => .ok { g with pending := some (o, some word) }
      | _ => s.operand g word

/-- Reads words up to a command, which is given with the words after it. -/
def read (s : Grammar) : Given → List String →
    Except UsageError (Given × Option (String × List String))
  | g, [] => .ok (g, none)
  | g, word :: words => do
    if !g.onlyOperands && !g.isAwaitingValue && s.commands.contains word then
      return (g, some (word, words))
    read s (← s.word g word) words

/-- Reads all words, where no command can come. -/
def readAll (s : Grammar) (words : List String) : Except UsageError Given := do
  let (g, _) ← s.read {} words
  g.resolve

end Grammar

end MetricCatalog.CommandLine
