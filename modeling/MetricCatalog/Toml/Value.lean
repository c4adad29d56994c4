/-!
# TOML values

A table keeps how it was made, because that decides what may still be added to
it.
-/

namespace MetricCatalog.Toml

inductive Origin
  /-- By a header of its own, or the root. -/
  | header
  /-- By the header of a table inside it. -/
  | implied
  | dotted
  | inline
deriving DecidableEq

inductive Value
  | text (s : String)
  | integer (n : Int)
  | flag (b : Bool)
  /-- Read for its form only. -/
  | float
  /-- A date, a time or both, read for its form only. -/
  | moment
  | array (items : List Value)
  /-- The tables of headers in double brackets. -/
  | tables (items : List Value)
  | table (origin : Origin) (entries : List (String × Value))

/-- A table's entries in the order in which their keys appeared. -/
abbrev Entries := List (String × Value)

namespace Entries

def modify (key : String) (change : Option Value → Option Value) : Entries → Option Entries
  | [] => (change none).map fun v => [(key, v)]
  | (k, v) :: entries =>
    if k = key then (change (some v)).map fun v => (k, v) :: entries
    else (modify key change entries).map ((k, v) :: ·)

def modifyLast (change : Entries → Option Entries) : List Value → Option (List Value)
  | [] => none
  | [.table origin entries] => (change entries).map fun entries => [.table origin entries]
  | [_] => none
  | item :: items => (modifyLast change items).map (item :: ·)

/-! ## Keys and their values -/

/-- Adds a value under a dotted key.  On its way a key makes tables and passes
through those that headers have implied or other dotted keys made; the table that
it adds to has to be `open`, that is, its own or made by dotted keys. -/
def insertDotted (value : Value) : (isOpen : Bool) → List String → Entries → Option Entries
  | _, [], _ => none
  | isOpen, [key], entries =>
    if isOpen then entries.modify key fun old => if old.isNone then some value else none
    else none
  | _, key :: path, entries =>
    entries.modify key fun old =>
      match old with
      | none => (insertDotted value true path []).map (.table .dotted)
      | some (.table .dotted inner) => (insertDotted value true path inner).map (.table .dotted)
      | some (.table .implied inner) => (insertDotted value false path inner).map (.table .implied)
      | some (.tables items) => (modifyLast (insertDotted value false path) items).map .tables
      | some _ => none

/-- Adds a value under a dotted key to the table of a header. -/
def insertUnder (value : Value) (keys : List String) : (header : List String) → Entries →
    Option Entries
  | [], entries => insertDotted value true keys entries
  | key :: header, entries =>
    entries.modify key fun old =>
      match old with
      | some (.table origin inner) => (insertUnder value keys header inner).map (.table origin)
      | some (.tables items) => (modifyLast (insertUnder value keys header) items).map .tables
      | _ => none

/-! ## Headers -/

/-- Follows a header through tables, which it makes if need be, and changes the
last key. -/
def openAt (change : Option Value → Option Value) : List String → Entries → Option Entries
  | [], _ => none
  | [key], entries => entries.modify key change
  | key :: path, entries =>
    entries.modify key fun old =>
      match old with
      | none => (openAt change path []).map (.table .implied)
      | some (.table .inline _) => none
      | some (.table origin inner) => (openAt change path inner).map (.table origin)
      | some (.tables items) => (modifyLast (openAt change path) items).map .tables
      | some _ => none

/-- Opens the table of a header, which only headers inside it may have made
before. -/
def openTable : List String → Entries → Option Entries :=
  openAt fun old =>
    match old with
    | none => some (.table .header [])
    | some (.table .implied inner) => some (.table .header inner)
    | some _ => none

/-- Opens one more table of a header in double brackets. -/
def openNext : List String → Entries → Option Entries :=
  openAt fun old =>
    match old with
    | none => some (.tables [.table .header []])
    | some (.tables items) => some (.tables (items ++ [.table .header []]))
    | some _ => none

end Entries

end MetricCatalog.Toml
