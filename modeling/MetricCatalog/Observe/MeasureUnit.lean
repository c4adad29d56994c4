/-!
# Units of measure

A unit is read off a metric's name, or failing that off its help: the word for
the unit has to occur, and not at the very start of the text.
-/

namespace MetricCatalog

inductive MeasureUnit
  | milliseconds
  | bytes
  | seconds
deriving DecidableEq

namespace MeasureUnit

/-- Milliseconds come before seconds, whose word ends theirs. -/
def all : List MeasureUnit := [milliseconds, bytes, seconds]

def word : MeasureUnit → String
  | milliseconds => "milliseconds"
  | bytes => "bytes"
  | seconds => "seconds"

end MeasureUnit

def firstOccurrence? (word : List Char) : List Char → Option Nat
  | [] => if word.isEmpty then some 0 else none
  | c :: cs =>
    if word.isPrefixOf (c :: cs) then some 0
    else (firstOccurrence? word cs).map (· + 1)

namespace MeasureUnit

/-- The word first occurs past the start of the text. -/
def marks (unit : MeasureUnit) (text : String) : Bool :=
  (firstOccurrence? unit.word.toList text.toList).any (0 < ·)

def ofText? (text : String) : Option MeasureUnit := all.find? (·.marks text)

/-- The name decides whenever it holds a unit at all. -/
def infer? (name help : String) : Option MeasureUnit := (ofText? name).or (ofText? help)

end MeasureUnit

end MetricCatalog
