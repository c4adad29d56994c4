/-!
# Grouping metrics by name

A metric belongs to the component whose stem is the first segments of its
name, where underscores divide a name into segments.
-/

namespace MetricCatalog

/-- The text before the underscore that has `n` underscores before it. -/
def cutAtUnderscore : Nat → List Char → List Char
  | _, [] => []
  | n, c :: cs =>
    if c = '_' then
      match n with
      | 0 => []
      | n + 1 => c :: cutAtUnderscore n cs
    else c :: cutAtUnderscore n cs

/-- A stem of so many segments.  There is no stem of none, so zero counts as
one. -/
structure StemGrouping where
  requested : Nat := 2
deriving DecidableEq

namespace StemGrouping

def segments (g : StemGrouping) : Nat := max 1 g.requested

/-- A name with no more segments than asked for is its own stem. -/
def stemOf (g : StemGrouping) (name : String) : String :=
  String.ofList (cutAtUnderscore (g.segments - 1) name.toList)

end StemGrouping

end MetricCatalog
