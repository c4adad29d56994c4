import MetricCatalog.Catalog.Order
import MetricCatalog.Reconcile.Report
/-!
# Merging two keyed sequences

Both sequences are sorted and walked together.  A key of the old one alone is
dropped, a key of the new one alone is taken in, and a key of both is combined
by the rule of the level.
-/

namespace MetricCatalog

/-- What becomes of new keys past the last old one. -/
inductive TailPolicy
  | appendNew
  /-- Leaves them out, unless there was no old key at all. -/
  | truncate
deriving DecidableEq

namespace TailPolicy

instance : Inhabited TailPolicy := ⟨appendNew⟩

def name : TailPolicy → String
  | appendNew => "append-new"
  | truncate => "truncate"

def ofName? (text : String) : Option TailPolicy :=
  [appendNew, truncate].find? (·.name = text)

end TailPolicy

/-- How one level combines an old element with the new element of its key. -/
structure MergeRule (α : Type) where
  level : Level
  combine : (old new : α) → α × Report

namespace MergeRule

variable {α : Type} [Keyed α]

/-- The merge of two sequences that are ascending already. -/
def walk (rule : MergeRule α) (tail : TailPolicy) : (old new : List α) → List α × Report
  | [], new =>
    match tail with
    | .appendNew => (new, .count rule.level .admitted new.length)
    | .truncate => ([], .count rule.level .skipped new.length)
  | o :: old, [] => ([], .count rule.level .pruned (old.length + 1))
  | o :: old, n :: new =>
    if Keyed.key o < Keyed.key n then
      let (merged, report) := walk rule tail old (n :: new)
      (merged, .count rule.level .pruned 1 + report)
    else if Keyed.key n < Keyed.key o then
      let (merged, report) := walk rule tail (o :: old) new
      (n :: merged, .count rule.level .admitted 1 + report)
    else
      let (both, inner) := rule.combine o n
      let (merged, report) := walk rule tail old new
      (both :: merged, inner + .count rule.level .combined 1 + report)
termination_by old new => old.length + new.length

/-- Merges two sequences, whatever their order.  With nothing old, all that is
new is taken in under either policy. -/
def merge (rule : MergeRule α) (tail : TailPolicy) (old new : List α) : List α × Report :=
  if old.isEmpty then
    (Keyed.sort new, .count rule.level .admitted new.length)
  else
    walk rule tail (Keyed.sort old) (Keyed.sort new)

end MergeRule

end MetricCatalog
