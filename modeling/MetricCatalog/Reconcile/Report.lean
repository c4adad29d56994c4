import MetricCatalog.Catalog.Basic
/-!
# Reconciliation reports

A report counts what happened to keys, level by level.  Reports add up, so the
report of a run is the sum of the reports of its parts.
-/

namespace MetricCatalog

inductive Outcome
  /-- Only in the snapshot: taken in. -/
  | admitted
  /-- On both sides. -/
  | combined
  /-- Only in the catalog: dropped. -/
  | pruned
  /-- Only in the snapshot, past the end of the catalog: left out. -/
  | skipped
  /-- A locked label, whose values were left alone. -/
  | locked
deriving DecidableEq

structure Tally where
  admitted : Nat := 0
  combined : Nat := 0
  pruned : Nat := 0
  skipped : Nat := 0
  locked : Nat := 0
deriving DecidableEq

namespace Tally

def zero : Tally := {}

def add (s t : Tally) : Tally where
  admitted := s.admitted + t.admitted
  combined := s.combined + t.combined
  pruned := s.pruned + t.pruned
  skipped := s.skipped + t.skipped
  locked := s.locked + t.locked

def ofOutcome (n : Nat) : Outcome → Tally
  | .admitted => { admitted := n }
  | .combined => { combined := n }
  | .pruned => { pruned := n }
  | .skipped => { skipped := n }
  | .locked => { locked := n }

/-- Every count as it stands in 64 bits. -/
def wrapped (t : Tally) : Tally where
  admitted := t.admitted % (1 <<< 64)
  combined := t.combined % (1 <<< 64)
  pruned := t.pruned % (1 <<< 64)
  skipped := t.skipped % (1 <<< 64)
  locked := t.locked % (1 <<< 64)

/-- Entries came, went, or were left out. -/
def changesMembership (t : Tally) : Bool :=
  0 < t.admitted || 0 < t.pruned || 0 < t.skipped

/-- The last two counts are shown only when they are not zero. -/
def text (t : Tally) : String :=
  "+" ++ toString t.admitted ++ " =" ++ toString t.combined ++ " -" ++ toString t.pruned ++
    (if 0 < t.skipped then " skipped " ++ toString t.skipped else "") ++
    (if 0 < t.locked then " locked " ++ toString t.locked else "")

end Tally

structure Report where
  components : Tally := .zero
  metrics : Tally := .zero
  labels : Tally := .zero
  values : Tally := .zero
deriving DecidableEq

namespace Report

def zero : Report := {}

def add (r s : Report) : Report where
  components := r.components.add s.components
  metrics := r.metrics.add s.metrics
  labels := r.labels.add s.labels
  values := r.values.add s.values

instance : Add Report := ⟨add⟩

def tally (r : Report) : Level → Tally
  | .component => r.components
  | .metric => r.metrics
  | .label => r.labels
  | .value => r.values

def count (level : Level) (outcome : Outcome) (n : Nat) : Report :=
  let t := Tally.ofOutcome n outcome
  match level with
  | .component => { components := t }
  | .metric => { metrics := t }
  | .label => { labels := t }
  | .value => { values := t }

/-- Every count as it stands in 64 bits. -/
def wrapped (r : Report) : Report where
  components := r.components.wrapped
  metrics := r.metrics.wrapped
  labels := r.labels.wrapped
  values := r.values.wrapped

/-- Counts `n` more keys, from which a counter of 64 bits may start again at
zero. -/
def record (r : Report) (level : Level) (outcome : Outcome) (n : Nat) : Report :=
  (r + count level outcome n).wrapped

def changesMembership (r : Report) : Bool :=
  Level.all.any fun level => (r.tally level).changesMembership

def text (r : Report) : String :=
  ", ".intercalate (Level.all.map fun level => level.name ++ "s " ++ (r.tally level).text)

end Report

end MetricCatalog
