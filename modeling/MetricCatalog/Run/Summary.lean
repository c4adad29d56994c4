import MetricCatalog.Reconcile.Report
import MetricCatalog.Text.Json
/-!
# What a synchronisation did
-/

namespace MetricCatalog

structure Summary where
  source : String
  catalog : String
  markdown : Option String
  dryRun : Bool
  /-- The catalog is not the one that was loaded. -/
  changed : Bool
  version : String
  components : Nat
  metrics : Nat
  report : Report
deriving DecidableEq

def Tally.toJson (t : Tally) : Text.Json :=
  .object [("admitted", .number t.admitted), ("combined", .number t.combined),
    ("pruned", .number t.pruned), ("skipped", .number t.skipped), ("locked", .number t.locked)]

def Report.toJson (r : Report) : Text.Json :=
  .object [("components", r.components.toJson), ("rows", r.metrics.toJson),
    ("labels", r.labels.toJson), ("values", r.values.toJson)]

namespace Summary

def text (s : Summary) : String :=
  (if s.dryRun then "Would update " else "Updated ") ++ s.catalog ++
    (if s.changed then "" else " (unchanged)") ++ " from " ++ s.source ++
    "\n  version: " ++ s.version ++
    "\n  " ++ toString s.components ++ " components, " ++ toString s.metrics ++ " metrics" ++
    "\n  " ++ s.report.text ++
    (match s.markdown with
      | some path => "\n  markdown: " ++ path
      | none => "")

def toJson (s : Summary) : Text.Json :=
  .object [("source", .text s.source), ("catalog", .text s.catalog),
    ("markdown", s.markdown.elim .null .text), ("dry_run", .flag s.dryRun),
    ("changed", .flag s.changed), ("version", .text s.version),
    ("components", .number s.components), ("metrics", .number s.metrics),
    ("report", s.report.toJson)]

end Summary

end MetricCatalog
