import MetricCatalog.Markdown.Cell
import MetricCatalog.Markdown.Timestamp
/-!
# The metrics reference

A Markdown document with a section for each component of a catalog and a table
row for each metric.
-/

namespace MetricCatalog

namespace Markdown

def tableHead : String :=
  "| Metric name | Type | Units | Labels | Introduced in version |\n|---|---|---|---|---|\n"

/-- The table row of a metric, without its line break. -/
def row (words : KeySet) (m : Metric) : String :=
  "| " ++ code m.name ++ ": <br> " ++ helpCell words m.help ++ " | " ++ code m.kind.tag ++ " | " ++
    (if m.unit = "" then "" else code m.unit) ++ " | " ++ labelCell m.labels ++ " | " ++
    m.since ++ " |"

def component (words : KeySet) (c : Component) : String :=
  "### " ++ c.title ++ "\n\n" ++ c.desc ++ "\n\n" ++ tableHead ++
    String.join (c.metrics.map (row words · ++ "\n")) ++ "\n"

def head (version : String) (updated : Timestamp) : String :=
  "## Metrics list\nLast updated: " ++ updated.text ++ "\nVersion: " ++ version ++ "\n\n"

end Markdown

/-- The reference for a catalog.  Help texts show the escape words as code. -/
def Catalog.toMarkdown (c : Catalog) (escapeWords : KeySet) (updated : Timestamp) : String :=
  Markdown.head c.version updated ++ String.join (c.components.map (Markdown.component escapeWords))

end MetricCatalog
