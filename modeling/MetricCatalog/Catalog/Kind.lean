/-!
# Metric kinds

The declared type of a metric, its written tag, and the reading of a tag.
-/

namespace MetricCatalog

inductive Kind
  | counter
  | gauge
  | histogram
  | gaugeHistogram
  | summary
  | untyped
deriving DecidableEq

structure UnknownKind where
  text : String
deriving DecidableEq

def UnknownKind.message (e : UnknownKind) : String :=
  "unknown metric type: '" ++ e.text ++ "'"

namespace Kind

instance : Inhabited Kind := ⟨untyped⟩

/-- The tag under which a kind is stored and printed. -/
def tag : Kind → String
  | counter => "COUNTER"
  | gauge => "GAUGE"
  | histogram => "HISTOGRAM"
  | gaugeHistogram => "GAUGE_HISTOGRAM"
  | summary => "SUMMARY"
  | untyped => "UNTYPED"

def all : List Kind :=
  [counter, gauge, histogram, gaugeHistogram, summary, untyped]

def ofTag? (text : String) : Option Kind :=
  all.find? (·.tag = text)

@[simp] theorem ofTag?_tag (k : Kind) : ofTag? k.tag = some k := by
  cases k <;> decide

/-- Reads a tag in any ASCII case.  Two kinds have a second spelling: a gauge
histogram may be written as one word, and an untyped metric as unknown. -/
def parse (text : String) : Except UnknownKind Kind :=
  match String.ofList (text.toList.map Char.toLower) with
  | "counter" => .ok counter
  | "gauge" => .ok gauge
  | "histogram" => .ok histogram
  | "gaugehistogram" => .ok gaugeHistogram
  | "gauge_histogram" => .ok gaugeHistogram
  | "summary" => .ok summary
  | "untyped" => .ok untyped
  | "unknown" => .ok untyped
  | _ => .error ⟨text⟩

end Kind

end MetricCatalog
