import MetricCatalog.Exposition.Line
import MetricCatalog.Key.Set
/-!
# Decoding a snapshot

Lines are taken in order.  A sample belongs to the family of its series name,
or else to a declared family whose name is the series name less a suffix that
the family's kind allows, or else to a new family of its own.
-/

namespace MetricCatalog.Exposition

structure DecodeError where
  /-- Counted from one. -/
  line : Nat
  fault : LineFault
deriving DecidableEq

def DecodeError.message (e : DecodeError) : String :=
  "line " ++ toString e.line ++ ": " ++ e.fault.message

/-- Suffixes of the series that make up a family, with the kinds of family
that have such a series. -/
def seriesSuffixes : List (String × List Kind) :=
  [("_bucket", [.histogram, .gaugeHistogram]),
   ("_sum", [.histogram, .summary]),
   ("_count", [.histogram, .summary]),
   ("_gsum", [.gaugeHistogram]),
   ("_gcount", [.gaugeHistogram])]

structure Entry where
  kind : Kind := .untyped
  help : String := ""
  samples : List Sample := []
deriving DecidableEq

/-- The families met so far, and the names whose kind was declared. -/
structure Draft where
  families : KeyMap Entry := .empty
  typed : KeySet := .empty
deriving DecidableEq

def stem? (suffix series : String) : Option String :=
  (Text.dropLead? suffix.toList.reverse series.toList.reverse).map fun cs =>
    String.ofList cs.reverse

namespace Draft

def owner (d : Draft) (series : String) : String :=
  if d.families.contains series then series
  else
    (seriesSuffixes.findSome? fun (suffix, kinds) =>
      (stem? suffix series).filter fun name =>
        (d.families.find? name).any fun entry => kinds.contains entry.kind).getD series

end Draft

/-- A bucket bound and a quantile tell samples of one family apart and are not
labels of the metric. -/
def metricLabels (family : String) (kind : Kind) (series : String) (labels : KeyMap String) :
    KeyMap String :=
  match kind with
  | .histogram | .gaugeHistogram =>
    if (stem? "_bucket" series).isSome then labels.erase "le" else labels
  | .summary => if series = family then labels.erase "quantile" else labels
  | _ => labels

namespace Draft

/-- Changes a family, which starts out undeclared and without samples. -/
def modify (d : Draft) (name : String) (f : Entry → Entry) : Draft :=
  { d with families := d.families.alter name fun entry => f (entry.getD {}) }

def addLine (d : Draft) : Line → Except LineFault Draft
  | .silent => .ok d
  | .help name text => .ok (d.modify name ({ · with help := text }))
  | .kind name kind =>
    if d.typed.contains name then .error (.repeatedKind name)
    else .ok { d.modify name ({ · with kind }) with typed := d.typed.insert name }
  | .sample series labels value =>
    let family := d.owner series
    .ok (d.modify family fun entry =>
      let labels := metricLabels family entry.kind series labels
      { entry with samples := entry.samples ++ [{ labels, value }] })

/-- Takes in lines, the first of which has number `n`. -/
def addLines (d : Draft) (n : Nat) : List (List Char) → Except DecodeError Draft
  | [] => .ok d
  | cs :: rest =>
    match Line.parse cs with
    | .error fault => .error ⟨n, fault⟩
    | .ok line =>
      match d.addLine line with
      | .error fault => .error ⟨n, fault⟩
      | .ok d => d.addLines (n + 1) rest

def toFamilies (d : Draft) : List Family :=
  d.families.entries.map fun (name, entry) =>
    { name, kind := entry.kind, help := entry.help, samples := entry.samples }

end Draft

/-- The lines of a text; a line break before the end of the text ends a line
that is empty and so says nothing. -/
def lines (text : String) : List (List Char) :=
  text.toList.splitOn '\n'

/-- The families of a snapshot, ascending by name, or the first error. -/
def decode (text : String) : Except DecodeError (List Family) :=
  (Draft.addLines {} 1 (lines text)).map Draft.toFamilies

end MetricCatalog.Exposition
