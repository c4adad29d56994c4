import MetricCatalog.Exposition.Family
import MetricCatalog.Exposition.LabelSet
/-!
# Lines of a snapshot

Each line reads by itself: it declares the help or the kind of a name, gives a
sample of a series, or says nothing.
-/

namespace MetricCatalog.Exposition

inductive LineFault
  | missingName
  | malformedLabels (fault : LabelFault)
  | missingValue (name : String)
  | invalidValue (token : String)
  | unknownKind (text : String)
  | repeatedKind (name : String)
deriving DecidableEq

namespace LineFault

def message : LineFault → String
  | missingName => "missing metric name"
  | malformedLabels fault => "malformed label set: " ++ fault.message
  | missingValue name => "sample '" ++ name ++ "' has no value"
  | invalidValue token => "invalid sample value '" ++ token ++ "'"
  | unknownKind text => "unknown metric type '" ++ text ++ "'"
  | repeatedKind name => "duplicate TYPE line for '" ++ name ++ "'"

end LineFault

inductive Line
  /-- Empty, or a comment that declares nothing. -/
  | silent
  | help (name text : String)
  | kind (name : String) (kind : Kind)
  | sample (series : String) (labels : KeyMap String) (value : Double)
deriving DecidableEq

/-- In a help text, a backslash escapes itself and the letter of a line break.
Before anything else it stands for itself. -/
def unescapeHelp : List Char → List Char
  | [] => []
  | ['\\'] => ['\\']
  | '\\' :: '\\' :: cs => '\\' :: unescapeHelp cs
  | '\\' :: 'n' :: cs => '\n' :: unescapeHelp cs
  | '\\' :: c :: cs => '\\' :: c :: unescapeHelp cs
  | c :: cs => c :: unescapeHelp cs

namespace Line

/-- The part of a line after the comment sign and the blanks that follow it. -/
def comment (cs : List Char) : Except LineFault Line :=
  match Text.dropLead? "HELP ".toList cs with
  | some rest =>
    let (name, text) := Text.splitWord rest
    .ok (.help (String.ofList name) (String.ofList (unescapeHelp text)))
  | none =>
    match Text.dropLead? "TYPE ".toList cs with
    | some rest =>
      let (name, tag) := Text.splitWord rest
      match Kind.parse (String.ofList (Text.trim tag)) with
      | .ok declared => .ok (.kind (String.ofList name) declared)
      | .error unknown => .error (.unknownKind unknown.text)
    | none => .ok .silent

/-- The value is the first word; a time may follow it and is not read. -/
def sampleValue (series : String) (labels : KeyMap String) (cs : List Char) :
    Except LineFault Line :=
  let token := String.ofList (Text.splitWord cs).1
  if token.isEmpty then .error (.missingValue series)
  else
    match Double.parse? token with
    | some value => .ok (.sample series labels value)
    | none => .error (.invalidValue token)

/-- A series name ends at a brace or a blank. -/
def isSeriesChar (c : Char) : Bool := !(c = '\x7b' || Text.isBlank c)

def sampleLine (cs : List Char) : Except LineFault Line :=
  let series := String.ofList (cs.takeWhile isSeriesChar)
  if series.isEmpty then .error .missingName
  else
    match Text.trimStart (cs.dropWhile isSeriesChar) with
    | '\x7b' :: body =>
      match labelSet .empty body with
      | .ok (labels, after) => sampleValue series labels after
      | .error fault => .error (.malformedLabels fault)
    | rest => sampleValue series .empty rest

def parse (cs : List Char) : Except LineFault Line :=
  match Text.trim cs with
  | [] => .ok .silent
  | '#' :: rest => comment (Text.trimStart rest)
  | line => sampleLine line

end Line

end MetricCatalog.Exposition
