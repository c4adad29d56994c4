/-!
# JSON on several lines
-/

namespace MetricCatalog.Text

inductive Json
  | null
  | flag (b : Bool)
  | number (n : Nat)
  | text (s : String)
  | object (fields : List (String × Json))

namespace Json

def hexDigits (width n : Nat) : List Char :=
  let digits := Nat.toDigits 16 n
  List.replicate (width - digits.length) '0' ++ digits

/-- Quotes, backslashes and control characters are escaped. -/
def escapeChar (c : Char) : List Char :=
  match [('"', '"'), ('\\', '\\'), ('\x08', 'b'), ('\x0c', 'f'), ('\n', 'n'), ('\r', 'r'),
      ('\t', 't')].lookup c with
  | some letter => ['\\', letter]
  | none => if c.toNat < 0x20 then '\\' :: 'u' :: hexDigits 4 c.toNat else [c]

def quote (s : String) : String :=
  String.ofList ('"' :: s.toList.flatMap escapeChar ++ ['"'])

def indentation (indent : Nat) : String := String.ofList (List.replicate indent ' ')

mutual

/-- A value whose lines after the first are indented. -/
def write (indent : Nat) : Json → String
  | null => "null"
  | flag b => if b then "true" else "false"
  | number n => toString n
  | text s => quote s
  | object [] => "\x7b\x7d"
  | object fields =>
    "\x7b\n" ++ writeFields (indent + 2) fields ++ "\n" ++ indentation indent ++ "\x7d"

def writeFields (indent : Nat) : List (String × Json) → String
  | [] => ""
  | [(name, value)] => indentation indent ++ quote name ++ ": " ++ write indent value
  | (name, value) :: fields =>
    indentation indent ++ quote name ++ ": " ++ write indent value ++ ",\n" ++
      writeFields indent fields

end

/-- Each field on a line of its own, two spaces further in than its object. -/
def render (j : Json) : String := j.write 0

end Json

end MetricCatalog.Text
