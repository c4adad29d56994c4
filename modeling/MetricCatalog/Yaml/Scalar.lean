import MetricCatalog.Decimal.Double
import MetricCatalog.Text.Blank
import MetricCatalog.Yaml.Char
/-!
# Writing a text as a scalar

A text is written plain where that reads back as the same text.  A text that
would read as something other than a text is quoted, one with line breaks
becomes a literal block, and one that holds characters with no plain form is
written in double quotes with escapes.
-/

namespace MetricCatalog.Yaml

/-! ## Texts that read as something else -/

/-- A whole number with a radix mark and its digits, below `2 ^ 128`, or down
to `-2 ^ 127`. -/
def isRadixNumber (cs : List Char) : Bool :=
  let (negative, cs) := Double.splitSign cs
  let limit := if negative then (1 <<< 127) + 1 else 1 <<< 128
  match cs with
  | '0' :: mark :: digits =>
    let radix := if mark = 'x' then 16 else if mark = 'o' then 8 else if mark = 'b' then 2 else 0
    !digits.isEmpty && digits.all (fun c => isHexDigit c && hexValue c < radix) &&
      digits.foldl (fun n c => radix * n + hexValue c) 0 < limit
  | _ => false

def isFiniteDecimal (cs : List Char) : Bool :=
  let (negative, cs) := Double.splitSign cs
  (Double.decimal? negative cs).any Double.isFinite

/-- Digits after a leading zero, which readers disagree about. -/
def isZeroLedDigits (cs : List Char) : Bool :=
  match (Double.splitSign cs).2 with
  | '0' :: digits => !digits.isEmpty && digits.all Char.isDigit
  | _ => false

/-- Words for null, truth values, infinities and NaN. -/
def reservedWords : List String :=
  ["", "null", "Null", "NULL", "~", "true", "True", "TRUE", "false", "False", "FALSE",
   ".inf", ".Inf", ".INF", "+.inf", "+.Inf", "+.INF", "-.inf", "-.Inf", "-.INF",
   ".nan", ".NaN", ".NAN"]

/-- The text would not read as a text if it were written plain. -/
def isAmbiguous (cs : List Char) : Bool :=
  reservedWords.contains (String.ofList cs) || isRadixNumber cs || isFiniteDecimal cs ||
    isZeroLedDigits cs

/-! ## Which styles a text allows -/

def hasNeighbours (p q : Char → Bool) : List Char → Bool
  | a :: b :: rest => (p a && q b) || hasNeighbours p q (b :: rest)
  | _ => false

/-- A comment sign after a blank, or a colon before one. -/
def hasInnerIndicator : List Char → Bool
  | a :: b :: rest =>
    (b = '#' && endsWord (some a)) || (b = ':' && endsWord rest.head?) ||
      hasInnerIndicator (b :: rest)
  | _ => false

/-- The start of the text is a sign of the block syntax. -/
def startsWithIndicator (cs : List Char) : Bool :=
  "---".toList.isPrefixOf cs || "...".toList.isPrefixOf cs ||
    match cs with
    | c :: rest =>
      "#,[]\x7b\x7d&*!|>'\"%@".toList.contains c || c.toNat == 0x60 ||
        ("?:-".toList.contains c && endsWord rest.head?)
    | [] => false

/-- A space just before a line break or a character that is not printable: only
double quotes can hold it. -/
def needsEscapes (cs : List Char) : Bool :=
  hasNeighbours (· = ' ') isBreak cs || cs.any (!isPrintable ·)

def allowsSingleQuotes (cs : List Char) : Bool :=
  !(needsEscapes cs || hasNeighbours isBreak (· = ' ') cs)

def allowsLiteral (cs : List Char) : Bool :=
  !(cs.isEmpty || needsEscapes cs || cs.getLast? = some ' ')

def allowsPlain (cs : List Char) : Bool :=
  !(cs.isEmpty || needsEscapes cs || cs.any isBreak || cs.head? = some ' ' ||
    cs.getLast? = some ' ' || startsWithIndicator cs || hasInnerIndicator cs)

def styleOf (cs : List Char) : Style :=
  if cs.contains '\n' then
    if allowsLiteral cs then .literal else .doubleQuoted
  else if !isAmbiguous cs && allowsPlain cs then .plain
  else if allowsSingleQuotes cs then .singleQuoted
  else .doubleQuoted

/-! ## The written forms -/

def indentation (n : Nat) : List Char := List.replicate n ' '

/-- The inside of single quotes.  A quote is written twice; after line breaks
the text goes on at the indentation. -/
def singleQuotedBody (indent : Nat) : (afterBreak : Bool) → List Char → List Char
  | afterBreak, [] => if afterBreak then indentation indent else []
  | afterBreak, c :: cs =>
    if isBreak c then c :: singleQuotedBody indent true cs
    else
      (if afterBreak then indentation indent else []) ++
        (if c = '\'' then ['\'', '\''] else [c]) ++ singleQuotedBody indent false cs

/-- A number in upper-case hexadecimal, in so many digits. -/
def hexPadded (width n : Nat) : List Char :=
  let digits := (Nat.toDigits 16 n).map Char.toUpper
  List.replicate (width - digits.length) '0' ++ digits

def escapeLetter? (c : Char) : Option Char :=
  [('\x00', '0'), ('\x07', 'a'), ('\x08', 'b'), ('\t', 't'), ('\n', 'n'), ('\x0b', 'v'),
   ('\x0c', 'f'), ('\r', 'r'), ('\x1b', 'e'), ('"', '"'), ('\\', '\\'), ('\u0085', 'N'),
   ('\u00a0', '_'), ('\u2028', 'L'), ('\u2029', 'P')].lookup c

def doubleQuotedChar (c : Char) : List Char :=
  if isPrintable c && !isBreak c && c != '"' && c != '\\' then [c]
  else
    match escapeLetter? c with
    | some letter => ['\\', letter]
    | none =>
      let n := c.toNat
      '\\' ::
        (if n ≤ 0xFF then 'x' :: hexPadded 2 n
        else if n ≤ 0xFFFF then 'u' :: hexPadded 4 n
        else 'U' :: hexPadded 8 n)

/-- The marks after a literal block's bar: the indentation where the text does
not show it, then what becomes of the breaks at the end. -/
def literalMarks (cs : List Char) : List Char :=
  (if cs.head?.any (fun c => c = ' ' || isBreak c) then ['2'] else []) ++
    match cs.reverse with
    | [] => ['-']
    | [c] => if isBreak c then ['+'] else ['-']
    | c :: d :: _ => if !isBreak c then ['-'] else if isBreak d then ['+'] else []

/-- The lines of a literal block; empty lines are not indented. -/
def literalBody (indent : Nat) : (atStart : Bool) → List Char → List Char
  | _, [] => []
  | atStart, c :: cs =>
    if isBreak c then c :: literalBody indent true cs
    else (if atStart then indentation indent else []) ++ c :: literalBody indent false cs

/-- A text as a scalar, up to the end of its last line.  Lines after the first
start at the indentation. -/
def writeScalar (indent : Nat) (text : String) : List Char :=
  let cs := text.toList
  let written :=
    match styleOf cs with
    | .plain => cs
    | .singleQuoted => '\'' :: singleQuotedBody indent false cs ++ ['\'']
    | .doubleQuoted => '"' :: cs.flatMap doubleQuotedChar ++ ['"']
    | .literal | .folded => '|' :: literalMarks cs ++ '\n' :: literalBody indent true cs
  if styleOf cs = .literal && cs.getLast?.any isBreak then written else written ++ ['\n']

end MetricCatalog.Yaml
