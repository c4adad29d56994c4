import MetricCatalog.Decimal.Double
import MetricCatalog.Text.Blank
import MetricCatalog.Toml.Value
/-!
# Strings, numbers and dates in TOML
-/

namespace MetricCatalog.Toml

/-- Reads something from the front of a text. -/
abbrev Reader (α : Type) := StateT (List Char) Option α

namespace Reader

def peek : Reader (Option Char) := return (← get).head?

def satisfy (p : Char → Bool) : Reader Char := do
  match ← get with
  | c :: cs =>
    guard (p c)
    set cs
    return c
  | [] => failure

def lead (text : String) : Reader Unit := do
  match Text.dropLead? text.toList (← get) with
  | some cs => set cs
  | none => failure

/-- All characters of a class that come next. -/
def span (p : Char → Bool) : Reader (List Char) := do
  let cs ← get
  set (cs.dropWhile p)
  return cs.takeWhile p

def exactly (n : Nat) (p : Char → Bool) : Reader (List Char) := do
  let cs ← get
  let taken := cs.take n
  guard (taken.length = n && taken.all p)
  set (cs.drop n)
  return taken

end Reader

open Reader

/-! ## Characters -/

def isBlank (c : Char) : Bool := c = ' ' || c = '\t'

/-- What a line of a string or comment may hold. -/
def isLineChar (c : Char) : Bool := c = '\t' || (' ' ≤ c && c ≠ '\x7f')

def isHexDigit (c : Char) : Bool :=
  c.isDigit || ('a' ≤ c && c ≤ 'f') || ('A' ≤ c && c ≤ 'F')

def digitValue (c : Char) : Nat :=
  if c.isDigit then c.toNat - '0'.toNat
  else if 'a' ≤ c then c.toNat - 'a'.toNat + 10
  else c.toNat - 'A'.toNat + 10

def numberOf (radix : Nat) (digits : List Char) : Nat :=
  digits.foldl (fun n d => radix * n + digitValue d) 0

def skipBlanks : Reader Unit := discard (span isBlank)

def newline : Reader Unit := lead "\n" <|> lead "\r\n"

/-! ## Strings -/

def escapedChar? (c : Char) : Option Char :=
  [('b', '\x08'), ('t', '\t'), ('n', '\n'), ('f', '\x0c'), ('r', '\r'), ('"', '"'),
   ('\\', '\\')].lookup c

def escape : Reader Char := do
  let letter ← satisfy fun _ => true
  if let some c := escapedChar? letter then return c
  let width ← if letter = 'u' then pure 4 else if letter = 'U' then pure 8 else failure
  let n := numberOf 16 (← exactly width isHexDigit)
  guard n.isValidChar
  return Char.ofNat n

/-- The rest of a string of one line, up to its closing quote. -/
def lineString (quote : Char) : (fuel : Nat) → Reader (List Char)
  | 0 => failure
  | fuel + 1 => do
    let c ← satisfy isLineChar
    if c = quote then return []
    if c = '\\' && quote = '"' then
      let c ← escape
      return c :: (← lineString quote fuel)
    return c :: (← lineString quote fuel)

def dropBlankLines : List Char → List Char
  | '\r' :: '\n' :: cs => dropBlankLines cs
  | c :: cs => if isBlank c || c = '\n' then dropBlankLines cs else c :: cs
  | [] => []

/-- A backslash at the end of a line takes with it the blanks and line breaks
that follow. -/
def lineEndEscape : Reader Unit := do
  skipBlanks
  newline
  modify dropBlankLines

/-- The rest of a string of several lines.  Up to two quotes may stand before
the three that close it. -/
def multilineString (quote : Char) : (fuel : Nat) → Reader (List Char)
  | 0 => failure
  | fuel + 1 => do
    let quotes := (← get).takeWhile (· = quote)
    if 3 ≤ quotes.length then
      guard (quotes.length ≤ 5)
      modify (·.drop quotes.length)
      return quotes.drop 3
    if (← optional newline).isSome then return '\n' :: (← multilineString quote fuel)
    let c ← satisfy isLineChar
    if c = '\\' && quote = '"' then
      if (← optional lineEndEscape).isSome then return ← multilineString quote fuel
      let c ← escape
      return c :: (← multilineString quote fuel)
    return c :: (← multilineString quote fuel)

def shortString : Reader String := do
  let quote ← satisfy fun c => c = '"' || c = '\''
  return String.ofList (← lineString quote ((← get).length + 1))

def longString : Reader String := do
  let quote ← (lead "\"\"\"" *> pure '"') <|> (lead "'''" *> pure '\'')
  discard (optional newline)
  return String.ofList (← multilineString quote ((← get).length + 1))

def string : Reader String := longString <|> shortString

/-! ## Numbers -/

def moreDigits (p : Char → Bool) : List Char → List Char × List Char
  | '_' :: c :: cs =>
    if p c then
      let (digits, rest) := moreDigits p cs
      (c :: digits, rest)
    else ([], '_' :: c :: cs)
  | c :: cs =>
    if p c then
      let (digits, rest) := moreDigits p cs
      (c :: digits, rest)
    else ([], c :: cs)
  | [] => ([], [])

def digits (p : Char → Bool) : Reader (List Char) := do
  let first ← satisfy p
  let (more, rest) := moreDigits p (← get)
  set rest
  return first :: more

def sign : Reader (List Char) := do
  return (← optional (satisfy fun c => c = '+' || c = '-')).toList

/-- Decimal digits that do not begin with a zero, unless it is the only one. -/
def wholePart : Reader (List Char) := do
  if (← peek) = some '0' then exactly 1 Char.isDigit else digits Char.isDigit

/-- The integers of a TOML document have 64 bits. -/
def bounded (n : Int) : Reader Value := do
  guard (-0x8000000000000000 ≤ n && n < 0x8000000000000000)
  return .integer n

def radixInteger (mark : String) (radix : Nat) : Reader Value := do
  lead mark
  bounded (numberOf radix (← digits fun c => isHexDigit c && digitValue c < radix))

def decimalInteger : Reader Value := do
  let sign ← sign
  let n := numberOf 10 (← wholePart)
  bounded (if sign = ['-'] then -n else n)

def integer : Reader Value :=
  radixInteger "0x" 16 <|> radixInteger "0o" 8 <|> radixInteger "0b" 2 <|> decimalInteger

def exponent : Reader (List Char) := do
  discard (satisfy fun c => c = 'e' || c = 'E')
  return 'e' :: (← sign) ++ (← digits Char.isDigit)

def fraction : Reader (List Char) := do
  lead "."
  return '.' :: (← digits Char.isDigit)

/-- A decimal number with a fraction or an exponent, below the greatest double. -/
def decimalFloat : Reader Value := do
  let whole := (← sign) ++ (← wholePart)
  let tail ←
    exponent <|> do
      let fraction ← fraction
      return fraction ++ (← optional exponent).getD []
  match Double.parse? (String.ofList (whole ++ tail)) with
  | some x =>
    guard (x ≠ .infinity false)
    return .float
  | none => failure

def float : Reader Value :=
  decimalFloat <|> do
    discard sign
    lead "inf" <|> lead "nan"
    return .float

/-! ## Dates and times -/

def field (width least greatest : Nat) : Reader Nat := do
  let n := numberOf 10 (← exactly width Char.isDigit)
  guard (least ≤ n && n ≤ greatest)
  return n

def daysInMonth (year month : Nat) : Nat :=
  if month = 2 then
    if year % 4 = 0 && (year % 100 ≠ 0 || year % 400 = 0) then 29 else 28
  else if month = 4 || month = 6 || month = 9 || month = 11 then 30
  else 31

def date : Reader Unit := do
  let year ← field 4 0 9999
  lead "-"
  let month ← field 2 1 12
  lead "-"
  discard (field 2 1 (daysInMonth year month))

def time : Reader Unit := do
  discard (field 2 0 23)
  lead ":"
  discard (field 2 0 59)
  lead ":"
  discard (field 2 0 60)
  discard (optional (lead "." *> satisfy Char.isDigit *> span Char.isDigit))

def offset : Reader Unit :=
  lead "Z" <|> lead "z" <|> do
    discard (satisfy fun c => c = '+' || c = '-')
    discard (field 2 0 23)
    lead ":"
    discard (field 2 0 59)

def moment : Reader Value := do
  let dated : Reader Unit := do
    date
    discard (optional (do
      discard (satisfy fun c => c = 'T' || c = 't' || c = ' ')
      time
      discard (optional offset)))
  dated <|> time
  return .moment

end MetricCatalog.Toml
