import MetricCatalog.Yaml.Cursor
/-!
# Reading scalars

The text that a scalar stands for.  In quoted and plain scalars the line
breaks within a run of blanks fold: one line feed becomes a space, and of
several the first is dropped.  A text is gathered with its last character
first, so that adding to it takes no longer as it grows.
-/

namespace MetricCatalog.Yaml

/-- Adds to a text that is gathered last character first. -/
def gather (text more : List Char) : List Char := more.reverseAux text

/-- The breaks of one run of blanks, as they read. -/
def foldBreaks : List Char → List Char
  | ['\n'] => [' ']
  | '\n' :: more => more
  | breaks => breaks

/-- A run of blanks and line breaks: the blanks before the first break, and
the breaks, both gathered. -/
structure Gap where
  blanks : List Char := []
  breaks : List Char := []

/-- Reads a run of blanks and breaks.  Blanks after a break do not count; with
`indent`, a tab after a break and left of it is an error. -/
def readGap (indent : Nat) : (fuel : Nat) → Gap → Cursor → Except Problem (Gap × Cursor)
  | 0, gap, c => .ok (gap, c)
  | fuel + 1, gap, c =>
    if c.isAtBreak then
      let (b, c) := c.takeBreak
      readGap indent fuel { gap with breaks := gather gap.breaks b } c
    else if c.isAtSpace then
      if gap.breaks.isEmpty then
        readGap indent fuel { gap with blanks := gather gap.blanks (c.rest.take 1) } c.skip
      else if c.column < indent && c.isAt '\t' then .error .tabInIndentation
      else readGap indent fuel gap c.skip
    else .ok (gap, c)

def Gap.text (g : Gap) : List Char :=
  if g.breaks.isEmpty then g.blanks.reverse else foldBreaks g.breaks.reverse

/-! ## Quoted scalars -/

def escapedChar? (c : Char) : Option Char :=
  [('0', '\x00'), ('a', '\x07'), ('b', '\x08'), ('t', '\t'), ('\t', '\t'), ('n', '\n'),
   ('v', '\x0b'), ('f', '\x0c'), ('r', '\r'), ('e', '\x1b'), (' ', ' '), ('"', '"'),
   ('/', '/'), ('\\', '\\'), ('N', '\u0085'), ('_', '\u00a0'), ('L', '\u2028'),
   ('P', '\u2029')].lookup c

def escapeWidth? (c : Char) : Option Nat :=
  [('x', 2), ('u', 4), ('U', 8)].lookup c

def readEscape (c : Cursor) : Except Problem (Char × Cursor) :=
  match c.peek? with
  | none => .error .badEscape
  | some letter =>
    match escapedChar? letter with
    | some x => .ok (x, c.skip)
    | none =>
      match escapeWidth? letter with
      | none => .error .badEscape
      | some width =>
        let digits := (c.rest.drop 1).take width
        let n := digits.foldl (fun n d => 16 * n + hexValue d) 0
        if digits.length = width && digits.all isHexDigit && n.isValidChar then
          .ok (Char.ofNat n, c.skip (width + 1))
        else .error .badEscape

/-- Characters up to a blank, a line break or the closing quote.  The flag says
that an escaped line break ended them, which is passed over. -/
def readQuotedRun (quote : Char) : (fuel : Nat) → List Char → Cursor →
    Except Problem (List Char × Bool × Cursor)
  | 0, _, _ => .error .tooLong
  | fuel + 1, taken, c =>
    match c.rest with
    | [] => .ok (taken.reverse, false, c)
    | x :: rest =>
      if isSpace x || isBreak x then .ok (taken.reverse, false, c)
      else if quote = '\'' && x = '\'' && rest.head? = some '\'' then
        readQuotedRun quote fuel ('\'' :: taken) (c.skip 2)
      else if x = quote then .ok (taken.reverse, false, c)
      else if quote = '"' && x = '\\' then
        if rest.head?.any isBreak then .ok (taken.reverse, true, c.skip.skipBreak)
        else do
          let (x, c) ← readEscape c.skip
          readQuotedRun quote fuel (x :: taken) c
      else readQuotedRun quote fuel (x :: taken) c.skip

/-- The rest of a quoted scalar, past its opening quote, gathered. -/
def readQuotedRest (quote : Char) : (fuel : Nat) → List Char → Cursor →
    Except Problem (List Char × Cursor)
  | 0, _, _ => .error .tooLong
  | fuel + 1, text, c => do
    if c.isAtAnyDocumentMark then throw .documentMarkInScalar
    if c.isAtEnd then throw .unterminatedScalar
    let (run, escapedBreak, c) ← readQuotedRun quote (c.left + 1) [] c
    let text := gather text run
    if c.isAt quote && !escapedBreak then return (text, c.skip)
    -- Only the breaks count after an escaped one.
    if escapedBreak then
      let c := c.skipWhile isSpace
      let (gap, c) ← readGap 0 c.left {} c
      readQuotedRest quote fuel (gather text gap.breaks.reverse) c
    else
      let (gap, c) ← readGap 0 c.left {} c
      readQuotedRest quote fuel (gather text gap.text) c

def readQuoted (quote : Char) (c : Cursor) : Except Problem (String × Cursor) := do
  let (text, c) ← readQuotedRest quote (c.left + 1) [] c.skip
  return (String.ofList text.reverse, c)

/-! ## Plain scalars -/

def isFlowMark (c : Char) : Bool :=
  c = ',' || c = '[' || c = ']' || c = '\x7b' || c = '\x7d'

/-- Characters up to a blank, a line break or a mark that ends the scalar. -/
def readPlainRun (inFlow : Bool) : (fuel : Nat) → List Char → Cursor →
    Except Problem (List Char × Cursor)
  | 0, taken, c => .ok (taken.reverse, c)
  | fuel + 1, taken, c =>
    match c.rest with
    | [] => .ok (taken.reverse, c)
    | x :: rest =>
      if isSpace x || isBreak x then .ok (taken.reverse, c)
      else if inFlow && x = ':' && rest.head?.any (fun y => isFlowMark y || y = '?') then
        .error .ambiguousColon
      else if (x = ':' && endsWord rest.head?) || (inFlow && isFlowMark x) then
        .ok (taken.reverse, c)
      else readPlainRun inFlow fuel (x :: taken) c.skip

/-- The text of a plain scalar, gathered, whether it ran over a line break, and
the place after it and the blanks that follow.  `indent` is the least column of its
further lines. -/
def readPlainRest (inFlow : Bool) (indent : Nat) : (fuel : Nat) → List Char → Gap → Cursor →
    Except Problem (List Char × Bool × Cursor)
  | 0, _, _, _ => .error .tooLong
  | fuel + 1, text, gap, c => do
    let stopped := (text, !gap.breaks.isEmpty, c)
    if c.isAtAnyDocumentMark || c.isAt '#' then return stopped
    let (run, c) ← readPlainRun inFlow c.left [] c
    if run.isEmpty then return stopped
    let text := gather (gather text gap.text) run
    if !(c.isAtSpace || c.isAtBreak) then return (text, false, c)
    let (gap, c) ← readGap indent c.left {} c
    if !inFlow && c.column < indent then return (text, !gap.breaks.isEmpty, c)
    readPlainRest inFlow indent fuel text gap c

/-- A plain scalar, whether a line break came after its last word, and the
place after it. -/
def readPlain (inFlow : Bool) (indent : Nat) (c : Cursor) :
    Except Problem (String × Bool × Cursor) := do
  let (text, overBreak, c) ← readPlainRest inFlow indent (c.left + 1) [] {} c
  return (String.ofList text.reverse, overBreak, c)

/-! ## Block scalars -/

/-- What becomes of the line breaks at the end of a block scalar. -/
inductive Chomping
  | strip
  | clip
  | keep
deriving DecidableEq

/-- The header of a block scalar past its bar: the chomping and the number that
fixes the indentation, in either order. -/
def readBlockHeader (c : Cursor) : Except Problem (Chomping × Option Nat × Cursor) := do
  let chomping? : Cursor → Option Chomping := fun c =>
    if c.isAt '+' then some .keep else if c.isAt '-' then some .strip else none
  let increment? : Cursor → Except Problem (Option Nat) := fun c =>
    match c.peek? with
    | some d =>
      if !d.isDigit then .ok none
      else if d = '0' then .error .badBlockHeader
      else .ok (some (hexValue d))
    | none => .ok none
  match chomping? c with
  | some chomping =>
    let c := c.skip
    match ← increment? c with
    | some n => return (chomping, some n, c.skip)
    | none => return (chomping, none, c)
  | none =>
    match ← increment? c with
    | some n =>
      let c := c.skip
      match chomping? c with
      | some chomping => return (chomping, some n, c.skip)
      | none => return (.clip, some n, c)
    | none => return (.clip, none, c)

/-- Indentation and empty lines: the breaks, which are gathered on the way, the
widest indentation met, and the place after them.  Without `indent` all spaces count as indentation. -/
def readBlockBreaks (indent : Option Nat) : (fuel : Nat) → List Char → Nat → Cursor →
    Except Problem (List Char × Nat × Cursor)
  | 0, _, _, _ => .error .tooLong
  | fuel + 1, breaks, widest, c => do
    let inIndent := fun (c : Cursor) => indent.all (c.column < ·)
    let spaces := (c.rest.takeWhile (· = ' ')).length
    let c := c.skip (match indent with | some n => min spaces (n - c.column) | none => spaces)
    let widest := max widest c.column
    if inIndent c && c.isAt '\t' then throw .tabInIndentation
    if !c.isAtBreak then return (breaks.reverse, widest, c)
    let (b, c) := c.takeBreak
    readBlockBreaks indent fuel (gather breaks b) widest c

/-- What stands between two lines of a folded scalar: `first` ends the earlier
line and `more` are the breaks of empty lines.  Lines that start with a blank
do not fold. -/
def foldLines (blankBefore blankAfter : Bool) (first more : List Char) : List Char :=
  if first.head? = some '\n' && !blankBefore && !blankAfter then
    if more.isEmpty then [' '] else more
  else first ++ more

/-- The lines of a block scalar: the text up to the last line, gathered, the break
that ends that line, the breaks of the empty lines after it, and the place after
them. -/
def readBlockLines (literal : Bool) (indent : Nat) : (fuel : Nat) → (text : List Char) →
    (blankBefore : Bool) → (first more : List Char) → Cursor →
    Except Problem (List Char × List Char × List Char × Cursor)
  | 0, _, _, _, _, _ => .error .tooLong
  | fuel + 1, text, blankBefore, first, more, c => do
    if c.column ≠ indent || c.isAtEnd then return (text, first, more, c)
    let blankAfter := c.isAtSpace
    let gap := if literal then first ++ more else foldLines blankBefore blankAfter first more
    let (line, c) := c.takeWhile (!isBreak ·)
    let (first, c) := c.takeBreak
    let (more, _, c) ← readBlockBreaks (some indent) (c.left + 1) [] 0 c
    readBlockLines literal indent fuel (gather (gather text gap) line) blankAfter first more c

/-- A block scalar.  `parent` is the indentation around it, if there is any. -/
def readBlock (literal : Bool) (parent : Option Nat) (c : Cursor) :
    Except Problem (String × Cursor) := do
  let (chomping, increment, c) ← readBlockHeader c.skip
  let c ← c.skipLineEnd .badBlockHeader
  let fixed := increment.map (parent.getD 0 + ·)
  let (more, widest, c) ← readBlockBreaks fixed (c.left + 1) [] 0 c
  let indent := fixed.getD (max (max widest (parent.elim 0 (· + 1))) 1)
  let (text, first, more, c) ←
    readBlockLines literal indent (c.left + 1) [] false [] more c
  let tail :=
    match chomping with
    | .strip => []
    | .clip => first
    | .keep => first ++ more
  return (String.ofList (text.reverse ++ tail), c)

end MetricCatalog.Yaml
