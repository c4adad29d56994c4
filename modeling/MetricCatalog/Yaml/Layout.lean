import MetricCatalog.Yaml.Property
import MetricCatalog.Yaml.ScalarText
/-!
# The tokens of a text

Indentation opens and closes blocks, and a colon turns what stands before it on
its line into a key.  Reading keeps the columns of the open blocks and, for each
open flow collection, the place where a key may have begun.
-/

namespace MetricCatalog.Yaml

/-- A place where a key may have begun, without a key mark. -/
structure KeyStart where
  /-- In a block a key must follow at the block's own column. -/
  required : Bool
  position : Nat
  start : Cursor

/-- How far the tokens of a text have been read. -/
structure Layout where
  cursor : Cursor
  /-- The last one first. -/
  tokens : List Token := []
  count : Nat := 0
  /-- The columns of the open blocks, the innermost first. -/
  blocks : List Nat := []
  keyStart : Option KeyStart := none
  /-- The key places outside each open flow collection, the innermost first. -/
  outerKeyStarts : List (Option KeyStart) := []
  keyAllowed : Bool := true

namespace Layout

def inFlow (l : Layout) : Bool := !l.outerKeyStarts.isEmpty

def insert (l : Layout) (position : Nat) (token : Token) : Layout :=
  let later := l.tokens.take (l.count - position)
  { l with tokens := later ++ token :: l.tokens.drop later.length, count := l.count + 1 }

def add (l : Layout) (token : Token) (cursor : Cursor) : Layout :=
  { l.insert l.count token with cursor }

/-! ## Key places -/

def dropKeyStart (l : Layout) : Except Problem Layout :=
  if l.keyStart.any (·.required) then .error .simpleKeyWithoutColon
  else .ok { l with keyStart := none }

/-- Where a key is allowed, one may begin here. -/
def markKeyStart (l : Layout) : Except Problem Layout := do
  if !l.keyAllowed then return l
  let required := !l.inFlow && l.blocks.head? = some l.cursor.column
  return { ← l.dropKeyStart with
    keyStart := some { required, position := l.count, start := l.cursor } }

/-- A key ends on the line it began on and within 1024 bytes. -/
def KeyStart.isStale (c : Cursor) (k : KeyStart) : Bool :=
  k.start.line < c.line || k.start.offset + 1024 < c.offset

/-- Gives up the innermost key place if it is stale; the outer ones wait until
they are innermost.  A key that must follow is one outside all flow collections. -/
def dropStaleKeyStarts (l : Layout) : Except Problem Layout :=
  let isStale := KeyStart.isStale l.cursor
  let outermost := l.outerKeyStarts.getLast?.getD l.keyStart
  if outermost.any (fun k => isStale k && k.required) then .error .simpleKeyWithoutColon
  else .ok { l with keyStart := l.keyStart.filter (!isStale ·) }

/-! ## Blocks -/

/-- Closes the blocks that lie further in than a column; all without one. -/
def closeBlocks (l : Layout) (column : Option Nat) : Layout :=
  if l.inFlow then l
  else
    let closed := l.blocks.takeWhile (fun b => column.all (· < b))
    { l with
      tokens := closed.map (fun _ => Token.blockEnd) ++ l.tokens
      count := l.count + closed.length
      blocks := l.blocks.drop closed.length }

/-- Opens a block at a column further in than the others; its token goes before
those after the position. -/
def openBlock (l : Layout) (column position : Nat) (token : Token) : Layout :=
  if l.inFlow || l.blocks.head?.any (column ≤ ·) then l
  else { l.insert position token with blocks := column :: l.blocks }

/-- Opens a block here if there is none at this column, where a key or an entry
may stand. -/
def openBlockHere (l : Layout) (token : Token) (problem : Problem) : Except Problem Layout :=
  if l.inFlow then .ok l
  else if !l.keyAllowed then .error problem
  else .ok (l.openBlock l.cursor.column l.count token)

/-! ## Between tokens -/

/-- Passes over blanks, comments and line breaks, and over a byte order mark at
the start of a line, which takes a column.  Tabs are no blanks where a key is
allowed in a block. -/
def skipToToken : (fuel : Nat) → Layout → Layout
  | 0, l => l
  | fuel + 1, l =>
    let tabs := l.inFlow || !l.keyAllowed
    let cursor := l.cursor.skipByteOrderMark
    let cursor := (cursor.skipWhile (fun x => x = ' ' || (tabs && x = '\t'))).skipComment
    if cursor.isAtBreak then
      skipToToken fuel
        { l with cursor := cursor.skipBreak, keyAllowed := l.keyAllowed || !l.inFlow }
    else { l with cursor }

/-! ## One token -/

/-- A directive or a document mark: closes every block. -/
def atLineStart (l : Layout) : Except Problem Layout := do
  return { ← (l.closeBlocks none).dropKeyStart with keyAllowed := false }

def readFlowStart (l : Layout) (token : Token) : Except Problem Layout := do
  let l ← l.markKeyStart
  return { l.add token l.cursor.skip with
    keyStart := none, outerKeyStarts := l.keyStart :: l.outerKeyStarts, keyAllowed := true }

def readFlowEnd (l : Layout) (token : Token) : Except Problem Layout := do
  let l ← l.dropKeyStart
  return { l.add token l.cursor.skip with
    keyStart := l.outerKeyStarts.head?.join
    outerKeyStarts := l.outerKeyStarts.tail
    keyAllowed := false }

def readFlowEntry (l : Layout) : Except Problem Layout := do
  let l ← l.dropKeyStart
  return { l.add .flowEntry l.cursor.skip with keyAllowed := true }

def readBlockEntry (l : Layout) : Except Problem Layout := do
  let l ← (← l.openBlockHere .blockSequenceStart .misplacedBlockEntry).dropKeyStart
  return { l.add .blockEntry l.cursor.skip with keyAllowed := true }

def readKeyMark (l : Layout) : Except Problem Layout := do
  let l ← (← l.openBlockHere .blockMappingStart .misplacedKey).dropKeyStart
  return { l.add .key l.cursor.skip with keyAllowed := !l.inFlow }

/-- A colon: what began at the key place is a key, which may open a mapping. -/
def readValueMark (l : Layout) : Except Problem Layout := do
  match l.keyStart with
  | some k =>
    let l := (l.insert k.position .key).openBlock k.start.column k.position .blockMappingStart
    return { l.add .value l.cursor.skip with keyStart := none, keyAllowed := false }
  | none =>
    let l ← l.openBlockHere .blockMappingStart .misplacedValue
    return { l.add .value l.cursor.skip with keyAllowed := !l.inFlow }

/-- An alias, a node's property or a quoted scalar, at which a key may begin. -/
def readInline (l : Layout) (read : Cursor → Except Problem (Token × Cursor)) :
    Except Problem Layout := do
  let l ← l.markKeyStart
  let (token, cursor) ← read l.cursor
  return { l.add token cursor with keyAllowed := false }

def readBlockScalar (l : Layout) (style : Style) : Except Problem Layout := do
  let l ← l.dropKeyStart
  let (text, cursor) ← readBlock (style = .literal) l.blocks.head? l.cursor
  return { l.add (.scalar style text) cursor with keyAllowed := true }

def readPlainScalar (l : Layout) : Except Problem Layout := do
  let l ← l.markKeyStart
  let (text, overBreak, cursor) ← readPlain l.inFlow (l.blocks.head?.elim 0 (· + 1)) l.cursor
  return { l.add (.scalar .plain text) cursor with keyAllowed := overBreak }

/-- A plain scalar may start with any character but a blank and the signs; some
signs may start one where they have no other meaning. -/
def startsPlain (inFlow : Bool) (x : Char) (next : Option Char) : Bool :=
  !(endsWord (some x) || "-?:,[]\x7b\x7d#&*!|>'\"%@".toList.contains x || x.toNat == 0x60) ||
    (x = '-' && !next.any isSpace) ||
    (!inFlow && (x = '?' || x = ':') && !endsWord next)

/-- Reads the token that starts at the cursor with this character. -/
def readToken (l : Layout) (x : Char) : Except Problem Layout := do
  let c := l.cursor
  let beforeBlank := endsWord c.next?
  if c.column = 0 && x = '%' then
    let (token, c) ← readDirective c
    return (← l.atLineStart).add token c
  if c.isAtDocumentMark '-' then return (← l.atLineStart).add .documentStart (c.skip 3)
  if c.isAtDocumentMark '.' then return (← l.atLineStart).add .documentEnd (c.skip 3)
  match x with
  | '[' => l.readFlowStart .flowSequenceStart
  | '\x7b' => l.readFlowStart .flowMappingStart
  | ']' => l.readFlowEnd .flowSequenceEnd
  | '\x7d' => l.readFlowEnd .flowMappingEnd
  | ',' => l.readFlowEntry
  | '*' => l.readInline fun c => do
    let (name, c) ← readAnchorName c
    return (.aliasTo name, c)
  | '&' => l.readInline fun c => do
    let (name, c) ← readAnchorName c
    return (.anchor name, c)
  | '!' => l.readInline fun c => do
    let (handle, suffix, c) ← readTag l.inFlow c
    return (.tag handle suffix, c)
  | '\'' => l.readInline fun c => do
    let (text, c) ← readQuoted '\'' c
    return (.scalar .singleQuoted text, c)
  | '"' => l.readInline fun c => do
    let (text, c) ← readQuoted '"' c
    return (.scalar .doubleQuoted text, c)
  | _ =>
    if x = '-' && beforeBlank then l.readBlockEntry
    else if x = '?' && (l.inFlow || beforeBlank) then l.readKeyMark
    else if x = ':' && (l.inFlow || beforeBlank) then l.readValueMark
    else if x = '|' && !l.inFlow then l.readBlockScalar .literal
    else if x = '>' && !l.inFlow then l.readBlockScalar .folded
    else if startsPlain l.inFlow x c.next? then l.readPlainScalar
    else throw .cannotStartToken

/-- All tokens up to the end of the text, where every block is closed. -/
def readTokens : (fuel : Nat) → Layout → Except Problem (List Token)
  | 0, _ => .error .tooLong
  | fuel + 1, l => do
    let l ← (l.skipToToken (l.cursor.left + 1)).dropStaleKeyStarts
    match l.cursor.peek? with
    | none => return (← (l.closeBlocks none).dropKeyStart).tokens.reverse
    | some x => readTokens fuel (← (l.closeBlocks (some l.cursor.column)).readToken x)

end Layout

def tokens (text : String) : Except Problem (List Token) := do
  if !text.toList.all isReadable then throw .unreadableCharacter
  Layout.readTokens (text.toList.length + 1) { cursor := { rest := text.toList } }

end MetricCatalog.Yaml
