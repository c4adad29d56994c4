import MetricCatalog.Yaml.Cursor
/-!
# Anchors, tags and directives

The marks before a node that name it or its type, and the lines before a
document that say how to read it.
-/

namespace MetricCatalog.Yaml

/-! ## Anchors and aliases -/

def readAnchorName (c : Cursor) : Except Problem (String × Cursor) := do
  let (name, c) := c.skip.takeWhile isWordChar
  let ended := endsWord c.peek? ||
    c.peek?.any (fun x => "?:,]\x7d%@".toList.contains x || x.toNat == 0x60)
  if name.isEmpty || !ended then throw .badAnchor
  return (String.ofList name, c)

/-! ## Tags -/

/-- Characters of a tag; within angle brackets and in directives also commas
and brackets. -/
def isUriChar (bracketed : Bool) (c : Char) : Bool :=
  isWordChar c || ";/?:@&=+$.%!~*'()".toList.contains c ||
    (bracketed && (c = ',' || c = '[' || c = ']'))

/-- How many bytes the first byte of an encoded character announces. -/
def encodedLength? (lead : Nat) : Option Nat :=
  if lead < 0x80 then some 1
  else if lead / 0x20 = 0x6 then some 2
  else if lead / 0x10 = 0xE then some 3
  else if lead / 0x08 = 0x1E then some 4
  else none

/-- Bytes of one character, each a percent sign and two digits: so many more,
or, before the first, as many as that announces. -/
def readUriEscape : (fuel : Nat) → (left : Option Nat) → List UInt8 → Cursor →
    Except Problem (List UInt8 × Cursor)
  | 0, _, _, _ => .error .tooLong
  | fuel + 1, left, bytes, c =>
    match c.rest with
    | '%' :: a :: b :: _ =>
      let byte := 16 * hexValue a + hexValue b
      if !(isHexDigit a && isHexDigit b) || (left.isSome && byte / 0x40 ≠ 2) then .error .badTag
      else
        match left <|> encodedLength? byte with
        | none => .error .badTag
        | some n =>
          let bytes := bytes ++ [UInt8.ofNat byte]
          if n ≤ 1 then .ok (bytes, c.skip 3) else readUriEscape fuel (some (n - 1)) bytes (c.skip 3)
    | _ => .error .badTag

/-- The bytes of a tag's part, which are gathered last one first. -/
def readUri (bracketed : Bool) : (fuel : Nat) → List UInt8 → Cursor →
    Except Problem (List UInt8 × Cursor)
  | 0, bytes, c => .ok (bytes.reverse, c)
  | fuel + 1, bytes, c =>
    match c.peek? with
    | none => .ok (bytes.reverse, c)
    | some x =>
      if !isUriChar bracketed x then .ok (bytes.reverse, c)
      else if x = '%' then do
        let (escaped, c) ← readUriEscape 4 none [] c
        readUri bracketed fuel (escaped.reverseAux bytes) c
      else readUri bracketed fuel (x.val.toUInt8 :: bytes) c.skip

/-- A part of a tag, which a NUL ends. -/
def readTagPart (bracketed : Bool) (c : Cursor) : Except Problem (List UInt8 × Cursor) := do
  let (bytes, after) ← readUri bracketed c.left [] c
  return (bytes.takeWhile (· ≠ 0), after)

/-- An exclamation mark and word characters, and whether a second mark closes
them. -/
def readTagHandle (c : Cursor) : Except Problem (List Char × Bool × Cursor) := do
  if !c.isAt '!' then throw .badTag
  let (word, c) := c.skip.takeWhile isWordChar
  return if c.isAt '!' then (word, true, c.skip) else (word, false, c)

def closedHandle (word : List Char) : String := String.ofList ('!' :: word ++ ['!'])

def asciiBytes (cs : List Char) : List UInt8 := cs.map (·.val.toUInt8)

/-- A tag: the handle, empty if the suffix is the whole tag, and the suffix. -/
def readTag (inFlow : Bool) (c : Cursor) : Except Problem (String × List UInt8 × Cursor) := do
  let (handle, suffix, c) ←
    if c.next? = some '<' then do
      let start := c.skip 2
      let (uri, c) ← readTagPart true start
      if c.left = start.left || !c.isAt '>' then throw .badTag
      pure ("", uri, c.skip)
    else do
      let (word, closed, start) ← readTagHandle c
      let (uri, c) ← readTagPart false start
      if closed then
        if c.left = start.left then throw .badTag
        pure (closedHandle word, uri, c)
      else
        let suffix := asciiBytes word ++ uri
        if suffix.isEmpty then pure ("", asciiBytes ['!'], c) else pure ("!", suffix, c)
  if !(endsWord c.peek? || (inFlow && c.isAt ',')) then throw .badTag
  return (handle, suffix, c)

/-! ## Directives -/

def readVersionNumber (c : Cursor) : Except Problem (Nat × Cursor) := do
  let (digits, c) := c.takeWhile Char.isDigit
  if digits.isEmpty || digits.length > 9 then throw .badDirective
  return (digits.foldl (fun n d => 10 * n + hexValue d) 0, c)

def readVersion (c : Cursor) : Except Problem (Token × Cursor) := do
  let (major, c) ← readVersionNumber (c.skipWhile isSpace)
  if !c.isAt '.' then throw .badDirective
  let (minor, c) ← readVersionNumber c.skip
  return (.versionDirective major minor, c)

def readTagDeclaration (c : Cursor) : Except Problem (Token × Cursor) := do
  let (word, closed, c) ← readTagHandle (c.skipWhile isSpace)
  if !(closed || word.isEmpty) || !c.isAtSpace then throw .badDirective
  let start := c.skipWhile isSpace
  let (lead, c) ← readTagPart true start
  if c.left = start.left || !endsWord c.peek? then throw .badDirective
  return (.tagDirective (if closed then closedHandle word else "!") lead, c)

def readDirective (c : Cursor) : Except Problem (Token × Cursor) := do
  let (name, c) := c.skip.takeWhile isWordChar
  if !endsWord c.peek? then throw .badDirective
  let (token, c) ←
    match String.ofList name with
    | "YAML" => readVersion c
    | "TAG" => readTagDeclaration c
    | _ => throw .badDirective
  return (token, ← c.skipLineEnd .badDirective)

end MetricCatalog.Yaml
