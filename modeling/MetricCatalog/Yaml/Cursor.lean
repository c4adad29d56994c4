import MetricCatalog.Yaml.Token
/-!
# A place in a stream

The text that is left and the line and column where it starts, both counted
from zero.  Columns count characters; lengths that YAML limits count bytes.
-/

namespace MetricCatalog.Yaml

structure Cursor where
  rest : List Char
  line : Nat := 0
  column : Nat := 0
  /-- How many bytes come before. -/
  offset : Nat := 0
  /-- How many characters are left. -/
  left : Nat := rest.length
  left_eq : left = rest.length := by rfl

namespace Cursor

def peek? (c : Cursor) : Option Char := c.rest.head?

def next? (c : Cursor) : Option Char := c.rest.tail.head?

def isAtEnd (c : Cursor) : Bool := c.rest.isEmpty

def isAt (c : Cursor) (x : Char) : Bool := c.peek? = some x

def isAtBreak (c : Cursor) : Bool := c.peek?.any isBreak

def isAtSpace (c : Cursor) : Bool := c.peek?.any isSpace

def byteLength (text : List Char) : Nat := text.foldl (fun n x => n + x.utf8Size) 0

/-- Moves over characters of one line. -/
def skip (c : Cursor) (n : Nat := 1) : Cursor :=
  { rest := c.rest.drop n
    line := c.line
    column := c.column + n
    offset := c.offset + byteLength (c.rest.take n)
    left := c.left - n
    left_eq := by simp [c.left_eq] }

/-- The characters of a class that come next, none of them a line break. -/
def takeWhile (c : Cursor) (p : Char → Bool) : List Char × Cursor :=
  let taken := c.rest.takeWhile p
  (taken, c.skip taken.length)

def skipWhile (c : Cursor) (p : Char → Bool) : Cursor := (c.takeWhile p).2

/-- The line break that comes next: its text and how many characters it has. All
breaks but the line and paragraph separators read as a line feed. -/
def break? : List Char → Option (Char × Nat)
  | '\r' :: '\n' :: _ => some ('\n', 2)
  | b :: _ =>
    if b = '\u2028' || b = '\u2029' then some (b, 1)
    else if isBreak b then some ('\n', 1)
    else none
  | [] => none

def takeBreak (c : Cursor) : List Char × Cursor :=
  match break? c.rest with
  | some (b, n) => ([b], { c.skip n with line := c.line + 1, column := 0 })
  | none => ([], c)

def skipBreak (c : Cursor) : Cursor := c.takeBreak.2

def skipByteOrderMark (c : Cursor) : Cursor :=
  if c.column = 0 && c.isAt '\uFEFF' then c.skip else c

def skipComment (c : Cursor) : Cursor :=
  if c.isAt '#' then c.skipWhile (!isBreak ·) else c

/-- Blanks and a comment up to the end of the line, which they have to reach. -/
def skipLineEnd (c : Cursor) (problem : Problem) : Except Problem Cursor :=
  let c := (c.skipWhile isSpace).skipComment
  if c.isAtEnd || c.isAtBreak then .ok c.skipBreak else .error problem

/-- At the start of a line, three equal marks and the end of a word. -/
def isAtDocumentMark (c : Cursor) (mark : Char) : Bool :=
  c.column = 0 && c.rest.take 3 = [mark, mark, mark] && endsWord (c.rest.drop 3).head?

def isAtAnyDocumentMark (c : Cursor) : Bool :=
  c.isAtDocumentMark '-' || c.isAtDocumentMark '.'

end Cursor

end MetricCatalog.Yaml
