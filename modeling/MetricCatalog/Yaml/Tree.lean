import MetricCatalog.Yaml.Scalar
/-!
# Documents to be written

A document is a tree of texts, words, lists and records.  It is written in
block style, with the lists of a record not indented under their field.
-/

namespace MetricCatalog.Yaml

inductive Tree
  | text (s : String)
  /-- Written as it stands, such as a truth value. -/
  | word (s : String)
  | list (items : List Tree)
  | record (fields : List (String × Tree))

namespace Tree

def flag (b : Bool) : Tree := word (if b then "true" else "false")

mutual

/-- What follows a field's colon, or stands alone: ends with a line break. -/
def write (indent : Nat) : Tree → List Char
  | text s => ' ' :: writeScalar (indent + 2) s
  | word s => ' ' :: s.toList ++ ['\n']
  | list [] => " []\n".toList
  | list items => '\n' :: writeItems indent items
  | record [] => " \x7b\x7d\n".toList
  | record fields => '\n' :: indentation (indent + 2) ++ writeFields (indent + 2) fields

/-- The items of a list, each after a dash at the indentation. -/
def writeItems (indent : Nat) : List Tree → List Char
  | [] => []
  | item :: items => indentation indent ++ '-' :: writeItem indent item ++ writeItems indent items

def writeItem (indent : Nat) : Tree → List Char
  | text s => ' ' :: writeScalar (indent + 2) s
  | word s => ' ' :: s.toList ++ ['\n']
  | list [] => " []\n".toList
  | list (item :: items) =>
    " -".toList ++ writeItem (indent + 2) item ++ writeItems (indent + 2) items
  | record [] => " \x7b\x7d\n".toList
  | record fields => ' ' :: writeFields (indent + 2) fields

/-- The fields of a record; the first is on a line already begun. -/
def writeFields (indent : Nat) : List (String × Tree) → List Char
  | [] => []
  | [(name, value)] => name.toList ++ ':' :: write indent value
  | (name, value) :: fields =>
    name.toList ++ ':' :: write indent value ++ indentation indent ++ writeFields indent fields

end

def render : Tree → String
  | text s => String.ofList (writeScalar 2 s)
  | word s => s ++ "\n"
  | list [] => "[]\n"
  | list items => String.ofList (writeItems 0 items)
  | record [] => "\x7b\x7d\n"
  | record fields => String.ofList (writeFields 0 fields)

end Tree

end MetricCatalog.Yaml
