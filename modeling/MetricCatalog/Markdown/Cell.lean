import MetricCatalog.Catalog.Order
import MetricCatalog.Key.Set
import MetricCatalog.Text.Blank
/-!
# Cells of a metric's table row

Help texts go into a cell on one line and with their bars escaped; labels go
into it as nested HTML lists.
-/

namespace MetricCatalog.Markdown

def backtick : Char := '\x60'

/-- Words that a help text shows as code: one a line or between commas. -/
def escapeWords (text : String) : KeySet :=
  .ofList (Text.items (fun c => c = '\n' || c = ',') text)

/-- Adds words, of which empty ones do not count. -/
def addEscapeWords (words : KeySet) (more : List String) : KeySet :=
  words.insertAll (more.filter (· ≠ ""))

/-! ## Help -/

/-- A word of a help text, as code if it is one of the words. -/
def markWord (words : KeySet) (word : List Char) : List Char :=
  if words.contains (String.ofList word) then backtick :: word ++ [backtick] else word

/-- A bar or a line break would end the cell. -/
def cellChar (c : Char) : List Char :=
  if c = '|' then ['\\', '|'] else if c = '\n' then "<br>".toList else [c]

/-- A help text is split at every single space, so its spacing stays. -/
def helpCell (words : KeySet) (help : String) : String :=
  let marked := (help.toList.splitOnP (· = ' ')).map (markWord words)
  String.ofList (([' '].intercalate marked).flatMap cellChar)

/-! ## Labels -/

def code (text : String) : String :=
  String.ofList [backtick] ++ text ++ String.ofList [backtick]

/-- A list item: a name, its description if there is one, and what is nested in
it. -/
def listItem (name desc nested : String) : String :=
  "<li>" ++ code name ++ (if desc = "" then "" else " (" ++ desc ++ ")") ++ nested ++ "</li>"

/-- Nothing at all for no items. -/
def bulletList (items : List String) : String :=
  if items.isEmpty then "" else "<ul>" ++ String.join items ++ "</ul>"

def valueItem (v : LabelValue) : String := listItem v.value v.desc ""

def labelItem (l : Label) : String :=
  listItem l.name l.desc (bulletList ((Keyed.sort l.values).map valueItem))

def labelCell (labels : List Label) : String :=
  bulletList ((Keyed.sort labels).map labelItem)

end MetricCatalog.Markdown
