import MetricCatalog.Key.Map
import MetricCatalog.Text.Blank
/-!
# Label sets

What stands between the braces of a sample line: pairs of a name and a quoted
value, separated by commas, with blanks allowed around every token and one
comma allowed at the end.
-/

namespace MetricCatalog.Exposition

inductive LabelFault
  | unterminatedSet
  | expectedName (near : String)
  | expectedEquals (name : String)
  | expectedQuote (name : String)
  | unterminatedValue (name : String)
  | expectedSeparator (near : String)
deriving DecidableEq

namespace LabelFault

def message : LabelFault → String
  | unterminatedSet => "unterminated label set"
  | expectedName near => "expected label name at '" ++ near ++ "'"
  | expectedEquals name => "expected '=' after label '" ++ name ++ "'"
  | expectedQuote name => "expected quoted value for label '" ++ name ++ "'"
  | unterminatedValue name => "unterminated value for label '" ++ name ++ "'"
  | expectedSeparator near => "expected ',' or '\x7d' at '" ++ near ++ "'"

end LabelFault

/-- Label names are made of ASCII letters, digits and underscores. -/
def isNameChar (c : Char) : Bool := c.isAlphanum || c = '_'

/-- The start of a text, as shown in a message. -/
def near (cs : List Char) : String := String.ofList (cs.take 16)

/-- What a backslash and a character stand for inside a label value. -/
def valueEscape : Char → List Char
  | 'n' => ['\n']
  | '\\' => ['\\']
  | '"' => ['"']
  | c => ['\\', c]

/-- A label value up to its closing quote, and the text after the quote. -/
def quoted? : List Char → Option (List Char × List Char)
  | [] => none
  | '"' :: rest => some ([], rest)
  | ['\\'] => none
  | '\\' :: c :: rest => (quoted? rest).map fun (value, after) => (valueEscape c ++ value, after)
  | c :: rest => (quoted? rest).map fun (value, after) => (c :: value, after)

theorem length_lt_of_quoted? {cs value after : List Char}
    (h : quoted? cs = some (value, after)) : after.length < cs.length := by
  fun_induction quoted? cs generalizing value after with
  | case1 => cases h
  | case2 rest => cases h; simp
  | case3 => cases h
  | case4 c rest ih =>
    obtain ⟨p, hp, he⟩ := Option.map_eq_some_iff.1 h
    cases he
    have := ih hp
    simp only [List.length_cons]
    omega
  | case5 c rest _ _ _ ih =>
    obtain ⟨p, hp, he⟩ := Option.map_eq_some_iff.1 h
    cases he
    have := ih hp
    simp only [List.length_cons]
    omega

/-- One pair and the text after it.  The text does not start with a blank. -/
def pair (cs : List Char) : Except LabelFault ((String × String) × List Char) :=
  let name := String.ofList (cs.takeWhile isNameChar)
  match cs.dropWhile isNameChar with
  | [] => .error .unterminatedSet
  | c :: rest =>
    if name.isEmpty then .error (.expectedName (near cs))
    else
      match Text.trimStart (c :: rest) with
      | '=' :: rest =>
        match Text.trimStart rest with
        | '"' :: rest =>
          match quoted? rest with
          | some (value, after) => .ok ((name, String.ofList value), after)
          | none => .error (.unterminatedValue name)
        | _ => .error (.expectedQuote name)
      | _ => .error (.expectedEquals name)

private theorem length_dropWhile_le {p : Char → Bool} (cs : List Char) :
    (cs.dropWhile p).length ≤ cs.length :=
  (List.dropWhile_sublist p).length_le

theorem length_lt_of_pair {cs after : List Char} {p : String × String}
    (h : pair cs = .ok (p, after)) : after.length < cs.length := by
  unfold pair at h
  dsimp only at h
  split at h
  · cases h
  · next c rest hd =>
    split at h
    · cases h
    · split at h
      · next eq rest' ht =>
        split at h
        · next quote rest'' hq =>
          split at h
          · next value after' hv =>
            cases h
            have h1 := length_lt_of_quoted? hv
            have h2 : (Text.trimStart rest').length ≤ rest'.length := length_dropWhile_le rest'
            have h3 : (Text.trimStart (c :: rest)).length ≤ (c :: rest).length :=
              length_dropWhile_le (c :: rest)
            have h4 : (cs.dropWhile isNameChar).length ≤ cs.length := length_dropWhile_le cs
            rw [hq] at h2
            rw [ht] at h3
            rw [hd] at h4
            simp only [List.length_cons] at h2 h3 h4
            omega
          · cases h
        · cases h
      · cases h

/-- Reads pairs up to the closing brace.  The later of two pairs with one name
counts.  The answer holds the text after the brace. -/
def labelSet (labels : KeyMap String) (cs : List Char) :
    Except LabelFault (KeyMap String × List Char) :=
  match hs : Text.trimStart cs with
  | '\x7d' :: after => .ok (labels, after)
  | start =>
    match hp : pair start with
    | .error fault => .error fault
    | .ok ((name, value), rest) =>
      let labels := labels.insert name value
      match hr : Text.trimStart rest with
      | ',' :: next =>
        have : next.length < cs.length := by
          have h1 := length_lt_of_pair hp
          have h2 : (Text.trimStart cs).length ≤ cs.length := length_dropWhile_le cs
          have h3 : (Text.trimStart rest).length ≤ rest.length := length_dropWhile_le rest
          rw [hr, List.length_cons] at h3
          rw [hs] at h2
          omega
        labelSet labels next
      | '\x7d' :: after => .ok (labels, after)
      | other => .error (.expectedSeparator (near other))
termination_by cs.length

end MetricCatalog.Exposition
