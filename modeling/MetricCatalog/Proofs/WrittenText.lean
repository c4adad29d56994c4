import MetricCatalog.Proofs.KeyLookup
import MetricCatalog.Proofs.LineByLine
import MetricCatalog.Proofs.SampleText
import Mathlib.Data.List.Forall2
/-!
# Snapshots in writing

A family is written as a help line, a type line and a line for each sample.  The
writer is free in the spelling of the type, in the order of labels, in a comma
after the last of them and in a time after the value.  Each line so written reads
as what it was written for.
-/

namespace MetricCatalog.Exposition

open Text

/-! ## Escapes -/

def helpEscape (c : Char) : List Char :=
  if c = '\\' then ['\\', '\\'] else if c = '\n' then ['\\', 'n'] else [c]

def escapeHelp (cs : List Char) : List Char := cs.flatMap helpEscape

/-- A label value stands in quotes, so a quote is escaped too. -/
def quoteEscape (c : Char) : List Char := if c = '"' then ['\\', '"'] else helpEscape c

def escapeValue (cs : List Char) : List Char := cs.flatMap quoteEscape

theorem unescapeHelp_cons {c : Char} (h : c ≠ '\\') (cs : List Char) :
    unescapeHelp (c :: cs) = c :: unescapeHelp cs := by
  rw [unescapeHelp]
  · exact fun hc => absurd hc h
  · exact fun _ hc => absurd hc h
  · exact fun _ hc => absurd hc h
  · exact fun _ _ hc => absurd hc h

theorem unescapeHelp_escapeHelp (cs : List Char) : unescapeHelp (escapeHelp cs) = cs := by
  induction cs with
  | nil => rfl
  | cons c cs ih =>
      rw [escapeHelp, List.flatMap_cons, ← escapeHelp, helpEscape]
      split
      · next h => rw [h]; exact congrArg _ ih
      · split
        · next h => rw [h]; exact congrArg _ ih
        · next h _ => rw [List.singleton_append, unescapeHelp_cons h, ih]

/-- An escaped character is read as itself. -/
theorem quoted?_quoteEscape (c : Char) (cs : List Char) :
    quoted? (quoteEscape c ++ cs) = (quoted? cs).map fun (value, after) => (c :: value, after) := by
  rw [quoteEscape]
  split
  · next h => rw [h]; exact quoted?_escape
  · next hquote =>
    rw [helpEscape]
    split
    · next h => rw [h]; exact quoted?_escape
    · next hslash =>
      split
      · next h => rw [h]; exact quoted?_escape
      · exact quoted?_cons hquote hslash

theorem quoted?_escapeValue (cs rest : List Char) :
    quoted? (escapeValue cs ++ '"' :: rest) = some (cs, rest) := by
  induction cs with
  | nil => rfl
  | cons c cs ih =>
      rw [escapeValue, List.flatMap_cons, ← escapeValue, List.append_assoc, quoted?_quoteEscape, ih]
      rfl

theorem newline_not_mem_helpEscape (c : Char) : '\n' ∉ helpEscape c := by
  rw [helpEscape]
  split
  · decide
  · split
    · decide
    · next h => simpa [eq_comm] using h

theorem newline_not_mem_escapeHelp (cs : List Char) : '\n' ∉ escapeHelp cs := by
  simp [escapeHelp, newline_not_mem_helpEscape]

theorem newline_not_mem_escapeValue (cs : List Char) : '\n' ∉ escapeValue cs := by
  have hone : ∀ c, '\n' ∉ quoteEscape c := fun c => by
    rw [quoteEscape]
    split
    · decide
    · exact newline_not_mem_helpEscape c
  simp [escapeValue, hone]

/-! ## The forms of a snapshot -/

/-- How a sample is written. -/
structure SampleForm where
  /-- The labels, in their order on the line. -/
  pairs : List (String × String)
  /-- The braces may be left out when they would hold nothing. -/
  braces : Bool := true
  /-- Another comma after the last label. -/
  comma : Bool := false
  token : String
  time : Option String := none

structure FamilyForm where
  tag : String
  samples : List SampleForm

def pairText (p : String × String) : List Char :=
  p.1.toList ++ '=' :: '"' :: (escapeValue p.2.toList ++ ['"'])

/-- The pairs and the closing brace. -/
def setText (comma : Bool) : List (String × String) → List Char
  | [] => ['\x7d']
  | [p] => pairText p ++ if comma then [',', '\x7d'] else ['\x7d']
  | p :: q :: ps => pairText p ++ ',' :: setText comma (q :: ps)

namespace SampleForm

def labelText (form : SampleForm) : List Char :=
  if form.braces then '\x7b' :: setText form.comma form.pairs else []

def timeText (form : SampleForm) : List Char :=
  match form.time with
  | some time => ' ' :: time.toList
  | none => []

def line (form : SampleForm) (name : String) : List Char :=
  name.toList ++ (form.labelText ++ ' ' :: (form.token.toList ++ form.timeText))

/-- The form is one for the sample. -/
structure Writes (form : SampleForm) (s : Sample) : Prop where
  pairs : form.pairs.Perm s.labels.entries
  braces : form.braces = false → form.pairs = []
  token : Double.parse? form.token = some s.value
  time : ∀ time ∈ form.time, '\n' ∉ time.toList

end SampleForm

def declarationLine (word name : String) (text : List Char) : List Char :=
  '#' :: ' ' :: (word.toList ++ (name.toList ++ ' ' :: text))

namespace FamilyForm

def lines (form : FamilyForm) (f : Family) : List (List Char) :=
  declarationLine "HELP " f.name (escapeHelp f.help.toList) ::
    declarationLine "TYPE " f.name form.tag.toList :: form.samples.map (·.line f.name)

structure Writes (form : FamilyForm) (f : Family) : Prop where
  tag : Kind.parse form.tag = .ok f.kind
  samples : List.Forall₂ SampleForm.Writes form.samples f.samples

end FamilyForm

/-- The text of lines that each end in a line break. -/
def joinLines (ls : List (List Char)) : String := String.ofList (ls.flatMap (· ++ ['\n']))

def writtenText (fs : List (Family × FamilyForm)) : String :=
  joinLines (fs.flatMap fun p => p.2.lines p.1)

/-- A label name, which is written as it is. -/
def NamesLabel (label : String) : Prop :=
  label.toList ≠ [] ∧ ∀ c ∈ label.toList, isNameChar c = true

instance (label : String) : Decidable (NamesLabel label) :=
  inferInstanceAs (Decidable (_ ∧ _))

/-- What keeps a family in writing apart from the rest of a line, and its samples
apart from those that are read with fewer labels. -/
structure Expressible (f : Family) : Prop where
  name : IsSeries f.name
  help_head : ∀ c ∈ f.help.toList.head?, isBlank c = true → c = '\n'
  help_last : ∀ c ∈ f.help.toList.getLast?, isBlank c = true → c = '\n'
  labels : ∀ s ∈ f.samples, ∀ label ∈ s.labels.keys, NamesLabel label
  bounds : f.kind = .histogram ∨ f.kind = .gaugeHistogram → "_bucket".toList <:+ f.name.toList →
    ∀ s ∈ f.samples, "le" ∉ s.labels.keys
  quantiles : f.kind = .summary → ∀ s ∈ f.samples, "quantile" ∉ s.labels.keys

/-! ## Declarations -/

section

variable {cs text : List Char} {name tag : String}

theorem trimmed_escapeHelp (hhead : ∀ c ∈ cs.head?, isBlank c = true → c = '\n')
    (hlast : ∀ c ∈ cs.getLast?, isBlank c = true → c = '\n') : Trimmed (escapeHelp cs) := by
  -- what a character at an edge is escaped to has an edge that is no blank
  have hone : ∀ c, (isBlank c = true → c = '\n') → helpEscape c ≠ [] ∧ Trimmed (helpEscape c) := by
    intro c hc
    rw [helpEscape]
    split
    · exact ⟨by decide, by constructor <;> decide⟩
    · split
      · exact ⟨by decide, by constructor <;> decide⟩
      · next hnewline =>
        have hblank : isBlank c = false := by
          rw [← Bool.not_eq_true]
          exact fun h => hnewline (hc h)
        exact ⟨List.cons_ne_nil _ _, trimmed_of_solid (by simpa [Solid] using hblank)⟩
  constructor
  · intro c hc
    cases cs with
    | nil => cases hc
    | cons first cs =>
        obtain ⟨hne, htrimmed⟩ := hone first (hhead first rfl)
        rw [escapeHelp, List.flatMap_cons, List.head?_append_of_ne_nil _ hne] at hc
        exact htrimmed.head c hc
  · intro c hc
    rcases List.eq_nil_or_concat cs with rfl | ⟨init, last, rfl⟩
    · cases hc
    · obtain ⟨hne, htrimmed⟩ := hone last (hlast last (by simp))
      rw [escapeHelp, List.concat_eq_append, List.flatMap_append, List.flatMap_singleton,
        List.getLast?_append_of_ne_nil _ hne] at hc
      exact htrimmed.last c hc

theorem IsSeries.solid (h : IsSeries name) : Solid name.toList :=
  fun c hc => (isBlank_of_isSeriesChar (h.chars c hc)).1

theorem parse_declarationLine (h : IsSeries name) {word : String}
    (hword : ∀ rest, trimStart (word.toList ++ rest) = word.toList ++ rest) :
    Line.parse (declarationLine word name text) =
      Line.comment (word.toList ++ (name.toList ++ trimEnd (' ' :: text))) := by
  have htrim : trim (declarationLine word name text) =
      '#' :: ' ' :: (word.toList ++ (name.toList ++ trimEnd (' ' :: text))) := by
    have hsplit : declarationLine word name text =
        ('#' :: ' ' :: word.toList) ++ name.toList ++ ' ' :: text := by
      simp [declarationLine]
    rw [trim, declarationLine, trimStart_cons (by decide), ← declarationLine, hsplit,
      trimEnd_append_solid h.ne_nil h.solid]
    simp
  have hstart : trimStart (' ' :: (word.toList ++ (name.toList ++ trimEnd (' ' :: text)))) =
      word.toList ++ (name.toList ++ trimEnd (' ' :: text)) := hword _
  rw [Line.parse, htrim]
  simp only [hstart]

theorem splitWord_declaration (h : IsSeries name) (htext : Trimmed text) :
    splitWord (name.toList ++ trimEnd (' ' :: text)) = (name.toList, text) := by
  have hblank : StartsBlank (trimEnd (' ' :: text)) := startsBlank_trimEnd (by rintro _ ⟨⟩; rfl)
  have hword : splitWord ([] ++ name.toList ++ trimEnd (' ' :: text)) =
      (name.toList, trimStart (trimEnd (' ' :: text))) :=
    splitWord_append blank_nil h.solid h.ne_nil hblank
  rw [htext.trimStart_trimEnd] at hword
  exact hword

theorem parse_helpLine (h : IsSeries name) {help : String}
    (hhelp : Trimmed (escapeHelp help.toList)) :
    Line.parse (declarationLine "HELP " name (escapeHelp help.toList)) = .ok (.help name help) := by
  rw [parse_declarationLine h fun _ => rfl, Line.comment, dropLead?_eq_some_iff.2 rfl]
  simp only [splitWord_declaration h hhelp, unescapeHelp_escapeHelp, String.ofList_toList]

/-- Each spelling of a kind is one word. -/
theorem solid_of_kind {k : Kind} (h : Kind.parse tag = .ok k) : Solid tag.toList := by
  have hlower : ∀ c ∈ tag.toList.map Char.toLower, Double.Plain c := by
    rw [← String.toList_ofList (l := tag.toList.map Char.toLower)]
    unfold Kind.parse at h
    split at h
    case h_9 => cases h
    all_goals next heq => rw [heq]; decide
  exact fun c hc => (Double.plain_of_map_toLower rfl hlower c hc).1

theorem parse_kindLine (h : IsSeries name) {k : Kind} (htag : Kind.parse tag = .ok k) :
    Line.parse (declarationLine "TYPE " name tag.toList) = .ok (.kind name k) := by
  have htrimmed : Trimmed tag.toList := trimmed_of_solid (solid_of_kind htag)
  have hhelp : dropLead? "HELP ".toList
      ("TYPE ".toList ++ (name.toList ++ trimEnd (' ' :: tag.toList))) = none := rfl
  rw [parse_declarationLine h fun _ => rfl, Line.comment, hhelp, dropLead?_eq_some_iff.2 rfl]
  simp only [splitWord_declaration h htrimmed, htrimmed.trim_eq, String.ofList_toList, htag]

end

/-! ## Samples -/

section

variable {p : String × String} {pairs : List (String × String)} {form : SampleForm} {s : Sample}
  {name : String}

theorem pairText_of_name (h : NamesLabel p.1) : PairText p (pairText p) :=
  .mk h.1 h.2 blank_nil blank_nil (quoted?_escapeValue _ [])

theorem setText_of_names (comma : Bool) (h : ∀ p ∈ pairs, NamesLabel p.1) (labels : KeyMap String) :
    SetText labels (pairs.foldl (fun m e => m.insert e.1 e.2) labels) (setText comma pairs) := by
  induction pairs generalizing labels with
  | nil => exact .close blank_nil
  | cons p pairs ih =>
      have hp := pairText_of_name (h p (List.mem_cons_self ..))
      cases pairs with
      | nil =>
          cases comma with
          | false => exact .last blank_nil hp blank_nil
          | true => exact .next blank_nil hp blank_nil (.close blank_nil)
      | cons q ps =>
          exact .next blank_nil hp blank_nil (ih (fun p hp => h p (List.mem_cons_of_mem _ hp)) _)

theorem SampleForm.Writes.names (h : form.Writes s)
    (hlabels : ∀ label ∈ s.labels.keys, NamesLabel label) : ∀ p ∈ form.pairs, NamesLabel p.1 :=
  fun p hp => hlabels p.1 (List.mem_map_of_mem (h.pairs.mem_iff.1 hp))

/-- The line of a sample, in parts. -/
theorem SampleForm.Writes.exists_head (h : form.Writes s) (hname : IsSeries name)
    (hlabels : ∀ label ∈ s.labels.keys, NamesLabel label) :
    ∃ before, SampleHead name s.labels before ∧
      form.line name = before ++ (form.token.toList ++ form.timeText) := by
  have hgap : Blank [' '] := by decide
  cases hbraces : form.braces with
  | true =>
      have hset := setText_of_names form.comma (h.names hlabels) .empty
      rw [← KeyMap.ofList, KeyMap.ofList_of_perm h.pairs] at hset
      refine ⟨_, .labelled hname blank_nil blank_nil hset hgap, ?_⟩
      simp [line, labelText, hbraces]
  | false =>
      have hempty : s.labels = .empty := by
        rw [← KeyMap.ofList_of_perm h.pairs, h.braces hbraces]
        rfl
      rw [hempty]
      refine ⟨_, .bare hname blank_nil hgap (by decide), ?_⟩
      simp [line, labelText, hbraces]

theorem SampleForm.startsBlank_timeText (form : SampleForm) : StartsBlank form.timeText := by
  unfold timeText
  split <;> rintro _ ⟨⟩
  rfl

theorem SampleForm.Writes.parse_line (h : form.Writes s) (hname : IsSeries name)
    (hlabels : ∀ label ∈ s.labels.keys, NamesLabel label) :
    Line.parse (form.line name) = .ok (.sample name s.labels s.value) := by
  obtain ⟨before, hhead, hline⟩ := h.exists_head hname hlabels
  rw [hline]
  exact hhead.parse_append (by rw [String.ofList_toList, h.token]) form.startsBlank_timeText

end

/-! ## Line breaks -/

theorem newline_not_mem_of_solid {cs : List Char} (h : Solid cs) : '\n' ∉ cs :=
  fun hmem => absurd (h _ hmem) (by decide)

theorem newline_not_mem_setText {comma : Bool} {pairs : List (String × String)}
    (h : ∀ p ∈ pairs, NamesLabel p.1) : '\n' ∉ setText comma pairs := by
  have hpair : ∀ p ∈ pairs, '\n' ∉ pairText p := fun p hp => by
    have hlabel : '\n' ∉ p.1.toList := fun hmem => absurd ((h p hp).2 _ hmem) (by decide)
    simp [pairText, hlabel, newline_not_mem_escapeValue]
  induction pairs with
  | nil => simp [setText]
  | cons p pairs ih =>
      have hp := hpair p (List.mem_cons_self ..)
      cases pairs with
      | nil => cases comma <;> simp [setText, hp]
      | cons q ps =>
          have hrest := ih (fun p hp => h p (List.mem_cons_of_mem _ hp))
            fun p hp => hpair p (List.mem_cons_of_mem _ hp)
          simp [setText, hp, hrest]

theorem SampleForm.Writes.newline_not_mem_line {form : SampleForm} {s : Sample} {name : String}
    (h : form.Writes s) (hname : IsSeries name)
    (hlabels : ∀ label ∈ s.labels.keys, NamesLabel label) : '\n' ∉ form.line name := by
  have htoken : '\n' ∉ form.token.toList :=
    newline_not_mem_of_solid (Double.solid_of_parse? (by rw [String.ofList_toList, h.token])).2.1
  have hset : '\n' ∉ form.labelText := by
    rw [labelText]
    split
    · simp [newline_not_mem_setText (h.names hlabels)]
    · exact List.not_mem_nil
  have htime : '\n' ∉ form.timeText := by
    rw [timeText]
    split
    · next time heq => simp [h.time time heq]
    · exact List.not_mem_nil
  simp [line, newline_not_mem_of_solid hname.solid, hset, htoken, htime]

theorem newline_not_mem_declarationLine {word name : String} {text : List Char}
    (hword : '\n' ∉ word.toList) (hname : IsSeries name) (htext : '\n' ∉ text) :
    '\n' ∉ declarationLine word name text := by
  simp [declarationLine, hword, newline_not_mem_of_solid hname.solid, htext]

theorem lines_joinLines {ls : List (List Char)} (h : ∀ cs ∈ ls, '\n' ∉ cs) :
    lines (joinLines ls) = ls ++ [[]] := by
  rw [lines, joinLines, String.toList_ofList]
  induction ls with
  | nil => rfl
  | cons cs ls ih =>
      obtain ⟨hcs, hls⟩ := List.forall_mem_cons.1 h
      rw [List.flatMap_cons, List.append_assoc, List.singleton_append,
        List.splitOn_append_cons_self_of_not_mem hcs, ih hls]
      rfl

/-! ## Families -/

/-- What the lines of a family say. -/
def block (f : Family) : List Line :=
  .help f.name f.help :: .kind f.name f.kind ::
    f.samples.map fun s => .sample f.name s.labels s.value

section

variable {f : Family} {form : FamilyForm}

theorem Expressible.trimmed_help (h : Expressible f) : Trimmed (escapeHelp f.help.toList) :=
  trimmed_escapeHelp h.help_head h.help_last

theorem reads_sampleLines {name : String} (hname : IsSeries name) {forms : List SampleForm}
    {ss : List Sample} (h : List.Forall₂ SampleForm.Writes forms ss)
    (hlabels : ∀ s ∈ ss, ∀ label ∈ s.labels.keys, NamesLabel label) :
    Reads (forms.map (·.line name)) (ss.map fun s => .sample name s.labels s.value) ∧
      ∀ cs ∈ forms.map (·.line name), '\n' ∉ cs := by
  induction h with
  | nil => exact ⟨rfl, fun _ h => nomatch h⟩
  | cons hwrites _ ih =>
      obtain ⟨hs, hss⟩ := List.forall_mem_cons.1 hlabels
      obtain ⟨hreads, hlines⟩ := ih hss
      constructor
      · exact reads_cons.2 ⟨_, _, hwrites.parse_line hname hs, hreads, rfl⟩
      · exact List.forall_mem_cons.2 ⟨hwrites.newline_not_mem_line hname hs, hlines⟩

theorem FamilyForm.Writes.reads (h : form.Writes f) (hf : Expressible f) :
    Reads (form.lines f) (block f) ∧ ∀ cs ∈ form.lines f, '\n' ∉ cs := by
  obtain ⟨hreads, hlines⟩ := reads_sampleLines hf.name h.samples hf.labels
  have htag := newline_not_mem_of_solid (solid_of_kind h.tag)
  constructor
  · exact reads_cons.2 ⟨_, _, parse_helpLine hf.name hf.trimmed_help,
      reads_cons.2 ⟨_, _, parse_kindLine hf.name h.tag, hreads, rfl⟩, rfl⟩
  · refine List.forall_mem_cons.2 ⟨?_, List.forall_mem_cons.2 ⟨?_, hlines⟩⟩
    · exact newline_not_mem_declarationLine (by decide) hf.name (newline_not_mem_escapeHelp _)
    · exact newline_not_mem_declarationLine (by decide) hf.name htag

/-- A written text reads as the lines of its families, and an empty line. -/
theorem reads_writtenText {fs : List (Family × FamilyForm)}
    (h : ∀ p ∈ fs, Expressible p.1 ∧ p.2.Writes p.1) :
    Reads (lines (writtenText fs)) (fs.flatMap (fun p => block p.1) ++ [.silent]) := by
  have hblocks : Reads (fs.flatMap fun p => p.2.lines p.1) (fs.flatMap fun p => block p.1) := by
    induction fs with
    | nil => rfl
    | cons p fs ih =>
        obtain ⟨⟨hexpr, hwrites⟩, hrest⟩ := List.forall_mem_cons.1 h
        exact reads_append.2 ⟨_, _, (hwrites.reads hexpr).1, ih hrest, rfl⟩
  have hlines : ∀ cs ∈ fs.flatMap fun p => p.2.lines p.1, '\n' ∉ cs := fun cs hcs => by
    obtain ⟨p, hp, hcs⟩ := List.mem_flatMap.1 hcs
    exact ((h p hp).2.reads (h p hp).1).2 cs hcs
  have hend : Reads [[]] [.silent] := rfl
  rw [writtenText, lines_joinLines hlines]
  exact reads_append.2 ⟨_, _, hblocks, hend, rfl⟩

end

end MetricCatalog.Exposition
