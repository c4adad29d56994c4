import MetricCatalog.CommandLine.Option
import MetricCatalog.Config.Basic
/-!
# Invocations

The three commands with their options.  An option that is given overrides the
configuration, and the environment stands in for the labels without values.
-/

namespace MetricCatalog.CommandLine

structure ObserveOptions where
  unfixedLabels : List String := []
  stemSegments : Option Nat := none
  since : Option String := none
  timeoutSeconds : Option Nat := none
deriving DecidableEq

structure SyncOptions where
  source : String
  catalog : Option String := none
  markdown : Option String := none
  escapeWordsFile : Option String := none
  version : Option String := none
  /-- Entries after the last key of the catalog are not taken in. -/
  legacyTail : Bool := false
  dryRun : Bool := false
  json : Bool := false
  observe : ObserveOptions := {}
deriving DecidableEq

structure RenderOptions where
  catalog : Option String := none
  markdown : Option String := none
  escapeWordsFile : Option String := none
deriving DecidableEq

structure InspectOptions where
  source : String
  observe : ObserveOptions := {}
deriving DecidableEq

inductive Command
  | sync (options : SyncOptions)
  | render (options : RenderOptions)
  | inspect (options : InspectOptions)
deriving DecidableEq

structure Invocation where
  command : Command
  config : Option String := none
  verbose : Bool := false
  logJson : Bool := false
deriving DecidableEq

/-! ## Applying options -/

def ObserveOptions.apply (o : ObserveOptions) (c : Config) : Config :=
  let named := (o.unfixedLabels.map fun l => String.ofList (Text.trim l.toList)).filter (· ≠ "")
  { c with
    timeoutSeconds := o.timeoutSeconds.getD c.timeoutSeconds
    sync := { c.sync with
      unfixedLabels := if named.isEmpty then c.sync.unfixedLabels else named
      stemSegments := o.stemSegments.getD c.sync.stemSegments
      since := o.since <|> c.sync.since } }

def SyncOptions.apply (o : SyncOptions) (c : Config) : Config :=
  let c := o.observe.apply c
  { c with
    catalog := o.catalog.getD c.catalog
    markdown := o.markdown <|> c.markdown
    escapeWordsFile := o.escapeWordsFile <|> c.escapeWordsFile
    version := o.version <|> c.version
    sync := { c.sync with tail := if o.legacyTail then .truncate else c.sync.tail } }

def RenderOptions.apply (o : RenderOptions) (c : Config) : Config :=
  { c with
    catalog := o.catalog.getD c.catalog
    markdown := o.markdown <|> c.markdown
    escapeWordsFile := o.escapeWordsFile <|> c.escapeWordsFile }

/-! ## What is accepted -/

def path (name : String) : OptionSpec := { name, role := .value .path }
def text (name : String) : OptionSpec := { name, role := .value .text }
def count (name : String) : OptionSpec := { name, role := .value .count }
def flag (name : String) : OptionSpec := { name, role := .flag }

/-- Options of every command, before and after its name. -/
def commonOptions : List OptionSpec :=
  [path "config", { name := "verbose", role := .flag, short := some 'v' }, flag "log-json",
   { name := "help", role := .help, short := some 'h' }]

def observeOptions : List OptionSpec :=
  [{ name := "unfixed-label", role := .values }, count "prefix-segments", text "since",
   count "timeout"]

def outer : Grammar where
  options := { name := "version", role := .version, short := some 'V' } :: commonOptions
  commands := ["sync", "render", "inspect", "help"]

def syncGrammar : Grammar where
  options :=
    [path "catalog", path "markdown", path "escape-words-file", text "catalog-version",
     flag "legacy-tail", flag "dry-run", flag "json"] ++ observeOptions ++ commonOptions
  operands := 1

def renderGrammar : Grammar where
  options := [path "catalog", path "markdown", path "escape-words-file"] ++ commonOptions

def inspectGrammar : Grammar where
  options := observeOptions ++ commonOptions
  operands := 1

/-! ## Reading -/

def Given.count? (g : Given) (name : String) : Option Nat :=
  (g.value? name).bind CommandLine.count?

/-- `ignored` are the labels that the environment names. -/
def Given.observe (g : Given) (ignored : Option String) : ObserveOptions where
  unfixedLabels :=
    if g.has "unfixed-label" then g.values "unfixed-label"
    else (ignored.map commaSeparated).getD []
  stemSegments := g.count? "prefix-segments"
  since := g.value? "since"
  timeoutSeconds := g.count? "timeout"

def Given.source (g : Given) : Except UsageError String :=
  match g.operands.head? with
  | some source => .ok source
  | none => .error .missingOperand

def Command.read (ignored : Option String) (name : String) (words : List String) :
    Except UsageError (Command × Given) := do
  match name with
  | "sync" =>
    let g ← syncGrammar.readAll words
    let options : SyncOptions := {
      source := ← g.source
      catalog := g.value? "catalog"
      markdown := g.value? "markdown"
      escapeWordsFile := g.value? "escape-words-file"
      version := g.value? "catalog-version"
      legacyTail := g.has "legacy-tail"
      dryRun := g.has "dry-run"
      json := g.has "json"
      observe := g.observe ignored }
    return (.sync options, g)
  | "render" =>
    let g ← renderGrammar.readAll words
    let options : RenderOptions := {
      catalog := g.value? "catalog"
      markdown := g.value? "markdown"
      escapeWordsFile := g.value? "escape-words-file" }
    return (.render options, g)
  | "inspect" =>
    let g ← inspectGrammar.readAll words
    return (.inspect { source := ← g.source, observe := g.observe ignored }, g)
  | _ => throw .unknownCommand

def helpFor (words : List String) : UsageError :=
  if words.length ≤ 1 && words.all outer.commands.contains then .helpRequested
  else .unknownCommand

/-- The words after the program's name.  What is given after the command wins
over what is given before it, and its errors come first. -/
def Invocation.read (words : List String) (ignored : Option String) :
    Except UsageError Invocation := do
  match ← outer.read {} words with
  | (g, none) =>
    let g ← g.resolve
    throw (if g.options.isEmpty then .nothingGiven else .missingCommand)
  | (_, some ("help", words)) => throw (helpFor words)
  | (before, some (name, words)) =>
    let (command, after) ← Command.read ignored name words
    let before ← before.resolve
    return {
      command
      config := after.value? "config" <|> before.value? "config"
      verbose := before.has "verbose" || after.has "verbose"
      logJson := before.has "log-json" || after.has "log-json" }

end MetricCatalog.CommandLine
