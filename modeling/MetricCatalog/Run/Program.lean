import MetricCatalog.Run.Command
/-!
# The program

What a command line prints and how it exits.
-/

namespace MetricCatalog.Run

open CommandLine (Invocation UsageError)

/-- The end of a run: its exit code and what it wrote to each stream. -/
structure Exit where
  code : UInt8
  output : String := ""
  errors : String := ""
deriving DecidableEq

def versionText : String := "mcat 0.1.0\n"

def usageText : String :=
  "Usage: mcat [--config <file>] [-v] [--log-json] <command>\n\n" ++
  "Commands:\n" ++
  "  sync <source>     take a metrics snapshot into the catalog\n" ++
  "  render            write the catalog as Markdown\n" ++
  "  inspect <source>  print the catalog of a snapshot\n"

def usageMessage : UsageError → String
  | .nothingGiven | .missingCommand => "a command is required"
  | .unknownCommand => "unknown command"
  | .unknownArgument => "unexpected argument"
  | .missingOperand => "a source is required"
  | .missingValue => "an option needs a value"
  | .badNumber => "a value is not a number"
  | .repeatedOption => "an option is given twice"
  | .unexpectedValue => "a flag takes no value"
  | .helpRequested | .versionRequested => ""

/-- Help and the version are answers; all else is a mistake. -/
def Exit.ofUsageError : UsageError → Exit
  | .helpRequested => { code := 0, output := usageText }
  | .versionRequested => { code := 0, output := versionText }
  | e => { code := 2, errors := "error: " ++ usageMessage e ++ "\n\n" ++ usageText }

def Exit.ofFailure (f : Failure) : Exit where
  code := 1
  errors := "error: " ++ ": ".intercalate f.chain ++ "\n"

variable {m : Type → Type} [Monad m] [Host m]

def output (i : Invocation) : ExceptT Failure m String := do
  let config ← (Config.load i.config).adapt .config
  match i.command with
  | .sync options =>
    let summary ← sync options config
    return (if options.json then summary.toJson.render else summary.text) ++ "\n"
  | .render options => return "Rendered " ++ (← render options config) ++ "\n"
  | .inspect options => return (← inspect options config).render

/-- Runs a command line.  `ignored` are the labels that the environment names. -/
def program (words : List String) (ignored : Option String) : m Exit := do
  match Invocation.read words ignored with
  | .error e => return .ofUsageError e
  | .ok i =>
    match ← (output i).run with
    | .ok output => return { code := 0, output }
    | .error f => return .ofFailure f

end MetricCatalog.Run
