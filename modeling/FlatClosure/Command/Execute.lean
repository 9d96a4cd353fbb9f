import FlatClosure.Command.Arguments
import FlatClosure.Command.Files
import FlatClosure.Conversion.Convert
import FlatClosure.Conversion.Settings
import FlatClosure.Diagnostic.Explain
import FlatClosure.Diagnostic.Records
import FlatClosure.Diagnostic.Terminal
import FlatClosure.Eval.Interp
import FlatClosure.Json.Printer
import FlatClosure.Json.Reader
import FlatClosure.Syntax.Decode
import FlatClosure.Syntax.Encode
import FlatClosure.Syntax.Render
import FlatClosure.Text.LineDiff
import FlatClosure.Text.UpperCase

/-!
# Commands

`execute` does what an invocation asks for, with whatever access to files it is given, and answers
with an `Outcome`: the exit code and the texts for the two output streams.  `commandLine` starts
from the arguments, and `FileTree.commandLine` does so with files as a value.

Settings are read before the program, and the program before anything is done with it, so of
several faults the first in this order is reported.  The source file is only read when there is a
conversion error to show in it.
-/

namespace FlatClosure

/-- What a command leaves behind, apart from files. -/
structure Outcome where
  exit : Nat := 0
  /-- The text for the standard output. -/
  out : String := ""
  /-- The text for the standard error output. -/
  err : String := ""

/-! ### Failures -/

/-- Why a command failed. -/
inductive Failure where
  | settingsUnreadable (path : String)
  /-- The settings file is no such file, or it has a name that is not an identifier. -/
  | settingsInvalid (path : String) (cause : Option SettingError)
  | unreadable (path : String)
  | notProgram (path : String)
  | unwritable (path : String)
  | evaluation (path : String) (cause : Stop)
  | unknownCode (code : String)

namespace Failure

/-- The failure in words. -/
def message : Failure → String
  | .settingsUnreadable path => "Failed to read config file: " ++ path
  | .settingsInvalid path _ => "Invalid config file: " ++ path
  | .unreadable path => "Failed to read " ++ path
  | .notProgram path => path ++ " is not a valid program tree"
  | .unwritable path => "Failed to write " ++ path
  | .evaluation path _ => "Evaluation of " ++ path ++ " failed"
  | .unknownCode code => "Unknown diagnostic code: " ++ upperCase code

/-- What led to the failure. -/
def cause? : Failure → Option String
  | .settingsInvalid _ (some e) => some e.message
  | .evaluation _ (.error e) => some e.message
  | .evaluation _ .outOfFuel => some "the program ran for too long"
  | _ => none

/-- A text with all its lines indented. -/
def indent (s : String) : String :=
  String.join (("    ".toList ++ s.toList).map fun c => if c = '\n' then "\n    " else c.toString)

/-- The outcome of a command that failed. -/
def outcome (f : Failure) : Outcome where
  exit := 1
  err := "Error: " ++ f.message ++ match f.cause? with
    | none => "\n"
    | some c => "\n\nCaused by:\n" ++ indent c ++ "\n"

end Failure

/-! ### The parts of commands -/

variable {m : Type → Type} [Monad m]

/-- A part of a command, which may end it. -/
abbrev Action (m : Type → Type) := ExceptT Outcome m

/-- End a command with a failure. -/
def failWith {α : Type} (f : Failure) : Action m α := throw f.outcome

/-- The text of a file that must be there. -/
def needFile (files : Files m) (path : String) (f : Failure) : Action m String := do
  match ← files.read? path with
  | some text => return text
  | none => failWith f

/-- The settings file that is read when no other is given. -/
def settingsFile : String := "choco.toml"

/-- The settings of a file. -/
def readSettings (files : Files m) (path : String) : Action m Conventions := do
  let text ← needFile files path (.settingsUnreadable path)
  match Conventions.ofText? text with
  | none => failWith (.settingsInvalid path none)
  | some c =>
    match c.check with
    | .ok c => return c
    | .error e => failWith (.settingsInvalid path (some e))

/-- The settings of the file given, or else of the usual one if there is such a file. -/
def loadSettings (files : Files m) (config : Option String) : Action m Conventions := do
  match config with
  | some path => readSettings files path
  | none => if ← files.present settingsFile then readSettings files settingsFile else return {}

/-- The greatest nesting of a program file, in the parts that are looked at. -/
def nestingLimit : Nat := 127

/-- The program that a text writes. -/
def Program.ofText? (text : String) : Option Program :=
  (Json.read? Program.shape (some nestingLimit) text).bind Program.ofJson?

/-- The program of a file. -/
def readProgram (files : Files m) (path : String) : Action m Program := do
  let text ← needFile files path (.unreadable path)
  match Program.ofText? text with
  | some p => return p
  | none => failWith (.notProgram path)

/-- The sources that a conversion error is shown in. -/
def sourcesFor (files : Files m) : Option String → Action m SourceCache
  | none => return {}
  | some path => do
    let text ← needFile files path (.unreadable path)
    return (SourceCache.add {} path text).1

/-- End a command with a conversion error. -/
def reportConversion {α : Type} (files : Files m) (format : Format) (source : Option String)
    (e : ConversionError) : Action m α := do
  let cache ← sourcesFor files source
  let ds := [e.toDiagnostic]
  match format with
  | .text =>
    throw { exit := 1, err := terminalText .plain cache ds ++ terminalSummary .plain ds }
  | .json => throw { exit := 1, out := recordText cache ds }

/-- A converted program and what the conversion made. -/
def convertOrReport (files : Files m) (format : Format) (source : Option String)
    (names : Conventions) (p : Program) : Action m (Program × Artifacts) := do
  match convert names p with
  | .ok r => return r
  | .error e => reportConversion files format source e

/-! ### Commands -/

/-- The text of a converted program. -/
def loweredText (p : Program) (a : Artifacts) (artifacts : Bool) : String :=
  if artifacts then
    (Json.obj [("program", p.toJson), ("artifacts", a.toJson)]).sortFields.indented
  else p.toJson.indented

/-- Convert the closures of a program and write the program that results. -/
def lower (files : Files m) (inv : Invocation) (input : String) (output : Option String)
    (artifacts diff : Bool) (source : Option String) : Action m Outcome := do
  let names ← loadSettings files inv.config
  let p ← readProgram files input
  let (q, a) ← convertOrReport files inv.format source names p
  let text := loweredText q a artifacts ++ "\n"
  let err := if diff then lineDiff p.render q.render else ""
  match output with
  | none => return { out := text, err }
  | some path =>
    if !(← files.write path text) then failWith (.unwritable path)
    else if inv.quiet || inv.format == .json then return { err }
    else
      return {
        out := toString a.classNames.length ++ " closure(s) converted, written to " ++ path ++ "\n"
        err }

/-- Run a program and print what it prints. -/
def runProgram (files : Files m) (inv : Invocation) (fuel : Nat) (input : String)
    (lower : Bool) (maxDepth : Nat) (source : Option String) : Action m Outcome := do
  let names ← loadSettings files inv.config
  let p ← readProgram files input
  let q ← if lower then
      (·.1) <$> convertOrReport files inv.format source names p
    else pure p
  match Context.run ⟨q, names, maxDepth⟩ fuel with
  | .error stop => failWith (.evaluation input stop)
  | .ok text =>
    match inv.format with
    | .text => return { out := text }
    | .json => return { out := (Json.obj [("output", .str text)]).compact ++ "\n" }

/-- Explain a diagnostic code. -/
def explain (inv : Invocation) (code : String) : Action m Outcome := do
  match Code.ofWord? code with
  | none => failWith (.unknownCode code)
  | some c =>
    match inv.format with
    | .text => return { out := c.explainText }
    | .json => return { out := c.explainJson.indented ++ "\n" }

/-- Do what an invocation asks for. -/
def execute (files : Files m) (fuel : Nat) (inv : Invocation) : m Outcome := do
  let act : Action m Outcome := match inv.command with
    | .lower input output artifacts diff source =>
      lower files inv input output artifacts diff source
    | .run input lower maxDepth source => runProgram files inv fuel input lower maxDepth source
    | .explain code => explain inv code
  match ← act.run with
  | .ok o | .error o => return o

/-! ### The command line -/

/-- How the command is used. -/
def helpText : String :=
  "Lower type-checked Choco programs\n\nUsage: choco [OPTIONS] [COMMAND]\n\n" ++
    "Commands:\n" ++
    "  lower    Convert closures into classes and write the lowered tree\n" ++
    "  run      Lower a program, then evaluate it\n" ++
    "  explain  Explain an error code\n" ++
    "  help     Print this message or the help of the given subcommand(s)\n\n" ++
    "Options:\n" ++
    "      --format <FORMAT>  Output format [default: text] [possible values: text, json]\n" ++
    "  -v, --verbose...       Increase verbosity (-v, -vv, -vvv)\n" ++
    "  -q, --quiet            Suppress non-error output\n" ++
    "      --no-color         Disable colored output\n" ++
    "      --config <CONFIG>  Configuration file [default: ./choco.toml when present]\n" ++
    "  -h, --help             Print help\n" ++
    "  -V, --version          Print version\n"

/-- The name under which the version is given. -/
def versionName : Option CommandName → String
  | none => "choco"
  | some c => "choco-" ++ c.word

/-- The outcome when nothing is executed. -/
def Halt.outcome : Halt → Outcome
  | .help => { out := helpText }
  | .version c => { out := versionName c ++ " 0.1.0\n" }
  | .usage =>
    { exit := 2
      err := "error: invalid arguments\n\nUsage: choco [OPTIONS] [COMMAND]\n\n" ++
        "For more information, try '--help'.\n" }

/-- Do what the arguments ask for. -/
def commandLine (files : Files m) (fuel : Nat) (args : List String) : m Outcome :=
  match Invocation.parse args with
  | .error h => return h.outcome
  | .ok inv => execute files fuel inv

/-- Do what the arguments ask for with files as a value.  A command writes its file before it says
anything on the output streams. -/
def FileTree.commandLine (t : FileTree) (fuel : Nat) (args : List String) : Outcome × FileTree :=
  let (o, t) := (FlatClosure.commandLine access fuel args).run t
  ({ o with out := t.out ++ o.out, err := t.err ++ o.err }, t)

end FlatClosure
