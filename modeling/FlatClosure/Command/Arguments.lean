import FlatClosure.Text.Decimal

/-!
# Arguments of the command line

An invocation is one of three commands, `lower`, `run` and `explain`, with options.  The options
that belong to every command may stand before the command or after it; given in both places, the
one after the command counts.

`Invocation.parse` goes through the arguments from left to right and stops at the first that is
wrong or that asks for help or for the version.  The options that are known are tables
(`commonOptions`, `CommandName.options`); what an argument means is looked up there.

The value of an option is attached to it or is the next argument.  In the latter case, before a
command, it is only checked when the next option comes or, if there is none, after everything that
belongs to the command.  So a request for help after the command is answered even if that value is
wrong.
-/

namespace FlatClosure

/-- How answers are written. -/
inductive Format where
  | text
  | json
deriving DecidableEq

/-- A format by its name. -/
def Format.ofWord? : String → Option Format
  | "text" => some .text
  | "json" => some .json
  | _ => none

/-! ### Options -/

/-- An option without a value. -/
inductive Flag where
  | quiet
  | noColor
  /-- May be repeated. -/
  | verbose
  | artifacts
  | diff
  | noLower
deriving DecidableEq

/-- An option with a value. -/
inductive Setting where
  | format
  | config
  | output
  | source
  | maxDepth
deriving DecidableEq

/-- A number of 64 bits in decimal digits, with or without a plus sign. -/
def nat64OfText? (s : String) : Option Nat :=
  let digits := match s.toList with
    | '+' :: ds => ds
    | ds => ds
  let n := ofDigits digits
  if !digits.isEmpty && digits.all Char.isDigit && n < Nat.pow 2 64 then some n else none

/-- The value is one that the option takes. -/
def Setting.accepts : Setting → String → Bool
  | .format, v => (Format.ofWord? v).isSome
  | .maxDepth, v => (nat64OfText? v).isSome
  | .config, v | .output, v | .source, v => v != ""

/-- What an option is for. -/
inductive Meaning where
  | help
  | version
  | flag (f : Flag)
  | setting (s : Setting)

/-- An option: its long name, its letter if it has one, and its meaning. -/
structure OptionSpec where
  long : String
  letter : Option Char
  meaning : Meaning

/-- The options of every command. -/
def commonOptions : List OptionSpec :=
  [⟨"help", some 'h', .help⟩, ⟨"version", some 'V', .version⟩, ⟨"format", none, .setting .format⟩,
    ⟨"verbose", some 'v', .flag .verbose⟩, ⟨"quiet", some 'q', .flag .quiet⟩,
    ⟨"no-color", none, .flag .noColor⟩, ⟨"config", none, .setting .config⟩]

/-- The name of a command. -/
inductive CommandName where
  | lower
  | run
  | explain
deriving DecidableEq

namespace CommandName

/-- The name as it is written. -/
def word : CommandName → String
  | .lower => "lower"
  | .run => "run"
  | .explain => "explain"

/-- The command of a name. -/
def ofWord? (s : String) : Option CommandName :=
  [lower, run, explain].find? fun c => c.word == s

/-- The options of a command. -/
def options : CommandName → List OptionSpec
  | .lower => commonOptions ++
    [⟨"output", some 'o', .setting .output⟩, ⟨"artifacts", none, .flag .artifacts⟩,
      ⟨"diff", none, .flag .diff⟩, ⟨"source", none, .setting .source⟩]
  | .run => commonOptions ++
    [⟨"no-lower", none, .flag .noLower⟩, ⟨"max-depth", none, .setting .maxDepth⟩,
      ⟨"source", none, .setting .source⟩]
  | .explain => commonOptions

/-- The operand is one that the command takes: a path is not empty. -/
def accepts : CommandName → String → Bool
  | .explain, _ => true
  | _, operand => operand != ""

end CommandName

/-! ### Going through the arguments -/

/-- Why nothing is executed. -/
inductive Halt where
  | help
  /-- The version, asked for before or after a command. -/
  | version (command : Option CommandName)
  /-- The arguments are wrong. -/
  | usage
deriving DecidableEq

/-- What has been given before a command, or after it. -/
structure Given where
  flags : List Flag := []
  values : List (Setting × String) := []
  operand : Option String := none

namespace Given

/-- Add a flag; only `verbose` may be repeated. -/
def addFlag (g : Given) (f : Flag) : Except Halt Given :=
  if f != .verbose && g.flags.contains f then .error .usage
  else .ok { g with flags := f :: g.flags }

/-- Add the value of an option, which may not be repeated. -/
def addValue (g : Given) (s : Setting) (v : String) : Except Halt Given :=
  if (g.values.lookup s).isSome || !s.accepts v then .error .usage
  else .ok { g with values := (s, v) :: g.values }

/-- Add the operand, of which a command has one. -/
def addOperand (c : CommandName) (g : Given) (v : String) : Except Halt Given :=
  if g.operand.isSome || !c.accepts v then .error .usage
  else .ok { g with operand := some v }

end Given

/-- The options that may stand in a place. -/
def optionsAt : Option CommandName → List OptionSpec
  | none => commonOptions
  | some c => c.options

/-- Read a group of letters after a single dash.  The answer says which option still waits for its
value. -/
def readLetters (place : Option CommandName) (g : Given) :
    List Char → Except Halt (Given × Option Setting)
  | [] => .ok (g, none)
  | c :: cs =>
    match (optionsAt place).find? fun o => o.letter == some c with
    | none => .error .usage
    | some o =>
      match o.meaning with
      | .help => .error .help
      | .version => .error (.version place)
      | .flag f =>
        match g.addFlag f with
        | .ok g => readLetters place g cs
        | .error h => .error h
      | .setting s =>
        match cs with
        | [] => .ok (g, some s)
        | '=' :: v => (g.addValue s (String.ofList v)).map (·, none)
        | v => (g.addValue s (String.ofList v)).map (·, none)

/-- Read a long option, with its value if that is attached. -/
def readLong (place : Option CommandName) (g : Given) (name : String) (value : Option String) :
    Except Halt (Given × Option Setting) :=
  match (optionsAt place).find? fun o => o.long == name with
  | none => .error .usage
  | some o =>
    match o.meaning, value with
    | .help, none => .error .help
    | .version, none => .error (.version place)
    | .flag f, none => (g.addFlag f).map (·, none)
    | .setting s, none => .ok (g, some s)
    | .setting s, some v => (g.addValue s v).map (·, none)
    | _, some _ => .error .usage

/-- An argument by its form. -/
inductive Argument where
  /-- Two dashes, after which there are no more options. -/
  | separator
  | long (name : String) (value : Option String)
  | letters (cs : List Char)
  | operand (text : String)

/-- The form of an argument.  A single dash is an operand. -/
def Argument.ofText (s : String) : Argument :=
  match s.toList with
  | ['-', '-'] => .separator
  | '-' :: '-' :: cs =>
    let value := match cs.dropWhile (· != '=') with
      | [] => none
      | _ :: v => some (String.ofList v)
    .long (String.ofList (cs.takeWhile (· != '='))) value
  | '-' :: c :: cs => .letters (c :: cs)
  | _ => .operand s

/-- Read the arguments after a command.  An option may be waiting for its value. -/
def readCommand (c : CommandName) : Given → Option Setting → List String → Except Halt Given
  | g, none, [] => .ok g
  | _, some _, [] => .error .usage
  | g, waiting, arg :: args =>
    match waiting, Argument.ofText arg with
    | some s, .operand v =>
      match g.addValue s v with
      | .ok g => readCommand c g none args
      | .error h => .error h
    | some _, _ => .error .usage
    | none, .separator => args.foldlM (Given.addOperand c) g
    | none, .operand v =>
      match g.addOperand c v with
      | .ok g => readCommand c g none args
      | .error h => .error h
    | none, .long name value =>
      match readLong (some c) g name value with
      | .ok (g, s) => readCommand c g s args
      | .error h => .error h
    | none, .letters cs =>
      match readLetters (some c) g cs with
      | .ok (g, s) => readCommand c g s args
      | .error h => .error h

/-- The answer to a request for help on a command. -/
def helpOn : List String → Halt
  | [] => .help
  | [w] => if w == "help" || (CommandName.ofWord? w).isSome then .help else .usage
  | _ => .usage

/-- What the arguments before a command leave to be done. -/
inductive Pending where
  | nothing
  /-- An option waits for its value. -/
  | value (s : Setting)
  /-- The value of an option is still to be checked. -/
  | check (s : Setting) (v : String)

/-- Do what is left to be done. -/
def Pending.settle (g : Given) : Pending → Except Halt Given
  | .nothing => .ok g
  | .value _ => .error .usage
  | .check s v => g.addValue s v

/-- What is left to be done after an option. -/
def Pending.ofOption : Option Setting → Pending
  | none => .nothing
  | some s => .value s

/-- Read the arguments up to a command and then those after it.  Without a command there is
nothing to do but to help. -/
def readArguments : Given → Pending → List String → Except Halt (Given × CommandName × Given)
  | g, pending, [] => do
    let _ ← pending.settle g
    .error .help
  | g, pending, arg :: args =>
    match pending, Argument.ofText arg with
    | .value s, .operand v => readArguments g (.check s v) args
    | .value _, _ => .error .usage
    | pending, .separator => do
      let _ ← pending.settle g
      .error (if args.isEmpty then .help else .usage)
    | pending, .operand v =>
      if v == "help" then .error (helpOn args)
      else
        match CommandName.ofWord? v with
        | none => .error .usage
        | some c => do
          let inner ← readCommand c {} none args
          return (← pending.settle g, c, inner)
    | pending, .long name value =>
      match pending.settle g with
      | .error h => .error h
      | .ok g =>
        match readLong none g name value with
        | .ok (g, s) => readArguments g (.ofOption s) args
        | .error h => .error h
    | pending, .letters cs =>
      match pending.settle g with
      | .error h => .error h
      | .ok g =>
        match readLetters none g cs with
        | .ok (g, s) => readArguments g (.ofOption s) args
        | .error h => .error h

/-! ### Invocations -/

/-- What to do. -/
inductive Command where
  /-- Convert the closures of a program. -/
  | lower (input : String) (output : Option String) (artifacts diff : Bool)
    (source : Option String)
  /-- Run a program, converted first unless `lower` is false. -/
  | run (input : String) (lower : Bool) (maxDepth : Nat) (source : Option String)
  /-- Explain a diagnostic code. -/
  | explain (code : String)

/-- What to do, and how. -/
structure Invocation where
  format : Format
  quiet : Bool
  /-- The settings file. -/
  config : Option String
  command : Command

namespace Invocation

/-- The invocation that the arguments before and after a command write. -/
def ofGiven (outer : Given) (c : CommandName) (inner : Given) : Except Halt Invocation :=
  match inner.operand with
  | none => .error .usage
  | some operand =>
    let value (s : Setting) : Option String := (inner.values ++ outer.values).lookup s
    let flag (f : Flag) : Bool := (inner.flags ++ outer.flags).contains f
    .ok
      { format := ((value .format).bind Format.ofWord?).getD .text
        quiet := flag .quiet
        config := value .config
        command := match c with
          | .lower =>
            .lower operand (value .output) (flag .artifacts) (flag .diff) (value .source)
          | .run =>
            .run operand (!flag .noLower) (((value .maxDepth).bind nat64OfText?).getD 200)
              (value .source)
          | .explain => .explain operand }

/-- The invocation that arguments write. -/
def parse (args : List String) : Except Halt Invocation :=
  match readArguments {} .nothing args with
  | .error h => .error h
  | .ok (outer, c, inner) => ofGiven outer c inner

end Invocation

end FlatClosure
