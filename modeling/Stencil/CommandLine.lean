import Stencil.Diagnostic
import Stencil.Report

namespace Stencil
namespace CommandLine

/-!
# The command line

A command is the check of a spec or the expansion of the templates below a
directory.  Arguments are read from the left, and the first that is wrong, or
asks for help or the version, settles what happens.  The value of an option is
the next argument, or what follows the option in its own argument.
-/

inductive Command where
  | check
  | generate
  deriving DecidableEq, Repr

structure Options where
  spec : Option Text := none
  directory : Option Text := none
  dryRun : Bool := false
  noBanner : Bool := false
  deriving DecidableEq, Repr

/-- Why no command is run. -/
inductive Stop where
  | help
  | version
  | wrongUsage
  deriving DecidableEq, Repr

inductive ValueOption where
  | spec
  | directory
  deriving DecidableEq, Repr

/-- Gives an option its value, which must not be empty, unless it has one. -/
def Options.set (options : Options) (option : ValueOption) (v : Text) : Except Stop Options :=
  if v.isEmpty then .error .wrongUsage
  else
    match option with
    | .spec =>
        if options.spec.isSome then .error .wrongUsage
        else .ok { options with spec := some v }
    | .directory =>
        if options.directory.isSome then .error .wrongUsage
        else .ok { options with directory := some v }

def ValueOption.ofLetter? (command : Command) (letter : Char) : Option ValueOption :=
  if letter = 's' then some .spec
  else if letter = 'd' ∧ command = .generate then some .directory
  else none

def ValueOption.ofName? (command : Command) (name : Text) : Option ValueOption :=
  if name = "spec" then some .spec
  else if name = "dir" ∧ command = .generate then some .directory
  else none

/-- Sets what an option without value asks for, unless it is set. -/
def Options.switch (command : Command) (options : Options) (name : Text) :
    Except Stop Options :=
  if name = "help" then .error .help
  else if name = "dry-run" ∧ command = .generate ∧ options.dryRun = false then
    .ok { options with dryRun := true }
  else if name = "no-banner" ∧ command = .generate ∧ options.noBanner = false then
    .ok { options with noBanner := true }
  else .error .wrongUsage

/-- What an argument asks for. -/
inductive Request where
  /-- An option whose value is in the argument. -/
  | valued (option : ValueOption) (value : Text)
  /-- An option whose value is the next argument. -/
  | awaiting (option : ValueOption)
  /-- An option without a value. -/
  | switch (name : Text)
  /-- All that follows is no option. -/
  | escape
  | wrong
  deriving DecidableEq, Repr

/-- What an argument with a long name asks for. -/
def Request.ofName (command : Command) (body : Text) : Request :=
  match Text.splitOnce? "=" body with
  | some (name, v) =>
      match ValueOption.ofName? command name with
      | some option => .valued option v
      | none => .wrong
  | none =>
      match ValueOption.ofName? command body with
      | some option => .awaiting option
      | none => .switch body

/-- What an argument with letters asks for. -/
def Request.ofLetters (command : Command) (letter : Char) (rest : Text) : Request :=
  if letter = 'h' then .switch "help"
  else
    match ValueOption.ofLetter? command letter, rest with
    | none, _ => .wrong
    | some option, [] => .awaiting option
    | some option, '=' :: v => .valued option v
    | some option, v => .valued option v

/-- What an argument asks for. -/
def Request.of (command : Command) : Text → Request
  | ['-', '-'] => .escape
  | '-' :: '-' :: body => .ofName command body
  | '-' :: letter :: rest => .ofLetters command letter rest
  | _ => .wrong

/-- Whether an argument can be the value of the option before it. -/
def isValue : Text → Bool
  | ['-'] => true
  | '-' :: _ => false
  | _ => true

/-- The options of a command, added to those read before. -/
def options (command : Command) : Options → List Text → Except Stop Options
  | found, [] => .ok found
  | found, argument :: rest =>
      match Request.of command argument with
      | .valued option v =>
          match found.set option v with
          | .error stop => .error stop
          | .ok found => options command found rest
      | .awaiting option =>
          match rest with
          | [] => .error .wrongUsage
          | v :: rest =>
              if !isValue v then .error .wrongUsage
              else
                match found.set option v with
                | .error stop => .error stop
                | .ok found => options command found rest
      | .switch name =>
          match found.switch command name with
          | .error stop => .error stop
          | .ok found => options command found rest
      | .escape => if rest.isEmpty then .ok found else .error .wrongUsage
      | .wrong => .error .wrongUsage

def Command.ofWord? (word : Text) : Option Command :=
  if word = "generate" then some .generate
  else if word = "check" then some .check
  else none

/-- Whether help can be asked for with these words. -/
def hasHelp : List Text → Bool
  | [] => true
  | [word] => word = "help" || (Command.ofWord? word).isSome
  | _ => false

/-- The command and the options of a list of arguments. -/
def parse : List Text → Except Stop (Command × Options)
  | [] => .error .wrongUsage
  | word :: rest =>
      match Command.ofWord? word with
      | some command => (options command {} rest).map (command, ·)
      | none =>
          if word = "--version" then .error .version
          else if word = "--help" then .error .help
          else if word = "help" then .error (if hasHelp rest then .help else .wrongUsage)
          else
            match word with
            | '-' :: 'V' :: _ => .error .version
            | '-' :: 'h' :: _ => .error .help
            | _ => .error .wrongUsage

/-! ## Running -/

/-- What a run leaves behind besides files. -/
structure Result where
  exitCode : Nat
  output : Text
  errors : Text
  deriving DecidableEq, Repr

/-- The exit code of wrong specs, templates and files. -/
def failureCode : Nat := 1

def usageCode : Nat := 2

def usageText : Text :=
  "Usage: datamatic check [--spec SPEC]\n" ++
  "       datamatic generate [--spec SPEC] [--dir DIR] [--dry-run] [--no-banner]\n"

def versionText : Text := "datamatic 0.3.0\n"

/-- The result of no run. -/
def Stop.result : Stop → Result
  | .help => ⟨0, usageText, []⟩
  | .version => ⟨0, versionText, []⟩
  | .wrongUsage => ⟨usageCode, [], usageText⟩

def failure (d : Diagnostic) : Result :=
  let help : Text :=
    match d.help with
    | some advice => "help: " ++ advice ++ "\n"
    | none => []
  ⟨failureCode, [], "error: " ++ d.message ++ "\n" ++ help⟩

/-- The result of a run with a report. -/
def success (report : Report) : Result := ⟨0, report.output, report.warnings⟩

def Options.specPath (options : Options) : Text := options.spec.getD "components.json"

/-- The path of the directory with the templates. -/
def Options.root (options : Options) : Text := options.directory.getD "."

/-- What the expansion of templates is to do. -/
def Options.generate (options : Options) : GenerateOptions :=
  { root := options.root
    banner := if options.noBanner then Banner.none else Banner.comment
    dryRun := options.dryRun }

/-- Runs a command on a spec that is in order. -/
def runOn (spec : Spec) (tree : FileTree) (command : Command) (options : Options) :
    FileTree × Result :=
  match command with
  | .check => (tree, success (Report.check spec options.specPath))
  | .generate =>
      match Engine.builtin.generate tree spec options.generate with
      | (tree, .error cause) => (tree, failure cause.diagnostic)
      | (tree, .ok result) => (tree, success (Report.generation options.root result))

def runCommand (tree : FileTree) (command : Command) (options : Options) : FileTree × Result :=
  match Spec.load tree options.specPath with
  | .error cause => (tree, failure cause.diagnostic)
  | .ok spec =>
      match Engine.builtin.validate spec with
      | .error cause => (tree, failure cause.diagnostic)
      | .ok () => runOn spec tree command options

def run (tree : FileTree) (arguments : List Text) : FileTree × Result :=
  match parse arguments with
  | .error stop => (tree, stop.result)
  | .ok (command, options) => runCommand tree command options

end CommandLine
end Stencil
