import Bella.Command.Arguments
import Bella.Command.Sample
import Bella.Interpret
import Bella.Log

/-!
# The command

The command runs one sample program. Printed lines go to the output; log lines and the error that
ended a program go to the errors. Its status is zero on success, one if the program failed, and two
if the arguments or the name of the sample are refused.

## Main definitions

* `Bella.Command.Outcome`: what a command leaves behind.
* `Bella.Command.perform`: what the command does with its arguments.
-/

namespace Bella.Command

/-- What a command leaves behind. -/
structure Outcome where
  /-- The exit status. -/
  status : Nat
  /-- The text on the standard output. -/
  output : String := ""
  /-- The text on the standard error stream. -/
  errors : String := ""
deriving DecidableEq, Inhabited

/-- One line on how to call the command. -/
def usage : String := "usage: bella-run [-h] [--flat] [--prelude] [--debug] [--list] [sample]\n"

/-- The help text. -/
def help : String :=
  usage ++ "\n"
    ++ "Run a bundled Bella sample program.\n"
    ++ "\n"
    ++ "positional arguments:\n"
    ++ "  sample      sample name (default: hello)\n"
    ++ "\n"
    ++ "options:\n"
    ++ "  -h, --help  show this help message and exit\n"
    ++ "  --flat      bind call parameters in the single global scope\n"
    ++ "  --prelude   install the math builtins\n"
    ++ "  --debug     log evaluator activity to stderr\n"
    ++ "  --list      list sample names and exit\n"

/-- Lines as one text, each ended by a line feed. -/
def unlines (lines : List String) : String := String.join (lines.map (· ++ "\n"))

/-- What the log of a finished run holds, if one is kept. -/
def logText (stamp : String) (debug : Bool) (records : List Record) : String :=
  if debug then Log.setUp stamp "DEBUG" ++ String.join (records.map (Log.line stamp)) else ""

/-- The levels that the handler of the log takes, if a log is kept. -/
def handlerLevels (debug : Bool) : Nat := if debug then recordLevels else 0

/-- Runs a program in a fresh frame of an empty world, with or without a log. -/
def runProgram (debug : Bool) (passes : Nat) (program : Node) (o : Options) :
    EStateM.Result Halt World Unit :=
  (interpretLogged (handlerLevels debug) passes program none (some o)).run {}

/-- Runs the sample that a request names. A halt that is no error of the language is passed on. -/
def runSample (stamp : String) (passes : Nat) (samples : Samples) (r : Request) :
    Except Halt Outcome :=
  match samples.find? r.sampleName with
  | none =>
    .ok { status := 2
          errors := logText stamp (r.has .debug) [] ++ "Unknown sample: " ++ r.sampleName ++ "\n" }
  | some program =>
    let scoping := if r.has .flat then Scoping.flat else .lexical
    let options : Options := { scoping, mathematics := r.has .mathematics }
    match runProgram (r.has .debug) passes program options with
    | .ok _ w =>
      .ok { status := 0
            output := unlines (w.linesTo .standard)
            errors := logText stamp (r.has .debug) w.records.toList }
    | .error (.error e) w =>
      .ok { status := 1
            output := unlines (w.linesTo .standard)
            errors := logText stamp (r.has .debug) w.records.toList
              ++ e.kind.name ++ ": " ++ e.message ++ "\n" }
    | .error h _ => .error h

/-- What the command does with its arguments. `stamp` stands for the time in log lines, and `passes`
bounds the tests of each loop. -/
def perform (stamp : String) (passes : Nat) (samples : Samples) (arguments : List String) :
    Except Halt Outcome :=
  match parse arguments with
  | .help => .ok { status := 0, output := help }
  | .refused message =>
    .ok { status := 2, errors := usage ++ "bella-run: error: " ++ message ++ "\n" }
  | .request r =>
    if r.has .list then .ok { status := 0, output := unlines (samples.map Prod.fst) }
    else runSample stamp passes samples r

end Bella.Command
