import Bella.Text.Digit
import Bella.Text.Quoted

/-!
# Command line arguments

The command takes flags and the name of one sample, in any order. A flag may be shortened as long as
it stays unambiguous, and takes no value. After a double dash nothing is a flag. Arguments that start
with a dash are names all the same if they are a lone dash, a negative number, or hold a space.

Arguments are classified one by one (`Word.ofArgument`) before any of them takes effect; only an
ambiguous flag is refused at that stage. Then they take effect from left to right (`Request.collect`):
a call for help ends the command, a flag with a value is refused, and what fits nowhere is refused at
the end.

## Main definitions

* `Bella.Command.Flag`, `Bella.Command.Word`: arguments by what they mean.
* `Bella.Command.Request`: what the arguments ask for.
* `Bella.Command.parse`: reads the arguments.
-/

namespace Bella.Command

/-- The flags. -/
inductive Flag where
  | flat | mathematics | debug | list
deriving DecidableEq, Inhabited

/-- What starts with a dash and has a meaning: help or a flag. -/
inductive Switch where
  | help
  | flag (f : Flag)
deriving DecidableEq, Inhabited

/-- The long names, in the order in which messages list them. -/
def longNames : List (String × Switch) :=
  [("--help", .help), ("--flat", .flag .flat), ("--prelude", .flag .mathematics),
    ("--debug", .flag .debug), ("--list", .flag .list)]

/-- All names of a switch, as messages show them. -/
def Switch.names : Switch → String
  | .help => "-h/--help"
  | .flag .flat => "--flat"
  | .flag .mathematics => "--prelude"
  | .flag .debug => "--debug"
  | .flag .list => "--list"

/-- An argument by what it means. -/
inductive Word where
  /-- Help or a flag. -/
  | switch (s : Switch)
  /-- Help or a flag with a value, which it does not take. -/
  | valued (s : Switch) (value : String)
  /-- Something that looks like a flag and is none. -/
  | unknown (argument : String)
  /-- Something that can name a sample. -/
  | plain (argument : String)
  /-- The double dash, after which nothing is a flag. -/
  | divider
deriving DecidableEq, Inhabited

/-- Splits a text at its first equals sign. -/
def splitValue (cs : List Char) : List Char × Option (List Char) :=
  match cs.dropWhile (· != '=') with
  | _ :: value => (cs.takeWhile (· != '='), some value)
  | [] => (cs, none)

/-- A switch, with the value that follows an equals sign if there is one. -/
def Word.ofSwitch (s : Switch) : Option (List Char) → Word
  | none => .switch s
  | some value => .valued s (String.ofList value)

/-- What follows the short name of help in one argument. Further letters of help change nothing, and
anything else is a value. -/
def Word.ofHelpTail : List Char → Word
  | [] => .switch .help
  | 'h' :: rest => Word.ofHelpTail rest
  | value => .valued .help (String.ofList value)

/-- What follows the short name of help and an equals sign. Letters of help are help here too, but
nothing at all is an empty value. -/
def Word.ofHelpValue : List Char → Word
  | [] => .valued .help ""
  | value => Word.ofHelpTail value

/-- Whether a text is a negative number: a dash, then digits, or a point with digits after it and
perhaps before it. A line feed may end it. -/
def isNegativeNumber : List Char → Bool
  | '-' :: cs =>
    let body := if cs.getLast? = some '\n' then cs.dropLast else cs
    match body.dropWhile Text.isAnyDigit with
    | [] => !body.isEmpty
    | '.' :: fraction => !fraction.isEmpty && fraction.all Text.isAnyDigit
    | _ => false
  | _ => false

/-- An argument that starts with a dash and is no switch. -/
def Word.ofRest (argument : String) : Word :=
  let cs := argument.toList
  if isNegativeNumber cs || cs.contains ' ' then .plain argument else .unknown argument

/-- The message that refuses an argument because it abbreviates several switches. -/
def ambiguous (argument : String) (names : List String) : String :=
  "ambiguous option: " ++ argument ++ " could match " ++ String.intercalate ", " names

/-- What an argument before any double dash means. -/
def Word.ofArgument (argument : String) : Except String Word :=
  match argument.toList with
  | '-' :: '-' :: cs =>
    let (body, value) := splitValue cs
    let named := "--" ++ String.ofList body
    match longNames.lookup named with
    | some s => .ok (Word.ofSwitch s value)
    | none =>
      match longNames.filter fun entry => named.isPrefixOf entry.1 with
      | [] => .ok (Word.ofRest argument)
      | [entry] => .ok (Word.ofSwitch entry.2 value)
      | entries => .error (ambiguous argument (entries.map Prod.fst))
  | '-' :: 'h' :: '=' :: value => .ok (Word.ofHelpValue value)
  | '-' :: 'h' :: tail => .ok (Word.ofHelpTail tail)
  | '-' :: _ :: _ => .ok (Word.ofRest argument)
  | _ => .ok (.plain argument)

/-- What all arguments mean. -/
def words : List String → Except String (List Word)
  | [] => .ok []
  | argument :: rest =>
    if argument = "--" then .ok (.divider :: rest.map .plain)
    else
      match Word.ofArgument argument with
      | .error message => .error message
      | .ok word => (words rest).map (word :: ·)

/-- What the arguments ask for. -/
structure Request where
  /-- The name of the sample, if one was given. -/
  sample : Option String := none
  /-- Whether the place for the name is taken, which a double dash alone does too. -/
  settled : Bool := false
  /-- The flags that were given. -/
  flags : List Flag := []
  /-- The arguments that fit nowhere. -/
  extras : List String := []
deriving DecidableEq, Inhabited

namespace Request

/-- Whether a flag was given. -/
def has (r : Request) (f : Flag) : Bool := r.flags.contains f

/-- The name of the sample to run. -/
def sampleName (r : Request) : String := r.sample.getD "hello"

/-- The request with the place for the name taken. -/
def settle (r : Request) (sample : Option String) : Request := { r with sample, settled := true }

/-- The request with one more argument that fits nowhere. -/
def reject (r : Request) (argument : String) : Request := { r with extras := r.extras ++ [argument] }

end Request

/-- What comes of reading the arguments. -/
inductive Parsed where
  /-- Something is to be done. -/
  | request (r : Request)
  /-- Help is to be shown. -/
  | help
  /-- The arguments are refused. -/
  | refused (message : String)
deriving DecidableEq, Inhabited

/-- Lets the words take effect from left to right. A double dash next to the name of the sample is
dropped with it, and fits nowhere elsewhere. -/
def Request.collect (r : Request) : List Word → Parsed
  | [] =>
    if r.extras.isEmpty then .request r
    else .refused ("unrecognized arguments: " ++ String.intercalate " " r.extras)
  | .switch .help :: _ => .help
  | .switch (.flag f) :: rest => Request.collect { r with flags := f :: r.flags } rest
  | .valued s value :: _ =>
    .refused ("argument " ++ s.names ++ ": ignored explicit argument " ++ Text.quote value)
  | .unknown argument :: rest => Request.collect (r.reject argument) rest
  | .plain argument :: .divider :: rest =>
    if r.settled then Request.collect ((r.reject argument).reject "--") rest
    else Request.collect (r.settle (some argument)) rest
  | .plain argument :: rest =>
    if r.settled then Request.collect (r.reject argument) rest
    else Request.collect (r.settle (some argument)) rest
  | .divider :: .plain argument :: rest =>
    if r.settled then Request.collect ((r.reject "--").reject argument) rest
    else Request.collect (r.settle (some argument)) rest
  | .divider :: rest =>
    if r.settled then Request.collect (r.reject "--") rest
    else Request.collect (r.settle none) rest

/-- Reads the arguments. -/
def parse (arguments : List String) : Parsed :=
  match words arguments with
  | .error message => .refused message
  | .ok ws => Request.collect {} ws

end Bella.Command
