import Bella.Node.Basic

/-!
# Sample programs

The programs that the command can run, by name and in the order in which it lists them.

## Main definitions

* `Bella.Command.Samples`: a table of programs.
* `Bella.Command.Samples.bundled`: the programs that come with the command.
-/

namespace Bella.Command

/-- Programs by name, in order; each name occurs once. -/
abbrev Samples := List (String × Node)

namespace Samples

/-- The table with a program under a name; a name that is there keeps its place. -/
def insert (table : Samples) (name : String) (program : Node) : Samples :=
  if table.any fun entry => entry.1 == name then
    table.map fun entry => if entry.1 == name then (name, program) else entry
  else table ++ [(name, program)]

/-- The program under a name; the absent value is no program. -/
def find? (table : Samples) (name : String) : Option Node :=
  (table.lookup name).filter fun program => !program.isNothing

/-- Prints one number. -/
def hello : Node := .program (.block [.print (.number 30516)])

/-- Prints what two operators give. -/
def sample : Node :=
  .program (.block
    [.print (.unary "-" (.number 5)), .print (.binary (.number 5) "*" (.number 8))])

/-- Counts down from ten to two and prints that it is done. -/
def countdown : Node :=
  .program (.block
    [.declaration (.name "x") (.number 10),
      .loop (.binary (.name "x") ">" (.number 1)) (.block
        [.print (.name "x"),
          .assignment (.name "x") (.binary (.name "x") "-" (.number 1))]),
      .print (.boolean true)])

/-- The programs that come with the command. -/
def bundled : Samples := [("hello", hello), ("sample", sample), ("countdown", countdown)]

end Samples
end Bella.Command
