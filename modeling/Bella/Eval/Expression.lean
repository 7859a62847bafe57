import Bella.Eval.Check
import Bella.Level
import Bella.Value.Equality
import Bella.World

/-!
# Evaluating expressions

Each construct is evaluated by a function of its own, which takes the evaluator for its parts as an
argument. `evalNode` picks the function by the form of the node, and `eval` ties the knot: it takes
the number of levels that are left, and a node that is being evaluated takes four to six of them from
its parts, whether these lie inside it in the tree or are the body of a function that was called. So
evaluation ends for every tree and every world, and too deep a nesting shows as `Halt.overflow`.

Operands and arguments are evaluated from left to right. The number of operands is looked at first,
then the operator, then the operands.

## Main definitions

* `Bella.callClosure`, `Bella.callBuiltin`, `Bella.callValue`: calls.
* `Bella.Parts`: evaluators for the parts of a node.
* `Bella.evalNode`: one node, given evaluators for its parts.
* `Bella.eval`: expressions.
-/

namespace Bella

/-- Evaluates a node in a frame. -/
abbrev Evaluator := Node → FrameId → Run Value

/-- Evaluators for the parts of a node. They differ in the levels that they have left. -/
structure Parts where
  /-- The levels that the node leaves to its parts. -/
  levels : Nat
  /-- Evaluates an operand, a branch or a subscript. -/
  operand : Evaluator
  /-- Evaluates an element of an array or an operand of a connective. -/
  element : Evaluator
  /-- Evaluates an argument of a call. -/
  argument : Evaluator
  /-- Evaluates the body of the function that is called. -/
  body : Evaluator

/-! ### Leaves -/

/-- The value of a token, with so many levels left below it. -/
def evalToken (levels : Nat) (type text : String) (frame : FrameId) : Run Value :=
  match TokenForm.ofType? type with
  | some .numeral => do return .number (← Run.check (Check.numeral text))
  | some .true => pure (.boolean true)
  | some .false => pure (.boolean false)
  | some .name => Run.refusing lookupLevels levels (Run.lookup frame text)
  | none => Run.fail (.unknownToken type text)

/-- The value of a numeral that holds something other than a text. Numbers stand for themselves,
truth values for zero and one, and tokens for the text in them. -/
def evalContents (held : Node) : Run Value :=
  match held with
  | .plain (.real x) => pure (.number x)
  | .plain (.truth b) => pure (.number (if b then 1 else 0))
  | .plain (.whole k) =>
    match Number.ofInt? k with
    | some x => pure (.number x)
    | none => throw (.defect (.hollow .round))
  | .plain (.text _) | .token .. | .improper _ =>
    match Numeral.read? held.symbolText with
    | some x => pure (.number x)
    | none => Run.fail (.wrongContents held)
  | .plain .nothing | .tree .. | .hollow .. | .list _ =>
    throw (.defect (.hollow (.convert held.typeName)))

/-! ### Calls -/

/-- Calls a closure: its parameters are bound according to the options of the caller's frame, and its
body is evaluated where they are bound. -/
def callClosure (eval : Evaluator) (name : String) (c : Closure) (arguments : List Value)
    (caller : FrameId) : Run Value := do
  if arguments.length ≠ c.parameters.length then
    Run.fail (.wrongArity name c.parameters.length arguments.length)
  else
    let world ← get
    let defining := c.frame.getD (world.store.root caller)
    let scoping := (world.store.options caller).scoping
    let target ← match scoping with
      | .flat => pure defining
      | .lexical => Run.newFrame (some defining) ("call " ++ name) none
    Run.declareAll target (c.parameters.zip arguments)
    Run.note (.called name c.parameters scoping)
    eval c.body target

/-- Calls a builtin, which takes numbers only. -/
def callBuiltin (b : Builtin) (arguments : List Value) : Run Value :=
  let expected := b.arity.getD arguments.length
  if expected ≠ arguments.length then Run.fail (.wrongArity b.name expected arguments.length)
  else do
    let xs ← Run.check (Check.numbers b.name arguments)
    return .number (b.apply xs)

/-- Calls a value under the name that it was found by. -/
def callValue (eval : Evaluator) (name : String) (callee : Value) (arguments : List Value)
    (caller : FrameId) : Run Value :=
  match callee with
  | .closure c => callClosure eval name c arguments caller
  | .builtin b => callBuiltin b arguments
  | v => Run.fail (.notCallable name v.kind)

/-- The values of some nodes, evaluated in order. -/
def evalAll (eval : Evaluator) (frame : FrameId) : List Node → Run (List Value)
  | [] => pure []
  | n :: ns => do
    let v ← eval n frame
    let vs ← evalAll eval frame ns
    return v :: vs

/-- The values of the arguments of a call; a missing list of arguments is an empty one. -/
def evalArguments (eval : Evaluator) (frame : FrameId) : Option Node → Run (List Value)
  | none => pure []
  | some n =>
    if n.isNothing then pure []
    else if n.label? = some Node.argumentsLabel then evalAll eval frame n.children
    else Run.fail (.wrongArguments n)

/-- A call, given evaluators for its arguments and for the body of the function. The callee is found
before any argument is evaluated. -/
def evalCall (eval body : Evaluator) (frame : FrameId) : List Node → Run Value
  | [] => Run.fail (.wrongParts .call)
  | calleeNode :: rest => do
    let name ← Run.check (Check.identifier "Callee" calleeNode)
    let callee ← Run.lookup frame name
    if callee.isFunction then
      let arguments ← evalArguments eval frame rest.head?
      callValue body name callee arguments frame
    else Run.fail (.notCallable name callee.kind)

/-! ### Operators -/

/-- Halts because a construct has other than `expected` children. -/
def wrongCount {α : Type} (expected got : Nat) : Run α :=
  throw (.defect (if got < expected then .tooFew expected got else .tooMany expected))

/-- The context that messages name for the operands of an operator before its operand. -/
def UnaryOp.context (op : UnaryOp) : String := "Unary " ++ Cause.quoted op.symbol

/-- The context that messages name for the operands of an operator between them. -/
def operatorContext (symbol : String) : String := "Operator " ++ Cause.quoted symbol

/-- What an operator before its operand makes of it. -/
def UnaryOp.apply (op : UnaryOp) (v : Value) : Except Cause Value :=
  match op with
  | .negate => (Check.number op.context v).map fun x => .number (-x)
  | .not => (Check.boolean op.context v).map fun b => .boolean (!b)

/-- What an equality makes of its operands, if that shows without going through more than `depth`
arrays inside one another. -/
def EqualityOp.compareWithin (depth : Nat) (op : EqualityOp) (v w : Value) :
    Option (Except Cause Value) :=
  if v.sameKind w then (v.equalsWithin depth w).map fun b => .ok (.boolean (op.apply b))
  else some (.error (.notComparable op v.kind w.kind))

/-- The two numbers that the operands of an operator are. -/
def numericOperands (symbol : String) (v w : Value) : Except Cause (Float × Float) :=
  match Check.number (operatorContext symbol) v with
  | .error c => .error c
  | .ok a => (Check.number (operatorContext symbol) w).map (a, ·)

/-- An operator before its operand; further children are not looked at. -/
def evalUnary (eval : Evaluator) (frame : FrameId) : List Node → Run Value
  | opNode :: operand :: _ =>
    match UnaryOp.ofSymbol? opNode.symbolText with
    | none => Run.fail (.unknownUnary opNode.symbolText)
    | some op => do
      let v ← eval operand frame
      Run.check (op.apply v)
  | _ => throw (.defect .noOperand)

/-- A connective, whose right operand is left alone if the left one decides. -/
def evalConnective (eval : Evaluator) (frame : FrameId) (op : ConnectiveOp) (left right : Node) :
    Run Value := do
  let a ← eval left frame
  let b ← Run.check (Check.boolean (operatorContext op.symbol) a)
  if b = op.deciding then return .boolean b
  else
    let c ← eval right frame
    return .boolean (← Run.check (Check.boolean (operatorContext op.symbol) c))

/-- An operator between its operands. -/
def evalBinary (parts : Parts) (frame : FrameId) : List Node → Run Value
  | [left, opNode, right] =>
    match BinaryOp.ofSymbol? opNode.symbolText with
    | none => Run.fail (.unknownBinary opNode.symbolText)
    | some (.connective op) => evalConnective parts.element frame op left right
    | some (.equality op) => do
      let v ← parts.operand left frame
      let w ← parts.operand right frame
      Run.checkWithin (op.compareWithin (arraysWithin parts.levels) v w)
    | some (.comparison op) => do
      let v ← parts.operand left frame
      let w ← parts.operand right frame
      let (a, b) ← Run.check (numericOperands op.symbol v w)
      return .boolean (op.apply a b)
    | some (.arithmetic op) => do
      let v ← parts.operand left frame
      let w ← parts.operand right frame
      let (a, b) ← Run.check (numericOperands op.symbol v w)
      return .number (op.apply a b)
  | children => wrongCount 3 children.length

/-! ### Conditionals and arrays -/

/-- A conditional, of which one branch is evaluated. -/
def evalConditional (eval : Evaluator) (frame : FrameId) : List Node → Run Value
  | [test, consequent, alternate] => do
    let v ← eval test frame
    let b ← Run.check (Check.boolean "Conditional test" v)
    eval (if b then consequent else alternate) frame
  | children => wrongCount 3 children.length

/-- An array of its elements. -/
def evalArray (eval : Evaluator) (frame : FrameId) (elements : List Node) : Run Value := do
  return .array (← evalAll eval frame elements)

/-- An element of an array; the array is evaluated before the subscript. -/
def evalSubscript (eval : Evaluator) (frame : FrameId) : List Node → Run Value
  | [target, subscript] => do
    let v ← eval target frame
    let i ← eval subscript frame
    Run.check (Check.element v i)
  | children => wrongCount 2 children.length

/-! ### All expressions -/

/-- A tree of a known form, given its children. -/
def evalForm (parts : Parts) (frame : FrameId) : ExpressionForm → List Node → Run Value
  | .unary => evalUnary parts.operand frame
  | .binary => evalBinary parts frame
  | .conditional => evalConditional parts.operand frame
  | .array => evalArray parts.element frame
  | .subscript => evalSubscript parts.operand frame
  | .call => evalCall parts.argument parts.body frame

/-- A tree of a known form whose children are missing; only a call says so in its own terms. -/
def evalHollow : ExpressionForm → Run Value
  | .unary => throw (.defect (.hollow .pick))
  | .binary | .conditional | .subscript => throw (.defect (.hollow .name))
  | .array => throw (.defect (.hollow .traverse))
  | .call => Run.fail (.wrongParts .call)

/-- The levels that it takes to look at the position of a tree, which has to be made first if the
front end noted none. -/
def Mark.levels (m : Mark) : Nat := if m.isMade then 0 else markLevels

/-- Refuses a tree whose label is that of no expression, with an error that looks at the position.
-/
def refuseLabel (levels : Nat) (label : String) (m : Mark) : Run Value :=
  Run.refusing m.levels levels (Run.fail (.unknownExpression label))

/-- One node, given evaluators for its parts. -/
def evalNode (parts : Parts) (n : Node) (frame : FrameId) : Run Value :=
  match n with
  | .token type text _ => evalToken parts.levels type text frame
  | .tree label children m =>
    match ExpressionForm.ofLabel? label with
    | some form => evalForm parts frame form children
    | none => refuseLabel parts.levels label m
  | .hollow label m =>
    match ExpressionForm.ofLabel? label with
    | some form => evalHollow form
    | none => refuseLabel parts.levels label m
  | @Node.improper .numeral _ held => evalContents held
  | @Node.improper .operator _ held => Run.fail (.unknownToken Node.operatorType held.symbolText)
  | .plain _ | .list _ => Run.fail (.notExpression n)

/-- The value of an expression in a frame, in so many levels. An operand lies four levels below the
expression, an element five and an argument six; with fewer than six levels nothing is evaluated. -/
def eval : (levels : Nat) → Evaluator
  | levels + 6, n, frame =>
    Run.within n (evalNode
      { levels := levels + 2, operand := eval (levels + 2), element := eval (levels + 1),
        argument := eval levels, body := eval levels } n frame)
  | _, _, _ => throw .overflow

end Bella
