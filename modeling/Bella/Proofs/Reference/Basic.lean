import Bella.Interpret
import Bella.Proofs.Store

/-!
# A semantics without frames

What programs mean under lexical scoping, said without frames, addresses and levels of nesting. A
name has a value among the parameters of the current call, else among the globals, else in the
prelude. Expressions change nothing. Calling a function evaluates its body in a scope that has the
parameters of this call and no others, over the globals as they are when it is called. Statements
change the globals, or the prelude if a name is bound there alone.

The meaning of a tree may be missing: a call or a loop may go on forever, and a tree outside the
grammar has no meaning. What a tree means is therefore said for evaluations up to a depth, and it is
what all depths from some depth on agree in.

## Main definitions

* `Bella.Reference.Scope`: the maps in which an expression looks a name up.
* `Bella.Reference.evalNode`, `Bella.Reference.eval`: the value or the error that an expression
  means.
* `Bella.Reference.State`: what statements act on.
* `Bella.Reference.execNode`, `Bella.Reference.exec`: what statements do.
* `Bella.Reference.run`, `Bella.Reference.Yields`: how programs end.
-/

namespace Bella.Reference

/-- Names with their values. -/
abbrev Map := String → Option Value

/-- The map with another value for a name. -/
def Map.bind (μ : Map) (x : String) (v : Value) : Map := fun y => if x = y then some v else μ y

/-- What a name may mean to an expression. -/
structure Scope where
  /-- The parameters of the current call. -/
  parameters : Map
  /-- The global names. -/
  globals : Map
  /-- The names of the prelude. -/
  prelude : Map

/-- The value of a name: a parameter comes before a global, and a global before the prelude. -/
def Scope.lookup? (σ : Scope) (x : String) : Option Value :=
  (σ.parameters x).or ((σ.globals x).or (σ.prelude x))

/-! ### Expressions -/

/-- A result or an error, if there is a meaning at all. -/
abbrev Meaning := ExceptT Error Option

variable {α : Type}

/-- An error at the given place. -/
def fail (here : Option Location) (c : Cause) : Meaning α := throw { cause := c, location := here }

/-- The result of a check, or an error at the given place. -/
def check (here : Option Location) : Except Cause α → Meaning α
  | .ok a => pure a
  | .error c => fail here c

/-- The value of a name in a scope. -/
def lookup (here : Option Location) (σ : Scope) (x : String) : Meaning Value :=
  match σ.lookup? x with
  | some v => pure v
  | none => fail here (.notDeclared x)

/-- What an operator makes of its operands. A connective gives its right operand, which is evaluated
if the left one does not decide. -/
def operate : BinaryOp → Value → Value → Except Cause Value
  | .connective op, _, w => (Check.boolean (operatorContext op.symbol) w).map .boolean
  | .equality op, v, w =>
    if v.sameKind w then .ok (.boolean (op.apply (v.equals w)))
    else .error (.notComparable op v.kind w.kind)
  | .comparison op, v, w =>
    (numericOperands op.symbol v w).map fun operands => .boolean (op.apply operands.1 operands.2)
  | .arithmetic op, v, w =>
    (numericOperands op.symbol v w).map fun operands => .number (op.apply operands.1 operands.2)

/-- What a builtin makes of its arguments. -/
def applyBuiltin (b : Builtin) (arguments : List Value) : Except Cause Value :=
  let expected := b.arity.getD arguments.length
  if expected ≠ arguments.length then .error (.wrongArity b.name expected arguments.length)
  else (Check.numbers b.name arguments).map fun xs => .number (b.apply xs)

/-- The place of an error in a node: that of the node if it is known, else that of the node around
it. -/
def place (outer : Option Location) (n : Node) : Option Location := n.position.location? <|> outer

/-- Gives meanings to expressions. The location is the innermost known place around the
expression. -/
abbrev Valuation := Option Location → Scope → Node → Meaning Value

/-- Calls a function under the name that it was found by. The scope is that of the caller, of which
the body does not see the parameters. -/
def callClosure (ν : Valuation) (here : Option Location) (σ : Scope) (name : String) (c : Closure)
    (arguments : List Value) : Meaning Value :=
  if arguments.length ≠ c.parameters.length then
    fail here (.wrongArity name c.parameters.length arguments.length)
  else
    match firstRepeated [] c.parameters with
    | some x => fail here (.alreadyDeclared x .variable)
    | none => ν here { σ with parameters := fun x => (c.parameters.zip arguments).lookup x } c.body

/-- The meaning of a node at its place, given the meanings of its parts. -/
def evalNode (ν : Valuation) (here : Option Location) (σ : Scope) : Node → Meaning Value
  | .token type text _ =>
    match TokenForm.ofType? type with
    | some .numeral => check here ((Check.numeral text).map .number)
    | some .true => pure (.boolean true)
    | some .false => pure (.boolean false)
    | some .name => lookup here σ text
    | none => none
  | .tree label children _ =>
    match ExpressionForm.ofLabel? label, children with
    | some .unary, [symbol, operand] =>
      match UnaryOp.ofSymbol? symbol.symbolText with
      | none => fail here (.unknownUnary symbol.symbolText)
      | some op => do
        let v ← ν here σ operand
        check here (op.apply v)
    | some .binary, [left, symbol, right] =>
      match BinaryOp.ofSymbol? symbol.symbolText with
      | none => fail here (.unknownBinary symbol.symbolText)
      | some (.connective op) => do
        let v ← ν here σ left
        let b ← check here (Check.boolean (operatorContext op.symbol) v)
        if b = op.deciding then return .boolean b
        else
          let w ← ν here σ right
          check here (operate (.connective op) v w)
      | some op => do
        let v ← ν here σ left
        let w ← ν here σ right
        check here (operate op v w)
    | some .conditional, [test, consequent, alternate] => do
      let v ← ν here σ test
      let b ← check here (Check.boolean "Conditional test" v)
      ν here σ (if b then consequent else alternate)
    | some .array, elements => do
      let vs ← elements.mapM (ν here σ)
      return .array vs
    | some .subscript, [target, subscript] => do
      let v ← ν here σ target
      let i ← ν here σ subscript
      check here (Check.element v i)
    | some .call, [.token _ name _, .tree _ arguments _] => do
      let callee ← lookup here σ name
      match callee with
      | .closure c => do
        let vs ← arguments.mapM (ν here σ)
        callClosure ν here σ name c vs
      | .builtin b => do
        let vs ← arguments.mapM (ν here σ)
        check here (applyBuiltin b vs)
      | v => fail here (.notCallable name v.kind)
    | _, _ => none
  | _ => none

/-- The meaning of an expression whose evaluation goes through at most `depth` expressions inside
one another, the bodies of the functions that it calls included. -/
def eval : (depth : Nat) → Valuation
  | 0, _, _, _ => none
  | depth + 1, outer, σ, n => evalNode (eval depth) (place outer n) σ n

/-! ### Statements -/

/-- What statements act on. -/
structure State where
  /-- The global names. -/
  globals : Map
  /-- The names of the prelude. -/
  prelude : Map
  /-- The lines printed so far, oldest first. -/
  lines : List String
  /-- The number of functions declared so far, from which they take their identities. -/
  declared : Nat

/-- What names mean outside any call. -/
def State.scope (s : State) : Scope :=
  { parameters := fun _ => none, globals := s.globals, prelude := s.prelude }

/-- What a statement does to a state, and how it ends, if there is a meaning at all. -/
abbrev Action := ExceptT Error (StateT State Option)

namespace Action

theorem bind_apply {β : Type} (y : Action α) (g : α → Action β) (s : State) :
    (y >>= g) s = match y s with
      | some (.ok a, t) => g a t
      | some (.error e, t) => some (.error e, t)
      | none => none := by
  change (y s).bind _ = _
  cases y s with
  | none => rfl
  | some r =>
    obtain ⟨r, t⟩ := r
    cases r <;> rfl

/-- The value of an expression in a statement. -/
def eval (ν : Valuation) (here : Option Location) (n : Node) : Action Value := fun s =>
  (ν here s.scope n).run.map fun r => (r, s)

/-- An error at the given place. -/
def fail (here : Option Location) (c : Cause) : Action α := throw { cause := c, location := here }

/-- The result of a check, or an error at the given place. -/
def check (here : Option Location) : Except Cause α → Action α
  | .ok a => pure a
  | .error c => fail here c

/-- Declares a variable, whose name must be free among the globals. -/
def declare (here : Option Location) (x : String) (v : Value) : Action Unit := do
  let s ← get
  if (s.globals x).isSome then fail here (.alreadyDeclared x .variable)
  else set { s with globals := s.globals.bind x v }

/-- Declares a function, whose name must be free among the globals. It lies in no frame. -/
def declareFunction (here : Option Location) (x : String) (parameters : List String) (body : Node) :
    Action Unit := do
  let s ← get
  if (s.globals x).isSome then fail here (.alreadyDeclared x .function)
  else
    let c : Closure := { id := s.declared, parameters, body, frame := none }
    set { s with globals := s.globals.bind x (.closure c), declared := s.declared + 1 }

/-- Gives another value to a global name, or else to a name of the prelude. -/
def assign (here : Option Location) (x : String) (v : Value) : Action Unit := do
  let s ← get
  if (s.globals x).isSome then set { s with globals := s.globals.bind x v }
  else if (s.prelude x).isSome then set { s with prelude := s.prelude.bind x v }
  else fail here (.notDeclared x)

/-- Prints a line. -/
def print (line : String) : Action Unit := modify fun s => { s with lines := s.lines ++ [line] }

/-- Repeats an action while a test holds, if the test fails within so many passes. -/
def repeatWhile (test : Action Bool) (body : Action Unit) : (passes : Nat) → Action Unit
  | 0 => fun _ => none
  | passes + 1 => do
    if ← test then
      body
      repeatWhile test body passes
    else return ()

end Action

/-- What a statement does at its place, given what its parts mean and do. -/
def execNode (ν : Valuation) (ε : Option Location → Node → Action Unit) (passes : Nat)
    (here : Option Location) : Node → Action Unit
  | .tree label children _ =>
    match StatementForm.ofLabel? label, children with
    | some .block, statements => statements.forM (ε here)
    | some .declaration, [.token _ x _, init] => do
      let v ← Action.eval ν here init
      Action.declare here x v
    | some .function, [.token _ x _, parameterList, body] => do
      let parameters ← Action.check here (Check.parameters parameterList)
      Action.declareFunction here x parameters body
    | some .assignment, [.token _ x _, value] => do
      let v ← Action.eval ν here value
      Action.assign here x v
    | some .print, [value] => do
      let v ← Action.eval ν here value
      let line ← Action.check here v.render
      Action.print line
    | some .loop, [test, body] =>
      let holds : Action Bool := do
        let v ← Action.eval ν here test
        Action.check here (Check.boolean "While test" v)
      Action.repeatWhile holds (ε here body) passes
    | _, _ => fun _ => none
  | _ => fun _ => none

/-- What a statement does, up to a depth: its parts have one less, and a loop makes at most as many
passes as they have. -/
def exec : (depth : Nat) → Option Location → Node → Action Unit
  | 0, _, _ => fun _ => none
  | depth + 1, outer, n => execNode (eval depth) (exec depth) depth (place outer n) n

/-- The statements of a program. The block around them has no place of its own. -/
def execProgram (depth : Nat) : Node → Action Unit
  | .tree label [.tree label' statements mark'] mark =>
    statements.forM (exec depth (place none (.tree label [.tree label' statements mark'] mark)))
  | _ => fun _ => none

/-- How a program ends and in what state, on globals that bind nothing, if it ends at that depth;
`declared` is the identity of the first function that it declares. -/
def run (depth : Nat) (prelude : Map) (declared : Nat) (program : Node) :
    Option (Except Error Unit × State) :=
  (execProgram depth program).run
    { globals := fun _ => none, prelude := prelude, lines := [], declared := declared }

/-- A program ends so: at every depth from some depth on. -/
def Yields (prelude : Map) (declared : Nat) (program : Node) (r : Except Error Unit) (s : State) :
    Prop :=
  ∃ enough, ∀ depth, enough ≤ depth → run depth prelude declared program = some (r, s)

end Bella.Reference
