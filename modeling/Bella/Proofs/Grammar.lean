import Bella.Proofs.Simulation.Statement

/-!
# The grammar of program trees

A front end that keeps to the grammar hands over a program, which is one block of statements, and
every statement and expression has the parts that belong to it. Names, numerals and operator symbols
may have any text, and every tree and token may have a position.

Two trees of the grammar may differ in their names alone. They are then evaluated and executed by
the same steps, which is what a simulation asks of the trees that it compares.

## Main definitions

* `Bella.Node.IsExpression`, `Bella.Node.IsStatement`, `Bella.Node.IsProgram`: the grammar.
* `Bella.Node.names`, `Bella.Node.mapNames`: the names in a tree, and other names in their place.
* `Bella.Node.SameExpression`, `Bella.Node.SameStatement`, `Bella.Node.SameProgram`: trees that
  differ in names or functions.

## Main results

* `Bella.Node.IsExpression.same_mapNames`: an expression and the same one with other names.
* `Bella.Node.SameExpression.shape`, `Bella.Node.SameStatement.shape`: trees that differ in names
  are evaluated and executed by the same steps.
* `Bella.ProgramSimulation.program_agrees`: programs whose statements correspond run alike.
-/

namespace Bella.Node

/-! ### Expressions, statements and programs -/

/-- The trees and tokens of expressions. -/
inductive IsExpression : Node → Prop
  | numeral (text : String) (p : Position) : IsExpression (.token TokenForm.numeral.type text p)
  | true (p : Position) : IsExpression (.token TokenForm.true.type "true" p)
  | false (p : Position) : IsExpression (.token TokenForm.false.type "false" p)
  | name (x : String) (p : Position) : IsExpression (.token TokenForm.name.type x p)
  | unary (symbol : String) (p : Position) {e : Node} (m : Mark) (he : IsExpression e) :
      IsExpression (.tree ExpressionForm.unary.label [.token operatorType symbol p, e] m)
  | binary {l r : Node} (symbol : String) (p : Position) (m : Mark) (hl : IsExpression l)
      (hr : IsExpression r) :
      IsExpression (.tree ExpressionForm.binary.label [l, .token operatorType symbol p, r] m)
  | conditional {t a b : Node} (m : Mark) (ht : IsExpression t) (ha : IsExpression a)
      (hb : IsExpression b) : IsExpression (.tree ExpressionForm.conditional.label [t, a, b] m)
  | array {es : List Node} (m : Mark) (hes : ∀ e ∈ es, IsExpression e) :
      IsExpression (.tree ExpressionForm.array.label es m)
  | subscript {t i : Node} (m : Mark) (ht : IsExpression t) (hi : IsExpression i) :
      IsExpression (.tree ExpressionForm.subscript.label [t, i] m)
  | call (x : String) (p : Position) {es : List Node} (m' m : Mark)
      (hes : ∀ e ∈ es, IsExpression e) :
      IsExpression (.tree ExpressionForm.call.label
        [.token TokenForm.name.type x p, .tree argumentsLabel es m'] m)

/-- The tree that lists parameters, each with its position. -/
def parameterList (ps : List (String × Position)) (m : Mark) : Node :=
  .tree parametersLabel (ps.map fun q => .token TokenForm.name.type q.1 q.2) m

/-- The trees of statements. -/
inductive IsStatement : Node → Prop
  | block {ss : List Node} (m : Mark) (hss : ∀ s ∈ ss, IsStatement s) :
      IsStatement (.tree StatementForm.block.label ss m)
  | declaration (x : String) (p : Position) {e : Node} (m : Mark) (he : e.IsExpression) :
      IsStatement (.tree StatementForm.declaration.label [.token TokenForm.name.type x p, e] m)
  | function (x : String) (p : Position) (ps : List (String × Position)) {body : Node} (m' m : Mark)
      (hbody : body.IsExpression) :
      IsStatement (.tree StatementForm.function.label
        [.token TokenForm.name.type x p, parameterList ps m', body] m)
  | assignment (x : String) (p : Position) {e : Node} (m : Mark) (he : e.IsExpression) :
      IsStatement (.tree StatementForm.assignment.label [.token TokenForm.name.type x p, e] m)
  | print {e : Node} (m : Mark) (he : e.IsExpression) :
      IsStatement (.tree StatementForm.print.label [e] m)
  | loop {t : Node} {ss : List Node} (m' m : Mark) (ht : t.IsExpression)
      (hbody : IsStatement (.tree StatementForm.block.label ss m')) :
      IsStatement (.tree StatementForm.loop.label [t, .tree StatementForm.block.label ss m'] m)

/-- The trees of programs. -/
inductive IsProgram : Node → Prop
  | block {ss : List Node} (m' m : Mark) (hss : ∀ s ∈ ss, s.IsStatement) :
      IsProgram (.tree StatementForm.program.label [.tree StatementForm.block.label ss m'] m)

theorem IsProgram.label?_eq {n : Node} (h : n.IsProgram) :
    n.label? = some StatementForm.program.label := by
  cases h
  rfl

/-! ### Names -/

mutual

/-- The names that occur in a tree, in the order of their occurrence. -/
def names : Node → List String
  | .token type text _ => if type = TokenForm.name.type then [text] else []
  | .tree _ children _ => namesAll children
  | .hollow .. | .plain _ => []
  | .improper held => names held
  | .list items => namesAll items

/-- The names that occur in some trees. -/
def namesAll : List Node → List String
  | [] => []
  | n :: ns => names n ++ namesAll ns

end

mutual

/-- The tree with another name in the place of each name. -/
def mapNames (g : String → String) : Node → Node
  | .token type text p => .token type (if type = TokenForm.name.type then g text else text) p
  | .tree label children m => .tree label (mapNamesAll g children) m
  | .hollow label m => .hollow label m
  | @Node.improper loose p held => @Node.improper loose p (mapNames g held)
  | .plain value => .plain value
  | .list items => .list (mapNamesAll g items)

/-- Some trees with another name in the place of each name. -/
def mapNamesAll (g : String → String) : List Node → List Node
  | [] => []
  | n :: ns => mapNames g n :: mapNamesAll g ns

end

theorem mem_namesAll {ns : List Node} {x : String} : x ∈ namesAll ns ↔ ∃ n ∈ ns, x ∈ n.names := by
  induction ns with
  | nil => simp [namesAll]
  | cons n ns ih => simp [namesAll, ih]

/-- The names in the parts of a tree are names in the tree. -/
theorem mem_names_of_mem {label : String} {children : List Node} {m : Mark} {c : Node}
    (hc : c ∈ children) {x : String} (hx : x ∈ c.names) : x ∈ (Node.tree label children m).names :=
  mem_namesAll.mpr ⟨c, hc, hx⟩

theorem mapNamesAll_eq_map (g : String → String) (ns : List Node) :
    mapNamesAll g ns = ns.map (mapNames g) := by
  induction ns with
  | nil => rfl
  | cons n ns ih => rw [mapNamesAll, ih, List.map_cons]

mutual

theorem mapNames_id (n : Node) : n.mapNames id = n := by
  match n with
  | .token type text p => simp [mapNames]
  | .tree label children m => rw [mapNames, mapNamesAll_id children]
  | @Node.improper loose p held => rw [mapNames, mapNames_id held]
  | .list items => rw [mapNames, mapNamesAll_id items]
  | .hollow .. | .plain _ => rfl

theorem mapNamesAll_id (ns : List Node) : mapNamesAll id ns = ns := by
  match ns with
  | [] => rfl
  | n :: ns => rw [mapNamesAll, mapNames_id n, mapNamesAll_id ns]

end

theorem namesAll_parameters (ps : List (String × Position)) :
    namesAll (ps.map fun q => .token TokenForm.name.type q.1 q.2) = ps.map Prod.fst := by
  induction ps with
  | nil => rfl
  | cons q ps ih => simp [namesAll, names, ih]

theorem names_parameterList (ps : List (String × Position)) (m : Mark) :
    (parameterList ps m).names = ps.map Prod.fst := by
  rw [parameterList, names, namesAll_parameters]

/-- The names of the parameters in a tree that lists them. -/
theorem parameters_parameterList (ps : List (String × Position)) (m : Mark) :
    Check.parameters (parameterList ps m) = .ok (ps.map Prod.fst) := by
  have hnames : (ps.map fun q => Node.token TokenForm.name.type q.1 q.2).mapM
      (Check.identifier "Parameter") = .ok (ps.map Prod.fst) := by
    induction ps with
    | nil => rfl
    | cons q ps ih =>
      rw [List.map_cons, List.mapM_cons, ih]
      rfl
  simpa [Check.parameters, parameterList, isNothing, label?, children] using hnames

/-! ### Trees that differ in names -/

/-- Expressions that are the same but for their names, which correspond. -/
inductive SameExpression (names : String → String → Prop) : Node → Node → Prop
  | numeral (text : String) (p : Position) :
      SameExpression names (.token TokenForm.numeral.type text p)
        (.token TokenForm.numeral.type text p)
  | true (p : Position) :
      SameExpression names (.token TokenForm.true.type "true" p)
        (.token TokenForm.true.type "true" p)
  | false (p : Position) :
      SameExpression names (.token TokenForm.false.type "false" p)
        (.token TokenForm.false.type "false" p)
  | name {x x' : String} (p : Position) (hx : names x x') :
      SameExpression names (.token TokenForm.name.type x p) (.token TokenForm.name.type x' p)
  | unary {e e' : Node} (symbol : String) (p : Position) (m : Mark)
      (he : SameExpression names e e') :
      SameExpression names (.tree ExpressionForm.unary.label [.token operatorType symbol p, e] m)
        (.tree ExpressionForm.unary.label [.token operatorType symbol p, e'] m)
  | binary {l l' r r' : Node} (symbol : String) (p : Position) (m : Mark)
      (hl : SameExpression names l l') (hr : SameExpression names r r') :
      SameExpression names
        (.tree ExpressionForm.binary.label [l, .token operatorType symbol p, r] m)
        (.tree ExpressionForm.binary.label [l', .token operatorType symbol p, r'] m)
  | conditional {t t' a a' b b' : Node} (m : Mark) (ht : SameExpression names t t')
      (ha : SameExpression names a a') (hb : SameExpression names b b') :
      SameExpression names (.tree ExpressionForm.conditional.label [t, a, b] m)
        (.tree ExpressionForm.conditional.label [t', a', b'] m)
  | array {es es' : List Node} (m : Mark) (hes : List.Forall₂ (SameExpression names) es es') :
      SameExpression names (.tree ExpressionForm.array.label es m)
        (.tree ExpressionForm.array.label es' m)
  | subscript {t t' i i' : Node} (m : Mark) (ht : SameExpression names t t')
      (hi : SameExpression names i i') :
      SameExpression names (.tree ExpressionForm.subscript.label [t, i] m)
        (.tree ExpressionForm.subscript.label [t', i'] m)
  | call {x x' : String} {es es' : List Node} (p : Position) (m' m : Mark) (hx : names x x')
      (hes : List.Forall₂ (SameExpression names) es es') :
      SameExpression names
        (.tree ExpressionForm.call.label
          [.token TokenForm.name.type x p, .tree argumentsLabel es m'] m)
        (.tree ExpressionForm.call.label
          [.token TokenForm.name.type x' p, .tree argumentsLabel es' m'] m)

section Same

variable {names : String → String → Prop} {n n' : Node}

/-- An expression is the same as itself with other names in the place of its own. -/
theorem IsExpression.same_mapNames {g : String → String} (hn : n.IsExpression)
    (hg : ∀ x ∈ n.names, names x (g x)) : SameExpression names n (n.mapNames g) := by
  have hall {es : List Node} (ih : ∀ e ∈ es, (∀ x ∈ e.names, names x (g x)) →
      SameExpression names e (e.mapNames g)) (hes : ∀ x ∈ namesAll es, names x (g x)) :
      List.Forall₂ (SameExpression names) es (mapNamesAll g es) := by
    rw [mapNamesAll_eq_map, List.forall₂_map_right_iff, List.forall₂_same]
    exact fun e he => ih e he fun x hx => hes x (mem_namesAll.mpr ⟨e, he, hx⟩)
  induction hn with
  | numeral text p => exact .numeral text p
  | true p => exact .true p
  | false p => exact .false p
  | name x p => exact .name p (hg x (by simp [Node.names]))
  | unary symbol p m _ ih =>
    exact .unary symbol p m (ih fun x hx => hg x (mem_names_of_mem (by simp) hx))
  | binary symbol p m _ _ ihl ihr =>
    exact .binary symbol p m (ihl fun x hx => hg x (mem_names_of_mem (by simp) hx))
      (ihr fun x hx => hg x (mem_names_of_mem (by simp) hx))
  | conditional m _ _ _ iht iha ihb =>
    exact .conditional m (iht fun x hx => hg x (mem_names_of_mem (by simp) hx))
      (iha fun x hx => hg x (mem_names_of_mem (by simp) hx))
      (ihb fun x hx => hg x (mem_names_of_mem (by simp) hx))
  | array m _ ih => exact .array m (hall ih hg)
  | subscript m _ _ iht ihi =>
    exact .subscript m (iht fun x hx => hg x (mem_names_of_mem (by simp) hx))
      (ihi fun x hx => hg x (mem_names_of_mem (by simp) hx))
  | @call x p es m' m _ ih =>
    have harguments : Node.tree argumentsLabel es m' ∈
        [Node.token TokenForm.name.type x p, .tree argumentsLabel es m'] := by simp
    refine .call p m' m (hg x (by simp [Node.names, namesAll])) (hall ih fun y hy => ?_)
    exact hg y (mem_names_of_mem harguments hy)

theorem IsExpression.same_self (hn : n.IsExpression) (h : ∀ x ∈ n.names, names x x) :
    SameExpression names n n := by
  have hsame := hn.same_mapNames (g := id) h
  rwa [mapNames_id] at hsame

theorem SameExpression.position_eq (h : SameExpression names n n') : n.position = n'.position := by
  cases h <;> rfl

/-- Expressions that are the same but for their names are evaluated by the same steps. -/
theorem SameExpression.shape {halts : Halt → Halt → Prop}
    (hhalts : ∀ c : Cause, halts (.error { cause := c }) (.error { cause := c }))
    (h : SameExpression names n n') :
    ExpressionMatch (SameExpression names) names halts n n' := by
  cases h with
  | numeral text p => exact .numeral p p fun _ => hhalts _
  | true p => exact .boolean Bool.true (fun _ _ => rfl) fun _ _ => rfl
  | false p => exact .boolean Bool.false (fun _ _ => rfl) fun _ _ => rfl
  | name p hx => exact .name hx
  | unary symbol p m he => exact .unary_of_symbol rfl he fun _ => hhalts _
  | binary symbol p m hl hr => exact .binary_of_symbol rfl hl hr fun _ => hhalts _
  | conditional m ht ha hb => exact .conditional ht ha hb
  | array m hes => exact .array hes
  | subscript m ht hi => exact .subscript ht hi
  | call p m' m hx hes => exact .call hx (.items (fun _ _ => rfl) (fun _ _ => rfl) hes)

/-- Statements that are the same but for their expressions and functions, which correspond. -/
inductive SameStatement (nodes : Node → Node → Prop) (targets : String → Prop)
    (functions : List String → Node → List String → Node → Prop) : Node → Node → Prop
  | block {ss ss' : List Node} (m : Mark)
      (hss : List.Forall₂ (SameStatement nodes targets functions) ss ss') :
      SameStatement nodes targets functions (.tree StatementForm.block.label ss m)
        (.tree StatementForm.block.label ss' m)
  | declaration {e e' : Node} (x : String) (p : Position) (m : Mark) (he : nodes e e') :
      SameStatement nodes targets functions
        (.tree StatementForm.declaration.label [.token TokenForm.name.type x p, e] m)
        (.tree StatementForm.declaration.label [.token TokenForm.name.type x p, e'] m)
  | function {ps ps' : List (String × Position)} {body body' : Node} (x : String) (p : Position)
      (m' m : Mark) (h : functions (ps.map Prod.fst) body (ps'.map Prod.fst) body') :
      SameStatement nodes targets functions
        (.tree StatementForm.function.label
          [.token TokenForm.name.type x p, parameterList ps m', body] m)
        (.tree StatementForm.function.label
          [.token TokenForm.name.type x p, parameterList ps' m', body'] m)
  | assignment {x : String} {e e' : Node} (p : Position) (m : Mark) (hx : targets x)
      (he : nodes e e') :
      SameStatement nodes targets functions
        (.tree StatementForm.assignment.label [.token TokenForm.name.type x p, e] m)
        (.tree StatementForm.assignment.label [.token TokenForm.name.type x p, e'] m)
  | print {e e' : Node} (m : Mark) (he : nodes e e') :
      SameStatement nodes targets functions (.tree StatementForm.print.label [e] m)
        (.tree StatementForm.print.label [e'] m)
  | loop {t t' body body' : Node} (m : Mark) (ht : nodes t t')
      (hbody : SameStatement nodes targets functions body body') :
      SameStatement nodes targets functions (.tree StatementForm.loop.label [t, body] m)
        (.tree StatementForm.loop.label [t', body'] m)

variable {nodes : Node → Node → Prop} {targets : String → Prop}
  {functions : List String → Node → List String → Node → Prop}

theorem SameStatement.position_eq (h : SameStatement nodes targets functions n n') :
    n.position = n'.position := by
  cases h <;> rfl

/-- Statements that are the same but for their parts are executed by the same steps. -/
theorem SameStatement.shape {halts : Halt → Halt → Prop}
    (h : SameStatement nodes targets functions n n') :
    StatementMatch (SameStatement nodes targets functions) nodes targets functions halts n n' := by
  cases h with
  | block m hss => exact .block (fun _ _ _ => rfl) (fun _ _ _ => rfl) hss
  | declaration x p m he => exact .declaration he
  | function x p m' m h =>
    exact .function (parameters_parameterList _ m') (parameters_parameterList _ m') h
  | assignment p m hx he => exact .assignment hx he
  | print m he => exact .print he
  | loop m ht hbody => exact .loop ht hbody

/-- Programs whose statements correspond. -/
inductive SameProgram (statements : Node → Node → Prop) : Node → Node → Prop
  | block {ss ss' : List Node} (m' m : Mark) (hss : List.Forall₂ statements ss ss') :
      SameProgram statements
        (.tree StatementForm.program.label [.tree StatementForm.block.label ss m'] m)
        (.tree StatementForm.program.label [.tree StatementForm.block.label ss' m'] m)

end Same
end Bella.Node

namespace Bella.ProgramSimulation

/-- Programs whose statements correspond run alike. -/
theorem program_agrees (S : ProgramSimulation) (passes : Nat) {program program' : Node}
    (hprogram : Node.SameProgram S.statements program program')
    (hlocate : ∀ h h' p, S.halts h h' → S.halts (h.locate p) (h'.locate p)) {f f' : FrameId}
    (htop : S.top f f') {w w' : World} (hworlds : S.worlds w w') :
    S.outer.Agrees Eq (interpretIn passes program f) (interpretIn passes program' f') w w' := by
  obtain ⟨m', m, hss⟩ := hprogram
  refine S.interpretIn_agrees passes ?_ (fun h h' => hlocate h h' _) rfl rfl htop hworlds
  exact .program (fun _ _ _ => rfl) (fun _ _ _ => rfl) hss

end Bella.ProgramSimulation
