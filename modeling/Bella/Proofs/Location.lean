import Bella.Proofs.Activity.Nesting

/-!
# Locations of errors

An error that is raised while nodes are evaluated and executed inside one another is seen by each of
them on its way out. The first one that knows its line gives the error its location, and those
around it leave that location alone. So an error carries the position of the innermost node with a
line, among the nodes that were being evaluated or executed when the error was raised.

A node that is only looked at is not among them, so its position is never reported.

## Main definitions

* `Bella.Activity.HaltsAt`: the nodes that an activity is inside of when it halts, outermost first.
* `Bella.innermostLocation`: the position of the innermost node that knows its line.
* `Bella.Node.Restamped`: nodes that differ in positions that are only looked at, or are void.

## Main results

* `Bella.Node.Restamped.eval_eq`, `Bella.Node.Restamped.exec_eq`: such positions make no difference.
* `Bella.Activity.location_eq_innermost`: where an error is located.
-/

namespace Bella

/-- The position of the innermost node that knows its line, among nodes that are listed from the
outermost to the innermost one. -/
def innermostLocation (ns : List Node) : Option Location :=
  ns.reverse.findSome? fun n => n.position.location?

theorem innermostLocation_cons (n : Node) (ns : List Node) :
    innermostLocation (n :: ns) = (innermostLocation ns <|> n.position.location?) := by
  simp only [innermostLocation, List.reverse_cons, List.findSome?_append]
  cases ns.reverse.findSome? fun n => n.position.location? <;> simp

theorem innermostLocation_eq_none_iff {ns : List Node} :
    innermostLocation ns = none ↔ ∀ n ∈ ns, n.position.line = none := by
  simp [innermostLocation, Position.location?]

/-! ### Positions that are only looked at -/

namespace Node

/-- The nodes are the same but for the position of one node that is only looked at (an operator, a
callee, the list of arguments, the name that is declared or assigned, the list of parameters or one
of them, or the block under a program), or but for a position that is void. -/
inductive Restamped : Node → Node → Prop
  | unary {type text : String} {p p' : Position} {rest : List Node} {m : Mark} :
      Restamped (.tree ExpressionForm.unary.label (.token type text p :: rest) m)
        (.tree ExpressionForm.unary.label (.token type text p' :: rest) m)
  | binary {l r : Node} {type text : String} {p p' : Position} {m : Mark} :
      Restamped (.tree ExpressionForm.binary.label [l, .token type text p, r] m)
        (.tree ExpressionForm.binary.label [l, .token type text p', r] m)
  | callee {type text : String} {p p' : Position} {rest : List Node} {m : Mark} :
      Restamped (.tree ExpressionForm.call.label (.token type text p :: rest) m)
        (.tree ExpressionForm.call.label (.token type text p' :: rest) m)
  | arguments {callee : Node} {es rest : List Node} {q q' m : Mark} :
      Restamped (.tree ExpressionForm.call.label (callee :: .tree argumentsLabel es q :: rest) m)
        (.tree ExpressionForm.call.label (callee :: .tree argumentsLabel es q' :: rest) m)
  | block {ss : List Node} {q q' m : Mark} :
      Restamped (.tree StatementForm.program.label [.tree StatementForm.block.label ss q] m)
        (.tree StatementForm.program.label [.tree StatementForm.block.label ss q'] m)
  | declared {type text : String} {p p' : Position} {init : Node} {m : Mark} :
      Restamped (.tree StatementForm.declaration.label [.token type text p, init] m)
        (.tree StatementForm.declaration.label [.token type text p', init] m)
  | assigned {type text : String} {p p' : Position} {value : Node} {m : Mark} :
      Restamped (.tree StatementForm.assignment.label [.token type text p, value] m)
        (.tree StatementForm.assignment.label [.token type text p', value] m)
  | function {type text : String} {p p' : Position} {parameters body : Node} {m : Mark} :
      Restamped (.tree StatementForm.function.label [.token type text p, parameters, body] m)
        (.tree StatementForm.function.label [.token type text p', parameters, body] m)
  | parameters {named body : Node} {ps : List Node} {q q' m : Mark} :
      Restamped (.tree StatementForm.function.label [named, .tree parametersLabel ps q, body] m)
        (.tree StatementForm.function.label [named, .tree parametersLabel ps q', body] m)
  | parameter {named body : Node} {before after : List Node} {type text : String}
      {p p' : Position} {q m : Mark} :
      Restamped
        (.tree StatementForm.function.label
          [named, .tree parametersLabel (before ++ .token type text p :: after) q, body] m)
        (.tree StatementForm.function.label
          [named, .tree parametersLabel (before ++ .token type text p' :: after) q, body] m)
  | void {label : String} {children : List Node} {p p' : Position} :
      Restamped (.tree label children ⟨p, true⟩) (.tree label children ⟨p', true⟩)
  | hollow {label : String} {p p' : Position} :
      Restamped (.hollow label ⟨p, true⟩) (.hollow label ⟨p', true⟩)

namespace Restamped

variable {n n' : Node}

theorem position_eq (h : Restamped n n') : n.position = n'.position := by
  cases h <;> rfl

/-- The names of parameters do not depend on where they stand. -/
private theorem parameters_eq {before after : List Node} {type text : String} {p p' : Position}
    {q : Mark} :
    Check.parameters (.tree parametersLabel (before ++ .token type text p :: after) q) =
      Check.parameters (.tree parametersLabel (before ++ .token type text p' :: after) q) := by
  have hname : Check.identifier "Parameter" (.token type text p) =
      Check.identifier "Parameter" (.token type text p') := rfl
  simp [Check.parameters, isNothing, label?, children, List.mapM_append, List.mapM_cons, hname]

theorem evalNode_eq (h : Restamped n n') (parts : Parts) (f : FrameId) :
    evalNode parts n f = evalNode parts n' f := by
  cases h with
  | @unary type text p p' rest m => cases rest <;> rfl
  | binary | callee | arguments | block | declared | assigned | function | parameters | parameter
  | void | hollow => rfl

theorem execNode_eq (h : Restamped n n') (passes : Nat) (parts : StatementParts) (f : FrameId) :
    execNode passes parts n f = execNode passes parts n' f := by
  cases h with
  | parameter =>
    simp only [execNode, StatementForm.ofLabel?_label, execForm, execFunction]
    rw [parameters_eq]
  | unary | binary | callee | arguments | block | declared | assigned | function | parameters
  | void | hollow => rfl

/-- The value of an expression does not depend on such positions, nor does what it halts with. -/
theorem eval_eq (h : Restamped n n') (levels : Nat) (f : FrameId) :
    eval levels n f = eval levels n' f := by
  match levels with
  | levels + 6 =>
    rw [eval_eq_within, eval_eq_within, h.evalNode_eq, Run.within, Run.within, h.position_eq]
  | 0 | 1 | 2 | 3 | 4 | 5 => rfl

/-- What a statement does, and what it halts with, does not depend on such positions. -/
theorem exec_eq (h : Restamped n n') (passes levels : Nat) (f : FrameId) :
    exec passes levels n f = exec passes levels n' f := by
  match levels with
  | levels + 4 =>
    rw [exec_eq_within, exec_eq_within, h.execNode_eq, Run.within, Run.within, h.position_eq]
  | 0 | 1 | 2 | 3 => rfl

end Restamped
end Node

/-! ### Where an activity halts -/

namespace Activity

/-- The nodes that were being evaluated or executed, outermost first, when the activity halted. The
last one is the node that halted by itself. -/
inductive HaltsAt : Activity → List Node → Prop
  | alone {a : Activity} {h : Halt} {v : World} (ha : a.Halts h v)
      (hinside : ∀ b k u, Part a b ∨ Enters a b → ¬ b.Halts k u) : HaltsAt a [a.node]
  | inside {a b : Activity} {ns : List Node} (hb : Part a b ∨ Enters a b) (hns : HaltsAt b ns) :
      HaltsAt a (a.node :: ns)

/-- The same activity with another node. -/
def withNode : Activity → Node → Activity
  | evaluation levels _ f w, n => .evaluation levels n f w
  | execution passes levels _ f w, n => .execution passes levels n f w

variable {a b : Activity} {h k : Halt} {u v : World} {ns : List Node}

theorem Halts.unique (ha : a.Halts h v) (ha' : a.Halts k u) : h = k := by
  cases a with
  | evaluation levels n f w =>
    cases ha.symm.trans ha'
    rfl
  | execution passes levels n f w =>
    cases ha.symm.trans ha'
    rfl

theorem halts_of_inside (hinside : Part a b ∨ Enters a b) (hb : b.Halts h v) :
    a.Halts (h.locate a.node.position) v :=
  hinside.elim (fun hpart => halts_of_part hpart hb) fun henters => halts_of_enters henters hb

theorem HaltsAt.halts (hns : a.HaltsAt ns) : ∃ h v, a.Halts h v := by
  induction hns with
  | alone ha _ => exact ⟨_, _, ha⟩
  | inside hb _ ih =>
    obtain ⟨h, v, hhalts⟩ := ih
    exact ⟨_, v, halts_of_inside hb hhalts⟩

/-- An activity that halts does so at some nodes. The induction is on the levels, of which there are
fewer inside an activity. -/
theorem exists_haltsAt (ha : a.Halts h v) : ∃ ns, a.HaltsAt ns := by
  induction hlevels : a.levels using Nat.strongRecOn generalizing a h v with
  | ind levels ih =>
    by_cases hinside : ∃ b k u, (Part a b ∨ Enters a b) ∧ b.Halts k u
    · obtain ⟨b, k, u, hb, hhalts⟩ := hinside
      have hfewer : b.levels < levels :=
        hlevels ▸ hb.elim levels_lt_of_part levels_lt_of_enters
      obtain ⟨ns, hns⟩ := ih b.levels hfewer hhalts rfl
      exact ⟨_, .inside hb hns⟩
    · exact ⟨_, .alone ha fun b k u hb hhalts => hinside ⟨b, k, u, hb, hhalts⟩⟩

private theorem eq_locate {e : Error} {k : Halt} {p : Position} (h : .error e = k.locate p) :
    ∃ e', k = .error e' ∧ e.location = (e'.location <|> p.location?) := by
  cases k with
  | error e' =>
    cases h
    exact ⟨e', rfl, rfl⟩
  | defect | overflow | unfinished => cases h

/-- The location of an error is settled from the inside outward. -/
theorem HaltsAt.location_eq (hns : a.HaltsAt ns) {e : Error} (ha : a.Halts (.error e) v) :
    e.location = innermostLocation ns := by
  induction hns generalizing e v with
  | alone _ hinside =>
    obtain ⟨b, k, hb, hhalts, -⟩ | ⟨k, hbare, hk⟩ := halts_cases ha
    · exact absurd hhalts (hinside b k v hb)
    · obtain ⟨e', rfl, hlocation⟩ := eq_locate hk
      rw [hlocation, hbare e' rfl, innermostLocation_cons]
      rfl
  | inside hb hns ih =>
    obtain ⟨k, u, hhalts⟩ := hns.halts
    obtain ⟨e', rfl, hlocation⟩ := eq_locate (ha.unique (halts_of_inside hb hhalts))
    rw [hlocation, ih hhalts, innermostLocation_cons]

theorem Halts.withNode (ha : a.Halts h v) {n : Node} (hn : a.node.Restamped n) :
    (a.withNode n).Halts h v := by
  cases a with
  | evaluation levels m f w => exact (congrFun (hn.eval_eq levels f) w).symm.trans ha
  | execution passes levels m f w => exact (congrFun (hn.exec_eq passes levels f) w).symm.trans ha

/-- **An error carries the position of the innermost active node with a line.** When the evaluation
of a node or the execution of a statement ends with an error of the language, the error was raised
inside some nodes; its location is the position of the innermost one that knows its line, and it has
none exactly if no one does. The position of a node that is only looked at, and one that is void,
can be changed without effect. -/
theorem location_eq_innermost (a : Activity) (e : Error) (v : World) (ha : a.Halts (.error e) v) :
    (∃ ns, a.HaltsAt ns) ∧
      (∀ ns, a.HaltsAt ns → e.location = innermostLocation ns ∧
        (e.location = none ↔ ∀ n ∈ ns, n.position.line = none)) ∧
      ∀ n, a.node.Restamped n → (a.withNode n).Halts (.error e) v := by
  refine ⟨exists_haltsAt ha, fun ns hns => ?_, fun n hn => ha.withNode hn⟩
  have hlocation := hns.location_eq ha
  exact ⟨hlocation, hlocation ▸ innermostLocation_eq_none_iff⟩

/-- A program that prints what a function makes of a boolean. The body of the function, which wants
a number, stands on the second line; the call stands on the fourth, and what is inside it has no
position. -/
def misplacedNegation : Activity :=
  .execution 5 100
    (.program (.block
      [.function (.name "f") [.name "x"]
        (.tree ExpressionForm.unary.label [.operator "-", .name "x"]
          { position := ⟨some 2, some 9⟩ }),
       .print (.tree ExpressionForm.call.label
        [.name "f", .ofLabel Node.argumentsLabel [.boolean true]]
          { position := ⟨some 4, none⟩ })]))
    0
    { store.frames := #[{ parent := none, label := "global", options := none, bindings := [] }] }

/-- The error is located in the body of the function and not at the call. -/
theorem location_eq_innermost_of_misplacedNegation :
    ∃ e v ns, misplacedNegation.Halts (.error e) v ∧ e.location = some ⟨2, some 9⟩ ∧
      misplacedNegation.HaltsAt ns ∧ innermostLocation ns = some ⟨2, some 9⟩ := by
  have hhalts : ∃ e v, misplacedNegation.Halts (.error e) v ∧ e.location = some ⟨2, some 9⟩ :=
    ⟨_, _, rfl, rfl⟩
  obtain ⟨e, v, hhalts, hlocation⟩ := hhalts
  obtain ⟨⟨ns, hns⟩, hinnermost, -⟩ := location_eq_innermost misplacedNegation e v hhalts
  exact ⟨e, v, ns, hhalts, hlocation, hns, (hinnermost ns hns).1.symm.trans hlocation⟩

end Activity
end Bella
