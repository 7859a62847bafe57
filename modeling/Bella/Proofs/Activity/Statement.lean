import Bella.Proofs.Activity.Expression
import Bella.Proofs.Simulation.Statement

/-!
# The parts of a statement that is being executed

While a statement is executed, its parts are executed or evaluated one after the other. Blocks and
programs go through their statements in order; a loop evaluates its test and executes its body until
the test fails. As with expressions, the names that are declared or assigned, lists of parameters
and the block under a program are looked at and nothing more.

## Main definitions

* `Bella.Repeats`: some passes of a loop.
* `Bella.StatementPart`: a statement inside a statement, and the world in which it is executed.
* `Bella.StatementExpression`: an expression of a statement, and the world in which it is evaluated.

## Main results

* `Bella.StatementPart.execNode_eq`, `Bella.StatementExpression.execNode_eq`: a statement halts with
  its parts.
* `Bella.execNode_halts`: a statement halts with a part, or by itself.
-/

namespace Bella

/-! ### Statements in order -/

section ExecAll

variable {exec : Executor} {f : FrameId} {w v u : World} {h : Halt} {ss : List Node} {s : Node}

theorem InTurn.execAll_eq (hturn : InTurn exec f w ss v s) (hs : exec s f v = .error h u) :
    execAll exec f ss w = .error h u := by
  induction hturn with
  | first => exact Run.bind_eq_of_error hs
  | later hm _ ih =>
    rw [execAll, Run.bind_eq_of_ok hm]
    exact ih hs

theorem execAll_halts (hss : execAll exec f ss w = .error h u) :
    ∃ v s, InTurn exec f w ss v s ∧ exec s f v = .error h u := by
  induction ss generalizing w with
  | nil => cases hss
  | cons n ns ih =>
    obtain hn | ⟨a, v, hn, hrest⟩ := Run.bind_eq_error_iff.mp hss
    · exact ⟨w, n, .first, hn⟩
    · obtain ⟨z, s, hturn, hs⟩ := ih hrest
      exact ⟨z, s, .later hn hturn, hs⟩

end ExecAll

/-! ### Passes of a loop -/

/-- A loop has made some passes: it may have had as many passes left in the first world as the first
number says, and it has as many left in the second world as the second number says. -/
inductive Repeats (test : Run Bool) (body : Run Unit) : Nat → World → Nat → World → Prop
  | start {passes : Nat} {w : World} : Repeats test body passes w passes w
  | again {passes left : Nat} {w v u z : World} (htest : test w = .ok true v)
      (hbody : body v = .ok () u) (hrest : Repeats test body passes u left z) :
      Repeats test body (passes + 1) w left z

section Loops

variable {test : Run Bool} {body : Run Unit} {passes left done : Nat} {w v u z : World} {h : Halt}

/-- A loop that has made some passes goes on as a loop does. -/
theorem Repeats.repeatWhile_eq (hrepeats : Repeats test body passes w left v) (done : Nat) :
    ∃ more, repeatWhile test body passes done w = repeatWhile test body left more v := by
  induction hrepeats generalizing done with
  | start => exact ⟨done, rfl⟩
  | again htest hbody _ ih =>
    obtain ⟨more, hmore⟩ := ih (done + 1)
    refine ⟨more, ?_⟩
    rw [repeatWhile, Run.bind_eq_of_ok htest]
    exact (Run.bind_eq_of_ok hbody).trans hmore

/-- How a loop halts: in a test, in the body after a test, or for want of passes. -/
theorem repeatWhile_halts (hloop : repeatWhile test body passes done w = .error h u) :
    (∃ left v, Repeats test body passes w (left + 1) v ∧ test v = .error h u) ∨
      (∃ left v z, Repeats test body passes w (left + 1) v ∧ test v = .ok true z ∧
        body z = .error h u) ∨
      h = .unfinished := by
  induction passes generalizing done w with
  | zero =>
    cases hloop
    exact .inr (.inr rfl)
  | succ passes ih =>
    obtain htest | ⟨b, v, htest, hrest⟩ := Run.bind_eq_error_iff.mp hloop
    · exact .inl ⟨passes, w, .start, htest⟩
    cases b with
    | false => cases hrest
    | true =>
      obtain hbody | ⟨_, z, hbody, hrest⟩ := Run.bind_eq_error_iff.mp hrest
      · exact .inr (.inl ⟨passes, w, v, .start, htest, hbody⟩)
      · obtain ⟨left, y, hy, htest'⟩ | ⟨left, y, x, hy, htest', hbody'⟩ | hunfinished := ih hrest
        · exact .inl ⟨left, y, .again htest hbody hy, htest'⟩
        · exact .inr (.inl ⟨left, y, x, .again htest hbody hy, htest', hbody'⟩)
        · exact .inr (.inr hunfinished)

end Loops

/-! ### Parts -/

/-- The places that statements inside a statement have. -/
inductive StatementRole where
  | statement | outermost
deriving DecidableEq

/-- The levels that a statement in a place lies below the one around it. -/
def StatementRole.levels : StatementRole → Nat
  | .statement => 3
  | .outermost => 4

/-- The executor for the statements in a place. -/
def StatementParts.executor (parts : StatementParts) : StatementRole → Executor
  | .statement => parts.statement
  | .outermost => parts.outermost

/-- The test and the body of a loop as a statement runs them. -/
def StatementParts.Passes (parts : StatementParts) (f : FrameId) (test body : Node) :
    Nat → World → Nat → World → Prop :=
  Repeats (evalTest parts.expression f test) (parts.statement body f)

/-- The statement `s` is executed as a part of a statement that acts on the frame `f`, from the
world `w` on. The parts before it have led to the world in which it is executed. -/
inductive StatementPart (passes : Nat) (parts : StatementParts) (f : FrameId) (w : World) :
    Node → StatementRole → Node → World → Prop
  | program {body : Node} {m : Mark} {s : Node} {v : World}
      (hbody : body.label? = some StatementForm.block.label)
      (hs : InTurn parts.outermost f w body.children v s) :
      StatementPart passes parts f w (.tree StatementForm.program.label [body] m) .outermost s v
  | block {ss : List Node} {m : Mark} {s : Node} {v : World}
      (hs : InTurn parts.statement f w ss v s) :
      StatementPart passes parts f w (.tree StatementForm.block.label ss m) .statement s v
  | body {test body : Node} {m : Mark} {left : Nat} {v u : World}
      (hpassed : parts.Passes f test body passes w (left + 1) v)
      (htest : parts.expression test f v = .ok (.boolean true) u) :
      StatementPart passes parts f w (.tree StatementForm.loop.label [test, body] m) .statement
        body u

/-- The node `e` is evaluated as the expression of a statement that acts on the frame `f`, from the
world `w` on. -/
inductive StatementExpression (passes : Nat) (parts : StatementParts) (f : FrameId) (w : World) :
    Node → Node → World → Prop
  | declaration {x : String} {p : Position} {e : Node} {m : Mark} :
      StatementExpression passes parts f w
        (.tree StatementForm.declaration.label [.token TokenForm.name.type x p, e] m) e w
  | assignment {x : String} {p : Position} {e : Node} {m : Mark} :
      StatementExpression passes parts f w
        (.tree StatementForm.assignment.label [.token TokenForm.name.type x p, e] m) e w
  | print {e : Node} {m : Mark} :
      StatementExpression passes parts f w (.tree StatementForm.print.label [e] m) e w
  | test {test body : Node} {m : Mark} {left : Nat} {v : World}
      (hpassed : parts.Passes f test body passes w (left + 1) v) :
      StatementExpression passes parts f w (.tree StatementForm.loop.label [test, body] m) test v

section Parts

variable {passes : Nat} {parts : StatementParts} {f : FrameId} {w v u : World} {n s e : Node}
  {r : StatementRole} {h : Halt}

theorem evalTest_eq_ok_iff {eval : Evaluator} {test : Node} {b : Bool} :
    evalTest eval f test w = .ok b v ↔ eval test f w = .ok (.boolean b) v := by
  rw [evalTest, Run.bind_apply]
  cases eval test f w with
  | error k z => simp
  | ok a z =>
    change Run.check (Check.boolean "While test" a) z = .ok b v ↔ _
    rw [Run.check_eq_ok_iff, Check.boolean_eq_ok_iff]
    simp [eq_comm]

/-! ### A statement halts with its parts -/

/-- A statement halts with what a statement inside it halts with. -/
theorem StatementPart.execNode_eq (hpart : StatementPart passes parts f w n r s v)
    (hs : parts.executor r s f v = .error h u) : execNode passes parts n f w = .error h u := by
  cases hpart with
  | program hbody hturn =>
    simp only [execNode, StatementForm.ofLabel?_label, execForm, execProgram, execBlock, hbody,
      if_true]
    exact hturn.execAll_eq hs
  | block hturn => exact hturn.execAll_eq hs
  | body hpassed htest =>
    obtain ⟨more, hmore⟩ := hpassed.repeatWhile_eq 0
    refine Run.bind_eq_of_error (hmore.trans ?_)
    rw [repeatWhile, Run.bind_eq_of_ok (evalTest_eq_ok_iff.mpr htest)]
    exact Run.bind_eq_of_error hs

/-- A statement halts with what an expression of it halts with. -/
theorem StatementExpression.execNode_eq (hexpression : StatementExpression passes parts f w n e v)
    (he : parts.expression e f v = .error h u) : execNode passes parts n f w = .error h u := by
  cases hexpression with
  | declaration =>
    simp only [execNode, StatementForm.ofLabel?_label, execForm, execDeclaration,
      Run.check_identifier, pure_bind]
    exact Run.bind_eq_of_error he
  | assignment =>
    simp only [execNode, StatementForm.ofLabel?_label, execForm, execAssignment,
      Run.check_identifier, pure_bind]
    exact Run.bind_eq_of_error he
  | print => exact Run.bind_eq_of_error he
  | test hpassed =>
    obtain ⟨more, hmore⟩ := hpassed.repeatWhile_eq 0
    refine Run.bind_eq_of_error (hmore.trans ?_)
    exact Run.bind_eq_of_error (Run.bind_eq_of_error he)

/-! ### A statement halts with a part or by itself -/

/-- How a statement may halt: a statement inside it halts, or an expression of it, or it halts by
itself. -/
inductive StatementHalts (passes : Nat) (parts : StatementParts) (f : FrameId) (w : World)
    (n : Node) (h : Halt) (u : World) : Prop
  | part {r : StatementRole} {s : Node} {v : World}
      (hpart : StatementPart passes parts f w n r s v)
      (hs : parts.executor r s f v = .error h u)
  | expression {e : Node} {v : World} (hexpression : StatementExpression passes parts f w n e v)
      (he : parts.expression e f v = .error h u)
  | alone (hbare : h.IsBare)

private theorem execProgram_halts {children : List Node} {m : Mark}
    (hx : execProgram parts.outermost f children w = .error h u) :
    StatementHalts passes parts f w (.tree StatementForm.program.label children m) h u := by
  match children, hx with
  | [body], hx =>
    rw [execProgram, execBlock] at hx
    by_cases hlabel : body.label? = some StatementForm.block.label
    · rw [if_pos hlabel] at hx
      obtain ⟨v, s, hturn, hs⟩ := execAll_halts hx
      exact .part (.program hlabel hturn) hs
    · rw [if_neg hlabel] at hx
      exact .alone (Run.isBare_of_fail hx)
  | [], hx | _ :: _ :: _, hx => exact .alone (Run.isBare_of_fail hx)

/-- A statement that names something before it evaluates an expression. -/
private theorem named_halts {role : String} {named e : Node} {rest : String → Value → Run Unit}
    (hrest : ∀ {x a v}, rest x a v = .error h u → h.IsBare)
    (hx : (do
        let x ← Run.check (Check.identifier role named)
        let a ← parts.expression e f
        rest x a) w = .error h u) :
    (∃ x p, named = .token TokenForm.name.type x p ∧ parts.expression e f w = .error h u) ∨
      h.IsBare := by
  obtain hrefused | ⟨x, v, hnamed, hvalue⟩ := Run.bind_eq_error_iff.mp hx
  · exact .inr (Run.isBare_of_check hrefused)
  obtain ⟨hname, rfl⟩ := Run.check_eq_ok_iff.mp hnamed
  obtain ⟨p, rfl⟩ := Check.eq_token_of_identifier hname
  obtain he | ⟨a, z, -, hlast⟩ := Run.bind_eq_error_iff.mp hvalue
  · exact .inl ⟨x, p, rfl, he⟩
  · exact .inr (hrest hlast)

private theorem declare_isBare {x y : String} {a : Value}
    (hx : (do Run.declare f x a; Run.note (.declared y)) w = .error h u) : h.IsBare := by
  obtain hdeclare | ⟨_, _, -, hnote⟩ := Run.bind_eq_error_iff.mp hx
  · rw [Run.declare_apply] at hdeclare
    split at hdeclare
    · exact Run.isBare_of_fail hdeclare
    · cases hdeclare
  · cases hnote

private theorem assign_isBare {x : String} {a : Value} (hx : Run.assign f x a w = .error h u) :
    h.IsBare := by
  rw [Run.assign_apply] at hx
  split at hx
  · cases hx
  · exact Run.isBare_of_fail hx

private theorem execDeclaration_halts {children : List Node} {m : Mark}
    (hx : execDeclaration parts.expression f children w = .error h u) :
    StatementHalts passes parts f w (.tree StatementForm.declaration.label children m) h u := by
  match children, hx with
  | [named, e], hx =>
    obtain ⟨x, p, rfl, he⟩ | hbare := named_halts declare_isBare hx
    · exact .expression .declaration he
    · exact .alone hbare
  | [], hx | [_], hx | _ :: _ :: _ :: _, hx => exact .alone (Run.isBare_of_fail hx)

private theorem execAssignment_halts {children : List Node} {m : Mark}
    (hx : execAssignment parts.expression f children w = .error h u) :
    StatementHalts passes parts f w (.tree StatementForm.assignment.label children m) h u := by
  match children, hx with
  | [named, e], hx =>
    obtain ⟨x, p, rfl, he⟩ | hbare := named_halts assign_isBare hx
    · exact .expression .assignment he
    · exact .alone hbare
  | [], hx | [_], hx | _ :: _ :: _ :: _, hx => exact .alone (Run.isBare_of_fail hx)

private theorem execPrint_halts {children : List Node} {m : Mark}
    (hx : execPrint parts.levels parts.expression f children w = .error h u) :
    StatementHalts passes parts f w (.tree StatementForm.print.label children m) h u := by
  match children, hx with
  | [e], hx =>
    obtain he | ⟨a, v, -, hx⟩ := Run.bind_eq_error_iff.mp hx
    · exact .expression .print he
    obtain hline | ⟨line, z, -, hprint⟩ := Run.bind_eq_error_iff.mp hx
    · exact .alone (Run.isBare_of_checkWithin hline)
    · cases hprint
  | [], hx | _ :: _ :: _, hx => exact .alone (Run.isBare_of_fail hx)

private theorem execFunction_isBare {children : List Node}
    (hx : execFunction f children w = .error h u) : h.IsBare := by
  match children, hx with
  | [named, ps, body], hx =>
    obtain hname | ⟨x, v, -, hx⟩ := Run.bind_eq_error_iff.mp hx
    · exact Run.isBare_of_check hname
    obtain hps | ⟨ps, z, -, hx⟩ := Run.bind_eq_error_iff.mp hx
    · exact Run.isBare_of_check hps
    obtain hdeclare | ⟨_, _, -, hnote⟩ := Run.bind_eq_error_iff.mp hx
    · rw [Run.declareFunction_apply] at hdeclare
      split at hdeclare
      · exact Run.isBare_of_fail hdeclare
      · cases hdeclare
    · cases hnote
  | [], hx | [_], hx | [_, _], hx | _ :: _ :: _ :: _ :: _, hx => exact Run.isBare_of_fail hx

private theorem execLoop_halts {children : List Node} {m : Mark}
    (hx : execLoop passes parts.statement parts.expression f children w = .error h u) :
    StatementHalts passes parts f w (.tree StatementForm.loop.label children m) h u := by
  match children, hx with
  | [test, body], hx =>
    obtain hloop | ⟨_, _, -, hnote⟩ := Run.bind_eq_error_iff.mp hx
    · obtain ⟨left, v, hpassed, htest⟩ | ⟨left, v, z, hpassed, htest, hbody⟩ | rfl :=
        repeatWhile_halts hloop
      · obtain he | ⟨a, z, -, hcheck⟩ := Run.bind_eq_error_iff.mp htest
        · exact .expression (.test hpassed) he
        · exact .alone (Run.isBare_of_check hcheck)
      · exact .part (.body hpassed (evalTest_eq_ok_iff.mp htest)) hbody
      · exact .alone nofun
    · cases hnote
  | [], hx | [_], hx | _ :: _ :: _ :: _, hx => exact .alone (Run.isBare_of_fail hx)

/-- A statement halts with a statement inside it or an expression of it, or by itself. -/
theorem execNode_halts (hx : execNode passes parts n f w = .error h u) :
    StatementHalts passes parts f w n h u := by
  match n, hx with
  | .token .., hx | .improper _, hx | .plain _, hx | .list _, hx =>
    exact .alone (Run.isBare_of_fail hx)
  | .hollow label m, hx =>
    cases hform : StatementForm.ofLabel? label with
    | none =>
      simp only [execNode, hform] at hx
      exact .alone (Run.isBare_of_fail hx)
    | some form =>
      simp only [execNode, hform] at hx
      cases form with
      | block => cases hx
      | program | declaration | function | assignment | print | loop =>
        cases hx
        exact .alone (Halt.isBare_defect _)
  | .tree label children m, hx =>
    cases hform : StatementForm.ofLabel? label with
    | none =>
      simp only [execNode, hform] at hx
      exact .alone (Run.isBare_of_fail hx)
    | some form =>
      simp only [execNode, hform] at hx
      obtain rfl := StatementForm.label_of_ofLabel? hform
      cases form with
      | program => exact execProgram_halts hx
      | declaration => exact execDeclaration_halts hx
      | function => exact .alone (execFunction_isBare hx)
      | assignment => exact execAssignment_halts hx
      | print => exact execPrint_halts hx
      | loop => exact execLoop_halts hx
      | block =>
        obtain ⟨v, s, hturn, hs⟩ := execAll_halts hx
        exact .part (.block hturn) hs

end Parts
end Bella
