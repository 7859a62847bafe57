import Bella.Proofs.Simulation.Expression

/-!
# The parts of an expression that is being evaluated

While an expression is evaluated, its parts are evaluated one after the other, each in the world
that those before it have left behind. A call evaluates its arguments and then the body of the
closure, in the frame and the world in which the parameters are bound. The relations here name these
moments. They say which nodes are evaluated; the other nodes of a tree, such as operators, callees
and the list of arguments, are looked at and nothing more.

What a part halts with is what the expression halts with. Otherwise the expression halts by itself,
and then its error has no location yet.

## Main definitions

* `Bella.InTurn`: a node in a list that is gone through in order.
* `Bella.ExpressionPart`: a part of an expression, and the world in which it is evaluated.
* `Bella.ExpressionCall`: the call of a closure, and the world after its arguments.

## Main results

* `Bella.ExpressionPart.evalNode_eq`: an expression halts with its parts.
* `Bella.ExpressionCall.evalNode_eq`: an expression that calls a closure ends as the call does.
* `Bella.evalNode_halts`: an expression halts with a part or a body, or by itself.
-/

namespace Bella

/-! ### Halts without location -/

/-- The halt is no error with a location. -/
def Halt.IsBare (h : Halt) : Prop := ∀ e, h = .error e → e.location = none

namespace Run

variable {α β : Type} {x : Run α} {g : α → Run β} {w u : World} {h : Halt}

theorem bind_eq_error_iff :
    (x >>= g) w = .error h u ↔
      x w = .error h u ∨ ∃ a v, x w = .ok a v ∧ g a v = .error h u := by
  rw [bind_apply]
  cases x w with
  | ok a v => simp
  | error k v => simp

theorem bind_eq_ok_iff {b : β} {v : World} :
    (x >>= g) w = .ok b v ↔ ∃ a u, x w = .ok a u ∧ g a u = .ok b v := by
  rw [bind_apply]
  cases x w with
  | ok a u => simp
  | error k u => simp

theorem bind_eq_of_ok {a : α} {v : World} (hx : x w = .ok a v) : (x >>= g) w = g a v := by
  rw [bind_apply, hx]

theorem bind_eq_of_error (hx : x w = .error h u) : (x >>= g) w = .error h u := by
  rw [bind_apply, hx]

theorem isBare_of_fail {c : Cause} (hx : (fail c : Run α) w = .error h u) : h.IsBare := by
  cases hx
  rintro e ⟨⟩
  rfl

theorem isBare_of_check {r : Except Cause α} (hx : check r w = .error h u) : h.IsBare := by
  cases r with
  | ok a => cases hx
  | error c => exact isBare_of_fail hx

/-- A check that is followed by nothing that halts. -/
theorem isBare_of_check_bind {r : Except Cause α} (hg : ∀ a v, ∃ b z, g a v = .ok b z)
    (hx : (check r >>= g) w = .error h u) : h.IsBare := by
  obtain hcheck | ⟨a, v, -, hrest⟩ := bind_eq_error_iff.mp hx
  · exact isBare_of_check hcheck
  · obtain ⟨b, z, hok⟩ := hg a v
    rw [hok] at hrest
    cases hrest

theorem isBare_of_checkWithin {r : Option (Except Cause α)} (hx : checkWithin r w = .error h u) :
    h.IsBare := by
  cases r with
  | some r => exact isBare_of_check hx
  | none =>
    cases hx
    rintro e ⟨⟩

theorem check_eq_ok_iff {r : Except Cause α} {a : α} {v : World} :
    check r w = .ok a v ↔ r = .ok a ∧ v = w := by
  cases r with
  | ok b =>
    have hpure : check (.ok b) w = .ok b w := rfl
    rw [hpure]
    simp [eq_comm]
  | error c =>
    have hfail : (check (.error c) : Run α) w = .error (.error { cause := c }) w := rfl
    rw [hfail]
    simp

end Run

theorem Halt.isBare_cause (c : Cause) : (Halt.error { cause := c }).IsBare := by
  rintro e ⟨⟩
  rfl

/-- A defect, like every halt that is no error, has no location. -/
theorem Halt.isBare_defect (d : Defect) : (Halt.defect d).IsBare := nofun

theorem Halt.isBare_overflow : Halt.overflow.IsBare := nofun

theorem Check.boolean_eq_ok_iff {context : String} {v : Value} {b : Bool} :
    Check.boolean context v = .ok b ↔ v = .boolean b := by
  cases v <;> simp [Check.boolean]

/-! ### Nodes that are gone through in order -/

/-- The node stands in a list that is gone through in order, and the nodes before it have led from
the first world to the second one. -/
inductive InTurn {α : Type} (run : Node → FrameId → Run α) (f : FrameId) :
    World → List Node → World → Node → Prop
  | first {w : World} {n : Node} {ns : List Node} : InTurn run f w (n :: ns) w n
  | later {w v u : World} {m n : Node} {ns : List Node} {a : α} (hm : run m f w = .ok a v)
      (hn : InTurn run f v ns u n) : InTurn run f w (m :: ns) u n

theorem InTurn.mem {α : Type} {run : Node → FrameId → Run α} {f : FrameId} {w v : World}
    {ns : List Node} {n : Node} (h : InTurn run f w ns v n) : n ∈ ns := by
  induction h with
  | first => exact List.mem_cons_self
  | later _ _ ih => exact List.mem_cons_of_mem _ ih

section EvalAll

variable {eval : Evaluator} {f : FrameId} {w v u : World} {h : Halt} {es : List Node} {e : Node}

theorem InTurn.evalAll_eq (hturn : InTurn eval f w es v e) (he : eval e f v = .error h u) :
    evalAll eval f es w = .error h u := by
  induction hturn with
  | first => exact Run.bind_eq_of_error he
  | later hm _ ih =>
    rw [evalAll, Run.bind_eq_of_ok hm]
    exact Run.bind_eq_of_error (ih he)

theorem evalAll_halts (hes : evalAll eval f es w = .error h u) :
    ∃ v e, InTurn eval f w es v e ∧ eval e f v = .error h u := by
  induction es generalizing w with
  | nil => cases hes
  | cons n ns ih =>
    obtain hn | ⟨a, v, hn, hrest⟩ := Run.bind_eq_error_iff.mp hes
    · exact ⟨w, n, .first, hn⟩
    · obtain hns | ⟨_, _, _, hpure⟩ := Run.bind_eq_error_iff.mp hrest
      · obtain ⟨z, e, hturn, he⟩ := ih hns
        exact ⟨z, e, .later hn hturn, he⟩
      · cases hpure

end EvalAll

/-! ### Parts -/

/-- The places that parts of an expression have. -/
inductive Role where
  | operand | element | argument
deriving DecidableEq

/-- The levels that a part lies below the expression. -/
def Role.levels : Role → Nat
  | .operand => 4
  | .element => 5
  | .argument => 6

/-- The evaluator for the parts in a place. -/
def Parts.evaluator (parts : Parts) : Role → Evaluator
  | .operand => parts.operand
  | .element => parts.element
  | .argument => parts.argument

/-- The place of the operands of an operator between them. -/
def BinaryOp.role : BinaryOp → Role
  | .connective _ => .element
  | .arithmetic _ | .comparison _ | .equality _ => .operand

/-- Whether the right operand is evaluated after the left one has given a value. -/
def BinaryOp.Asks : BinaryOp → Value → Prop
  | .connective op, v => v = .boolean (!op.deciding)
  | .arithmetic _, _ | .comparison _, _ | .equality _, _ => True

/-- The arguments that the node after a callee lists, unless it is refused. -/
def argumentNodes? : Option Node → Option (List Node)
  | none => some []
  | some n =>
    if n.isNothing then some []
    else if n.label? = some Node.argumentsLabel then some n.children
    else none

theorem evalArguments_eq (eval : Evaluator) (f : FrameId) {a : Option Node} {es : List Node}
    (ha : argumentNodes? a = some es) : evalArguments eval f a = evalAll eval f es := by
  cases a with
  | none =>
    cases ha
    rfl
  | some n =>
    rw [argumentNodes?] at ha
    rw [evalArguments]
    by_cases hnothing : n.isNothing
    · rw [if_pos hnothing] at ha ⊢
      cases ha
      rfl
    · rw [if_neg hnothing] at ha ⊢
      by_cases hlabel : n.label? = some Node.argumentsLabel
      · rw [if_pos hlabel] at ha ⊢
        cases ha
        rfl
      · rw [if_neg hlabel] at ha
        cases ha

theorem evalArguments_refused {a : Option Node} (ha : argumentNodes? a = none) :
    ∃ n, ∀ eval f, evalArguments eval f a = Run.fail (.wrongArguments n) := by
  cases a with
  | none => cases ha
  | some n =>
    rw [argumentNodes?] at ha
    refine ⟨n, fun eval f => ?_⟩
    rw [evalArguments]
    by_cases hnothing : n.isNothing
    · rw [if_pos hnothing] at ha
      cases ha
    · rw [if_neg hnothing] at ha ⊢
      by_cases hlabel : n.label? = some Node.argumentsLabel
      · rw [if_pos hlabel] at ha
        cases ha
      · rw [if_neg hlabel]

theorem mem_children_of_argumentNodes? {a : Option Node} {es : List Node} {e : Node}
    (ha : argumentNodes? a = some es) (he : e ∈ es) : ∃ n, a = some n ∧ e ∈ n.children := by
  cases a with
  | none =>
    cases ha
    cases he
  | some n =>
    rw [argumentNodes?] at ha
    split at ha
    · cases ha
      cases he
    · split at ha
      · cases ha
        exact ⟨n, rfl, he⟩
      · cases ha

/-- The node `e` is evaluated as a part of an expression that is evaluated in the frame `f`, from
the world `w` on. The parts before it have led to the world in which it is evaluated. -/
inductive ExpressionPart (parts : Parts) (f : FrameId) (w : World) :
    Node → Role → Node → World → Prop
  | operand {op e : Node} {rest : List Node} {m : Mark} {o : UnaryOp}
      (ho : UnaryOp.ofSymbol? op.symbolText = some o) :
      ExpressionPart parts f w (.tree ExpressionForm.unary.label (op :: e :: rest) m) .operand e w
  | left {l op r : Node} {m : Mark} {o : BinaryOp}
      (ho : BinaryOp.ofSymbol? op.symbolText = some o) :
      ExpressionPart parts f w (.tree ExpressionForm.binary.label [l, op, r] m) o.role l w
  | right {l op r : Node} {m : Mark} {o : BinaryOp} {a : Value} {v : World}
      (ho : BinaryOp.ofSymbol? op.symbolText = some o)
      (hl : parts.evaluator o.role l f w = .ok a v) (ha : o.Asks a) :
      ExpressionPart parts f w (.tree ExpressionForm.binary.label [l, op, r] m) o.role r v
  | test {t x y : Node} {m : Mark} :
      ExpressionPart parts f w (.tree ExpressionForm.conditional.label [t, x, y] m) .operand t w
  | branch {t x y : Node} {m : Mark} {b : Bool} {v : World}
      (ht : parts.operand t f w = .ok (.boolean b) v) :
      ExpressionPart parts f w (.tree ExpressionForm.conditional.label [t, x, y] m) .operand
        (if b then x else y) v
  | element {es : List Node} {m : Mark} {e : Node} {v : World}
      (he : InTurn parts.element f w es v e) :
      ExpressionPart parts f w (.tree ExpressionForm.array.label es m) .element e v
  | target {t i : Node} {m : Mark} :
      ExpressionPart parts f w (.tree ExpressionForm.subscript.label [t, i] m) .operand t w
  | index {t i : Node} {m : Mark} {a : Value} {v : World} (ht : parts.operand t f w = .ok a v) :
      ExpressionPart parts f w (.tree ExpressionForm.subscript.label [t, i] m) .operand i v
  | argument {x : String} {p : Position} {rest : List Node} {m : Mark} {a : Value}
      {es : List Node} {e : Node} {v : World} (hx : w.store.lookup? f x = some a)
      (ha : a.isFunction = true) (hes : argumentNodes? rest.head? = some es)
      (he : InTurn parts.argument f w es v e) :
      ExpressionPart parts f w
        (.tree ExpressionForm.call.label (.token TokenForm.name.type x p :: rest) m) .argument e v

/-- An expression that is evaluated in the frame `f`, from the world `w` on, calls the closure that
it has found under a name, with arguments that have led to the last world. -/
inductive ExpressionCall (parts : Parts) (f : FrameId) (w : World) :
    Node → String → Closure → List Value → World → Prop
  | call {x : String} {p : Position} {rest : List Node} {m : Mark} {k : Closure}
      {es : List Node} {vs : List Value} {v : World}
      (hx : w.store.lookup? f x = some (.closure k)) (hes : argumentNodes? rest.head? = some es)
      (hvs : evalAll parts.argument f es w = .ok vs v) :
      ExpressionCall parts f w
        (.tree ExpressionForm.call.label (.token TokenForm.name.type x p :: rest) m) x k vs v

section Parts

variable {parts : Parts} {f : FrameId} {w v u : World} {n e : Node} {r : Role} {h : Halt}

/-! ### An expression halts with its parts -/

private theorem evalConnective_eq_right {eval : Evaluator} {op : ConnectiveOp} {l r : Node}
    (hl : eval l f w = .ok (.boolean (!op.deciding)) v) (hr : eval r f v = .error h u) :
    evalConnective eval f op l r w = .error h u := by
  have hcheck : Run.check (Check.boolean (operatorContext op.symbol) (.boolean (!op.deciding))) =
      pure (!op.deciding) := rfl
  have hopen : ¬ ((!op.deciding) = op.deciding) := by cases op.deciding <;> decide
  rw [evalConnective, Run.bind_eq_of_ok hl, hcheck, pure_bind, if_neg hopen]
  exact Run.bind_eq_of_error hr

private theorem evalBinary_eq_left {l op r : Node} {o : BinaryOp}
    (ho : BinaryOp.ofSymbol? op.symbolText = some o)
    (hl : parts.evaluator o.role l f w = .error h u) :
    evalBinary parts f [l, op, r] w = .error h u := by
  simp only [evalBinary, ho]
  cases o with
  | connective o => exact Run.bind_eq_of_error hl
  | equality o => exact Run.bind_eq_of_error hl
  | comparison o => exact Run.bind_eq_of_error hl
  | arithmetic o => exact Run.bind_eq_of_error hl

private theorem evalBinary_eq_right {l op r : Node} {o : BinaryOp} {a : Value}
    (ho : BinaryOp.ofSymbol? op.symbolText = some o)
    (hl : parts.evaluator o.role l f w = .ok a v) (ha : o.Asks a)
    (hr : parts.evaluator o.role r f v = .error h u) :
    evalBinary parts f [l, op, r] w = .error h u := by
  simp only [evalBinary, ho]
  cases o with
  | connective o =>
    obtain rfl : a = .boolean (!o.deciding) := ha
    exact evalConnective_eq_right hl hr
  | equality o => exact (Run.bind_eq_of_ok hl).trans (Run.bind_eq_of_error hr)
  | comparison o => exact (Run.bind_eq_of_ok hl).trans (Run.bind_eq_of_error hr)
  | arithmetic o => exact (Run.bind_eq_of_ok hl).trans (Run.bind_eq_of_error hr)

/-- A call goes on to its arguments if a function is found under the name. -/
theorem evalCall_apply {eval body : Evaluator} {x : String} {p : Position} {rest : List Node}
    {a : Value} {es : List Node} (hx : w.store.lookup? f x = some a) (ha : a.isFunction = true)
    (hes : argumentNodes? rest.head? = some es) :
    evalCall eval body f (.token TokenForm.name.type x p :: rest) w =
      (evalAll eval f es >>= fun vs => callValue body x a vs f) w := by
  have hlookup : Run.lookup f x w = .ok a w := by rw [Run.lookup_apply, hx]
  rw [evalCall, Run.check_identifier, pure_bind, Run.bind_eq_of_ok hlookup, if_pos ha,
    evalArguments_eq eval f hes]

/-- An expression halts with what a part of it halts with. -/
theorem ExpressionPart.evalNode_eq (hpart : ExpressionPart parts f w n r e v)
    (he : parts.evaluator r e f v = .error h u) : evalNode parts n f w = .error h u := by
  cases hpart with
  | operand ho =>
    simp only [evalNode, ExpressionForm.ofLabel?_label, evalForm, evalUnary, ho]
    exact Run.bind_eq_of_error he
  | left ho => exact evalBinary_eq_left ho he
  | right ho hl ha => exact evalBinary_eq_right ho hl ha he
  | test => exact Run.bind_eq_of_error he
  | branch ht => exact (Run.bind_eq_of_ok ht).trans he
  | element hturn => exact Run.bind_eq_of_error (hturn.evalAll_eq he)
  | target => exact Run.bind_eq_of_error he
  | index ht => exact (Run.bind_eq_of_ok ht).trans (Run.bind_eq_of_error he)
  | argument hx ha hes hturn =>
    exact (evalCall_apply hx ha hes).trans (Run.bind_eq_of_error (hturn.evalAll_eq he))

/-- An expression that calls a closure ends as the call does. -/
theorem ExpressionCall.evalNode_eq {x : String} {k : Closure} {vs : List Value}
    (hcall : ExpressionCall parts f w n x k vs v) :
    evalNode parts n f w = (enterCall x k vs f >>= parts.body k.body) v := by
  obtain ⟨hx, hes, hvs⟩ := hcall
  refine (evalCall_apply hx rfl hes).trans ?_
  rw [Run.bind_eq_of_ok hvs, callValue, callClosure_eq_enterCall]

/-! ### An expression halts with a part, with a body or by itself -/

/-- How an expression may halt: a part of it halts, or the body of the closure that it calls, or it
halts by itself. -/
inductive ExpressionHalts (parts : Parts) (f : FrameId) (w : World) (n : Node) (h : Halt)
    (u : World) : Prop
  | part {r : Role} {e : Node} {v : World} (hpart : ExpressionPart parts f w n r e v)
      (he : parts.evaluator r e f v = .error h u)
  | body {x : String} {k : Closure} {vs : List Value} {v z : World} {t : FrameId}
      (hcall : ExpressionCall parts f w n x k vs v) (hentered : enterCall x k vs f v = .ok t z)
      (hbody : parts.body k.body t z = .error h u)
  | alone (hbare : h.IsBare)

private theorem declareAll_error {bs : List (String × Value)}
    (hx : Run.declareAll f bs w = .error h u) :
    ∃ c : Cause, c.isOrdinary = true ∧ h = .error { cause := c } := by
  induction bs generalizing w with
  | nil => cases hx
  | cons b bs ih =>
    obtain hb | ⟨_, v, _, hbs⟩ := Run.bind_eq_error_iff.mp hx
    · rw [Run.declare_apply] at hb
      split at hb
      · cases hb
        exact ⟨_, rfl, rfl⟩
      · cases hb
    · exact ih hbs

/-- A call that does not enter the closure ends with an error that has no location yet; its cause
lies in the arguments or the parameters. -/
theorem enterCall_error {x : String} {k : Closure} {vs : List Value}
    (hx : enterCall x k vs f w = .error h u) :
    ∃ c : Cause, c.isOrdinary = true ∧ h = .error { cause := c } := by
  by_cases hlength : vs.length = k.parameters.length
  · rw [enterCall, if_neg (not_not_intro hlength), Run.bind_eq_of_ok (Run.get_apply w)] at hx
    have hlast {t : FrameId} {v : World} {r : Record}
        (hrest : (do Run.declareAll t (k.parameters.zip vs); Run.note r; pure t : Run FrameId) v =
          .error h u) : ∃ c : Cause, c.isOrdinary = true ∧ h = .error { cause := c } := by
      obtain hbind | ⟨_, z, -, hnote⟩ := Run.bind_eq_error_iff.mp hrest
      · exact declareAll_error hbind
      · cases hnote
    cases hscoping : (w.store.options f).scoping with
    | flat =>
      simp only [hscoping] at hx
      exact hlast hx
    | lexical =>
      simp only [hscoping] at hx
      exact hlast hx
  · rw [enterCall_of_length_ne hlength] at hx
    cases hx
    exact ⟨_, rfl, rfl⟩

private theorem evalToken_isBare {levels : Nat} {type text : String}
    (hx : evalToken levels type text f w = .error h u) : h.IsBare := by
  cases hform : TokenForm.ofType? type with
  | none =>
    simp only [evalToken, hform] at hx
    exact Run.isBare_of_fail hx
  | some form =>
    simp only [evalToken, hform] at hx
    cases form with
    | numeral => exact Run.isBare_of_check_bind (fun _ _ => ⟨_, _, rfl⟩) hx
    | true | false => cases hx
    | name =>
      have hlookup : Run.refusing lookupLevels levels (Run.lookup f text) w = .error h u := hx
      rw [Run.refusing_apply, Run.lookup_apply] at hlookup
      cases hfound : w.store.lookup? f text with
      | some a =>
        rw [hfound] at hlookup
        cases hlookup
      | none =>
        rw [hfound] at hlookup
        cases hlookup
        split
        · exact Halt.isBare_overflow
        · exact Halt.isBare_cause _

private theorem evalContents_isBare {held : Node} (hx : evalContents held w = .error h u) :
    h.IsBare := by
  obtain ⟨x, hnumber, -⟩ | ⟨hfail, -⟩ | ⟨-, d, hdefect, -⟩ :=
    evalContents_similar Node.isSimilarity_eq (Eq.refl held)
  · rw [hnumber] at hx
    cases hx
  · rw [hfail] at hx
    exact Run.isBare_of_fail hx
  · rw [hdefect] at hx
    cases hx
    exact Halt.isBare_defect d

private theorem refuseLabel_isBare {levels : Nat} {label : String} {m : Mark}
    (hx : refuseLabel levels label m w = .error h u) : h.IsBare := by
  rw [refuseLabel, Run.fail, Run.refusing_throw] at hx
  cases hx
  split
  · exact Halt.isBare_overflow
  · exact Halt.isBare_cause _

private theorem evalUnary_halts {children : List Node} {m : Mark}
    (hx : evalUnary parts.operand f children w = .error h u) :
    ExpressionHalts parts f w (.tree ExpressionForm.unary.label children m) h u := by
  match children, hx with
  | op :: e :: rest, hx =>
    rw [evalUnary] at hx
    cases ho : UnaryOp.ofSymbol? op.symbolText with
    | none =>
      rw [ho] at hx
      exact .alone (Run.isBare_of_fail hx)
    | some o =>
      rw [ho] at hx
      obtain he | ⟨_, _, _, hcheck⟩ := Run.bind_eq_error_iff.mp hx
      · exact .part (.operand ho) he
      · exact .alone (Run.isBare_of_check hcheck)
  | [], hx | [_], hx =>
    cases hx
    exact .alone (Halt.isBare_defect _)

private theorem wrongCount_isBare {α : Type} {expected got : Nat}
    (hx : (wrongCount expected got : Run α) w = .error h u) : h.IsBare := by
  cases hx
  exact Halt.isBare_defect _

/-- Two operands that are evaluated in order, and what is made of them by a check. -/
private theorem pair_halts {eval : Evaluator} {l r : Node} {g : Value → Value → Run Value}
    (hg : ∀ {a b v}, g a b v = .error h u → h.IsBare)
    (hx : (do g (← eval l f) (← eval r f)) w = .error h u) :
    eval l f w = .error h u ∨ (∃ a v, eval l f w = .ok a v ∧ eval r f v = .error h u) ∨
      h.IsBare := by
  obtain hl | ⟨a, v, hl, hrest⟩ := Run.bind_eq_error_iff.mp hx
  · exact .inl hl
  · obtain hr | ⟨b, z, -, hcheck⟩ := Run.bind_eq_error_iff.mp hrest
    · exact .inr (.inl ⟨a, v, hl, hr⟩)
    · exact .inr (.inr (hg hcheck))

private theorem evalConnective_halts {eval : Evaluator} {op : ConnectiveOp} {l r : Node}
    (hx : evalConnective eval f op l r w = .error h u) :
    eval l f w = .error h u ∨
      (∃ v, eval l f w = .ok (.boolean (!op.deciding)) v ∧ eval r f v = .error h u) ∨
      h.IsBare := by
  obtain hl | ⟨a, v, hl, hrest⟩ := Run.bind_eq_error_iff.mp hx
  · exact .inl hl
  obtain hcheck | ⟨b, z, hcheck, hopen⟩ := Run.bind_eq_error_iff.mp hrest
  · exact .inr (.inr (Run.isBare_of_check hcheck))
  obtain ⟨ha, rfl⟩ := Run.check_eq_ok_iff.mp hcheck
  obtain rfl := Check.boolean_eq_ok_iff.mp ha
  by_cases hb : b = op.deciding
  · rw [if_pos hb] at hopen
    cases hopen
  rw [if_neg hb] at hopen
  obtain rfl : b = !op.deciding := Bool.eq_not_of_ne hb
  obtain hr | ⟨_, _, -, hlast⟩ := Run.bind_eq_error_iff.mp hopen
  · exact .inr (.inl ⟨_, hl, hr⟩)
  · exact .inr (.inr (Run.isBare_of_check_bind (fun _ _ => ⟨_, _, rfl⟩) hlast))

private theorem evalBinary_halts {children : List Node} {m : Mark}
    (hx : evalBinary parts f children w = .error h u) :
    ExpressionHalts parts f w (.tree ExpressionForm.binary.label children m) h u := by
  match children, hx with
  | [l, op, r], hx =>
    cases ho : BinaryOp.ofSymbol? op.symbolText with
    | none =>
      simp only [evalBinary, ho] at hx
      exact .alone (Run.isBare_of_fail hx)
    | some o =>
      have hparts : parts.evaluator o.role l f w = .error h u ∨
          (∃ a v, parts.evaluator o.role l f w = .ok a v ∧ o.Asks a ∧
            parts.evaluator o.role r f v = .error h u) ∨ h.IsBare := by
        simp only [evalBinary, ho] at hx
        cases o with
        | connective o =>
          obtain hl | ⟨v, hl, hr⟩ | hbare := evalConnective_halts hx
          · exact .inl hl
          · exact .inr (.inl ⟨_, v, hl, rfl, hr⟩)
          · exact .inr (.inr hbare)
        | equality o =>
          obtain hl | ⟨a, v, hl, hr⟩ | hbare := pair_halts Run.isBare_of_checkWithin hx
          · exact .inl hl
          · exact .inr (.inl ⟨a, v, hl, trivial, hr⟩)
          · exact .inr (.inr hbare)
        | comparison o =>
          obtain hl | ⟨a, v, hl, hr⟩ | hbare :=
            pair_halts (Run.isBare_of_check_bind fun _ _ => ⟨_, _, rfl⟩) hx
          · exact .inl hl
          · exact .inr (.inl ⟨a, v, hl, trivial, hr⟩)
          · exact .inr (.inr hbare)
        | arithmetic o =>
          obtain hl | ⟨a, v, hl, hr⟩ | hbare :=
            pair_halts (Run.isBare_of_check_bind fun _ _ => ⟨_, _, rfl⟩) hx
          · exact .inl hl
          · exact .inr (.inl ⟨a, v, hl, trivial, hr⟩)
          · exact .inr (.inr hbare)
      obtain hl | ⟨a, v, hl, ha, hr⟩ | hbare := hparts
      · exact .part (.left ho) hl
      · exact .part (.right ho hl ha) hr
      · exact .alone hbare
  | [], hx | [_], hx | [_, _], hx | _ :: _ :: _ :: _ :: _, hx => exact .alone (wrongCount_isBare hx)

private theorem evalConditional_halts {children : List Node} {m : Mark}
    (hx : evalConditional parts.operand f children w = .error h u) :
    ExpressionHalts parts f w (.tree ExpressionForm.conditional.label children m) h u := by
  match children, hx with
  | [t, x, y], hx =>
    obtain ht | ⟨a, v, ht, hrest⟩ := Run.bind_eq_error_iff.mp hx
    · exact .part .test ht
    obtain hcheck | ⟨b, z, hcheck, hbranch⟩ := Run.bind_eq_error_iff.mp hrest
    · exact .alone (Run.isBare_of_check hcheck)
    obtain ⟨ha, rfl⟩ := Run.check_eq_ok_iff.mp hcheck
    obtain rfl := Check.boolean_eq_ok_iff.mp ha
    exact .part (.branch ht) hbranch
  | [], hx | [_], hx | [_, _], hx | _ :: _ :: _ :: _ :: _, hx => exact .alone (wrongCount_isBare hx)

private theorem evalSubscript_halts {children : List Node} {m : Mark}
    (hx : evalSubscript parts.operand f children w = .error h u) :
    ExpressionHalts parts f w (.tree ExpressionForm.subscript.label children m) h u := by
  match children, hx with
  | [t, i], hx =>
    obtain ht | ⟨a, v, ht, hi⟩ | hbare := pair_halts Run.isBare_of_check hx
    · exact .part .target ht
    · exact .part (.index ht) hi
    · exact .alone hbare
  | [], hx | [_], hx | _ :: _ :: _ :: _, hx => exact .alone (wrongCount_isBare hx)

private theorem callBuiltin_isBare {b : Builtin} {vs : List Value}
    (hx : callBuiltin b vs w = .error h u) : h.IsBare := by
  rw [callBuiltin] at hx
  split at hx
  · exact Run.isBare_of_fail hx
  · exact Run.isBare_of_check_bind (fun _ _ => ⟨_, _, rfl⟩) hx

private theorem evalCall_halts {children : List Node} {m : Mark}
    (hx : evalCall parts.argument parts.body f children w = .error h u) :
    ExpressionHalts parts f w (.tree ExpressionForm.call.label children m) h u := by
  match children, hx with
  | [], hx => exact .alone (Run.isBare_of_fail hx)
  | callee :: rest, hx =>
    cases hcallee : Check.identifier "Callee" callee with
    | error c =>
      rw [evalCall, hcallee] at hx
      exact .alone (Run.isBare_of_fail hx)
    | ok x =>
      obtain ⟨p, rfl⟩ := Check.eq_token_of_identifier hcallee
      cases hlookup : w.store.lookup? f x with
      | none =>
        have hfails : Run.lookup f x w = .error (.error { cause := .notDeclared x }) w := by
          rw [Run.lookup_apply, hlookup]
        rw [evalCall, Run.check_identifier, pure_bind, Run.bind_eq_of_error hfails] at hx
        exact .alone (Run.isBare_of_fail hx)
      | some a =>
        have hfound : Run.lookup f x w = .ok a w := by rw [Run.lookup_apply, hlookup]
        by_cases ha : a.isFunction = true
        · cases hes : argumentNodes? rest.head? with
          | none =>
            obtain ⟨n, hrefused⟩ := evalArguments_refused hes
            rw [evalCall, Run.check_identifier, pure_bind, Run.bind_eq_of_ok hfound, if_pos ha,
              hrefused] at hx
            exact .alone (Run.isBare_of_fail hx)
          | some es =>
            rw [evalCall_apply hlookup ha hes] at hx
            obtain hargs | ⟨vs, v, hvs, hcall⟩ := Run.bind_eq_error_iff.mp hx
            · obtain ⟨v, e, hturn, he⟩ := evalAll_halts hargs
              exact .part (.argument hlookup ha hes hturn) he
            · cases a with
              | closure k =>
                rw [callValue, callClosure_eq_enterCall] at hcall
                obtain henter | ⟨t, z, henter, hbody⟩ := Run.bind_eq_error_iff.mp hcall
                · obtain ⟨c, -, rfl⟩ := enterCall_error henter
                  exact .alone (Halt.isBare_cause c)
                · exact .body (.call hlookup hes hvs) henter hbody
              | builtin b => exact .alone (callBuiltin_isBare hcall)
              | number | boolean | array | foreign => cases ha
        · rw [evalCall, Run.check_identifier, pure_bind, Run.bind_eq_of_ok hfound, if_neg ha] at hx
          exact .alone (Run.isBare_of_fail hx)

/-- An expression halts with a part or the body of the closure that it calls, or by itself. -/
theorem evalNode_halts (hx : evalNode parts n f w = .error h u) :
    ExpressionHalts parts f w n h u := by
  match n, hx with
  | .token type text p, hx => exact .alone (evalToken_isBare hx)
  | @Node.improper .operator p held, hx => exact .alone (Run.isBare_of_fail hx)
  | @Node.improper .numeral p held, hx => exact .alone (evalContents_isBare hx)
  | .plain value, hx => exact .alone (Run.isBare_of_fail hx)
  | .list items, hx => exact .alone (Run.isBare_of_fail hx)
  | .hollow label m, hx =>
    cases hform : ExpressionForm.ofLabel? label with
    | none =>
      simp only [evalNode, hform] at hx
      exact .alone (refuseLabel_isBare hx)
    | some form =>
      simp only [evalNode, hform] at hx
      cases form with
      | call => exact .alone (Run.isBare_of_fail hx)
      | unary | binary | conditional | array | subscript =>
        cases hx
        exact .alone (Halt.isBare_defect _)
  | .tree label children m, hx =>
    cases hform : ExpressionForm.ofLabel? label with
    | none =>
      simp only [evalNode, hform] at hx
      exact .alone (refuseLabel_isBare hx)
    | some form =>
      simp only [evalNode, hform] at hx
      obtain rfl := ExpressionForm.label_of_ofLabel? hform
      cases form with
      | unary => exact evalUnary_halts hx
      | binary => exact evalBinary_halts hx
      | conditional => exact evalConditional_halts hx
      | subscript => exact evalSubscript_halts hx
      | call => exact evalCall_halts hx
      | array =>
        obtain hes | ⟨_, _, -, hpure⟩ := Run.bind_eq_error_iff.mp hx
        · obtain ⟨v, e, hturn, he⟩ := evalAll_halts hes
          exact .part (.element hturn) he
        · cases hpure

end Parts
end Bella
