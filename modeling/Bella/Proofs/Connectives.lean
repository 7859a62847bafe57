import Bella.Proofs.Levels
import Bella.Proofs.Settling

/-!
# Connectives as lazy conditionals

A connective looks at its right operand only if the left one leaves the result open. So it can be
worded as a conditional with literals as branches, and its negation as the other connective of the
negated operands, whatever the operands do to the world on the way. The wordings check at different
moments that an operand is a boolean, and they name different contexts when it is not; the kind of
the error and its location are the same. None of them shows anything of the right operand, not even
that it is no expression, unless the left one leaves the result open.

All wordings come down to one action on the two operands, `ConnectiveOp.lazily`. They differ in the
levels that they leave to the operands, which shows only when these run out.

## Main definitions

* `Bella.Run.Resembles`: results in the same world that differ in the text of an error alone.
* `Bella.ConnectiveOp.lazily`: what a connective or its negation makes of two actions.
* `Bella.Mark.Blank`: marks that give no location.
* `Bella.Wording`: the ways to word a connective or its negation.
* `Bella.Node.EndsLike`: two expressions end alike.

## Main results

* `Bella.Wording.eval_node`: every wording is the lazy action on its operands.
* `Bella.Wording.endsLike`: two wordings of one connective end alike if both negate it or neither.
* `Bella.connectives_lazy`: connectives are lazy conditionals and obey De Morgan's laws.
-/

namespace Bella

/-! ### Results that differ in texts alone -/

/-- Halts that differ in the text of an error alone. -/
inductive Halt.Resembles : Halt → Halt → Prop
  | refl (h : Halt) : Resembles h h
  | error {e e' : Error} (hkind : e.kind = e'.kind) (hlocation : e.location = e'.location) :
      Resembles (.error e) (.error e')

/-- Two runs end in the same world, with the same result or with halts that differ in the text of an
error alone. -/
inductive Run.Resembles {α : Type} :
    EStateM.Result Halt World α → EStateM.Result Halt World α → Prop
  | ok (a : α) (v : World) : Resembles (.ok a v) (.ok a v)
  | error {h h' : Halt} (hh : h.Resembles h') (v : World) : Resembles (.error h v) (.error h' v)

namespace Run.Resembles

variable {α β : Type} {x y : Run α} {g g' : α → Run β} {w : World}

theorem refl (r : EStateM.Result Halt World α) : Run.Resembles r r := by
  cases r with
  | ok a v => exact .ok a v
  | error h v => exact .error (.refl h) v

theorem bind (h : Run.Resembles (x w) (y w)) (hg : ∀ a v, Run.Resembles (g a v) (g' a v)) :
    Run.Resembles ((x >>= g) w) ((y >>= g') w) := by
  rw [Run.bind_apply, Run.bind_apply]
  generalize x w = r, y w = r' at h ⊢
  cases h with
  | ok a v => exact hg a v
  | error hh v => exact .error hh v

/-- Contexts stand in texts alone. -/
theorem check_boolean (context context' : String) (a : Value) (w : World) :
    Run.Resembles (Run.check (Check.boolean context a) w)
      (Run.check (Check.boolean context' a) w) := by
  have hrefused (kind : Kind) :
      Halt.Resembles (.error ⟨.needsBoolean context kind, none⟩)
        (.error ⟨.needsBoolean context' kind, none⟩) := .error rfl rfl
  cases a with
  | boolean b => exact .ok b w
  | number _ | array _ | closure _ | builtin _ | foreign _ => exact .error (hrefused _) w

/-- Running out of levels resembles nothing else. -/
theorem overflow_iff (h : Run.Resembles (x w) (y w)) :
    x.outcome w = .error .overflow ↔ y.outcome w = .error .overflow := by
  rw [outcome, outcome]
  generalize x w = r, y w = r' at h ⊢
  cases h with
  | ok a v => exact .rfl
  | error hh v =>
    cases hh with
    | refl => exact .rfl
    | error => simp

end Run.Resembles

/-! ### Conditions -/

/-- The boolean that an action gives. -/
def Run.truth (context : String) (x : Run Value) : Run Bool := do
  let a ← x
  Run.check (Check.boolean context a)

section Truth

variable {context context' : String} {x y : Run Value} {w v : World}

theorem Run.truth_pure (context : String) (b : Bool) : truth context (pure (.boolean b)) = pure b :=
  rfl

theorem Run.truth_bind {α : Type} (context : String) (x : Run α) (g : α → Run Value) :
    truth context (x >>= g) = x >>= fun a => truth context (g a) :=
  bind_assoc x g _

theorem Run.truth_below (h : x.Below y) (context : String) :
    (truth context x).Below (truth context y) :=
  .bind h fun _ => .refl _

theorem Run.truth_resembles (context context' : String) (x : Run Value) (w : World) :
    Run.Resembles (truth context x w) (truth context' x w) :=
  .bind (.refl _) fun a v => .check_boolean context context' a v

theorem Run.truth_eq_ok_iff {b : Bool} : truth context x w = .ok b v ↔ x w = .ok (.boolean b) v := by
  rw [truth, bind_eq_ok_iff]
  constructor
  · rintro ⟨a, u, ha, hb⟩
    obtain ⟨hcheck, rfl⟩ := check_eq_ok_iff.mp hb
    rw [ha, Check.boolean_eq_ok_iff.mp hcheck]
  · intro hx
    exact ⟨_, v, hx, rfl⟩

end Truth

/-! ### The lazy action -/

namespace ConnectiveOp

/-- The connective that holds of negated operands where this one does not hold of the operands. -/
def dual : ConnectiveOp → ConnectiveOp
  | .and => .or
  | .or => .and

theorem deciding_dual (op : ConnectiveOp) : op.dual.deciding = !op.deciding := by
  cases op <;> rfl

/-- What a connective, or its negation, makes of two actions: the second one is left alone if the
first one decides. -/
def lazily (op : ConnectiveOp) (negated : Bool) (context : String) (x y : Run Value) :
    Run Value := do
  let b ← Run.truth context x
  if b = op.deciding then return .boolean (b ^^ negated)
  else
    let c ← Run.truth context y
    return .boolean (c ^^ negated)

section Lazily

variable (op : ConnectiveOp) (negated : Bool) {context : String} {x x' y y' : Run Value}
  {w v : World}

theorem lazily_below (hx : x.Below x') (hy : y.Below y') :
    (op.lazily negated context x y).Below (op.lazily negated context x' y') := by
  refine .bind (Run.truth_below hx context) fun b => ?_
  split
  · exact .refl _
  · exact .bind (Run.truth_below hy context) fun _ => .refl _

theorem lazily_resembles (context context' : String) (x y : Run Value) (w : World) :
    Run.Resembles (op.lazily negated context x y w) (op.lazily negated context' x y w) := by
  refine .bind (Run.truth_resembles context context' x w) fun b v => ?_
  split
  · exact .refl _
  · exact .bind (Run.truth_resembles context context' y v) fun _ _ => .refl _

/-- The second action makes no difference unless the first one leaves the result open. -/
theorem lazily_congr (hx : ∀ v, x w ≠ .ok (.boolean (!op.deciding)) v) :
    op.lazily negated context x y w = op.lazily negated context x y' w := by
  rw [lazily, lazily, Run.bind_apply, Run.bind_apply]
  cases hb : Run.truth context x w with
  | error h v => rfl
  | ok b v =>
    have hdecides : b = op.deciding := by
      by_contra hne
      have hopen : b = !op.deciding := Bool.eq_not_of_ne hne
      exact hx v (Run.truth_eq_ok_iff.mp (hopen ▸ hb))
    simp only [hdecides, if_true]

/-- The first action decides. -/
theorem lazily_of_deciding (hx : x w = .ok (.boolean op.deciding) v) :
    op.lazily negated context x y w = .ok (.boolean (op.deciding ^^ negated)) v := by
  rw [lazily, Run.bind_eq_of_ok (Run.truth_eq_ok_iff.mpr hx), if_pos rfl]
  rfl

end Lazily
end ConnectiveOp

/-- The negation of the boolean that an action gives. -/
def Run.negated (context : String) (x : Run Value) : Run Value := do
  let b ← Run.truth context x
  return .boolean (!b)

theorem Run.truth_negated (context context' : String) (x : Run Value) :
    truth context' (negated context x) = truth context x >>= fun b => pure (!b) := by
  rw [negated, truth_bind]
  rfl

namespace ConnectiveOp

variable (op : ConnectiveOp) (context context' : String) (x y : Run Value)

/-- A negation around the connective. -/
theorem negated_lazily :
    Run.negated context' (op.lazily false context x y) = op.lazily true context x y := by
  rw [Run.negated, lazily, lazily, Run.truth_bind, bind_assoc]
  refine bind_congr fun b => ?_
  split
  · simp only [Run.truth_pure, pure_bind, Bool.xor_false, Bool.xor_true]
  · simp only [Run.truth_bind, Run.truth_pure, bind_assoc, pure_bind, Bool.xor_false, Bool.xor_true]

/-- The other connective of the negations. -/
theorem lazily_dual :
    op.dual.lazily false context' (Run.negated context x) (Run.negated context y) =
      op.lazily true context x y := by
  rw [lazily, lazily, Run.truth_negated, Run.truth_negated, bind_assoc]
  refine bind_congr fun b => ?_
  simp only [pure_bind, bind_assoc, deciding_dual, Bool.not_inj_iff, Bool.xor_false, Bool.xor_true]

end ConnectiveOp

/-! ### Nodes without position -/

/-- A mark that gives no location. -/
structure Mark.Blank where
  /-- The mark. -/
  mark : Mark
  /-- It is void, or it knows no line. -/
  blank : mark.void = true ∨ mark.position.line = none

/-- The mark of the trees that are built construct by construct. -/
def Mark.Blank.none : Mark.Blank := ⟨{}, .inr rfl⟩

theorem Mark.Blank.location?_eq (m : Mark.Blank) (label : String) (children : List Node) :
    (Node.tree label children m.mark).position.location? = .none := by
  change (if m.mark.void then ({} : Position) else m.mark.position).location? = .none
  obtain hvoid | hline := m.blank
  · rw [if_pos hvoid]
    rfl
  · split
    · rfl
    · rw [Position.location?, hline]
      rfl

namespace Node

/-- A connective between its operands. -/
def connective (m : Mark.Blank) (op : ConnectiveOp) (a b : Node) : Node :=
  .tree ExpressionForm.binary.label [a, .operator op.symbol, b] m.mark

/-- A negation. -/
def negation (m : Mark.Blank) (a : Node) : Node :=
  .tree ExpressionForm.unary.label [.operator UnaryOp.not.symbol, a] m.mark

/-- A conditional with its branches. -/
def choice (m : Mark.Blank) (test consequent alternate : Node) : Node :=
  .tree ExpressionForm.conditional.label [test, consequent, alternate] m.mark

end Node

section Constructs

variable (levels : Nat) (m : Mark.Blank) (f : FrameId)

/-- Without position a tree is what its form makes of the children. -/
theorem eval_blank (form : ExpressionForm) (children : List Node) :
    eval (levels + 6) (.tree form.label children m.mark) f =
      evalForm (Parts.below levels) f form children := by
  rw [eval_form, Run.within_of_unlocated (m.location?_eq _ _)]

theorem eval_boolean (b : Bool) : eval (levels + 6) (.boolean b) f = pure (.boolean b) := by
  cases b <;> exact Run.within_of_unlocated rfl _

theorem eval_connective (op : ConnectiveOp) (a b : Node) :
    eval (levels + 6) (.connective m op a b) f =
      op.lazily false (operatorContext op.symbol) (eval (levels + 1) a f)
        (eval (levels + 1) b f) := by
  have hop : BinaryOp.ofSymbol? (Node.operator op.symbol).symbolText = some (.connective op) :=
    BinaryOp.ofSymbol?_symbol (.connective op)
  rw [Node.connective, eval_blank, evalForm, evalBinary, hop]
  simp only [evalConnective, ConnectiveOp.lazily, Run.truth, bind_assoc, Bool.xor_false]
  rfl

theorem eval_negation (a : Node) :
    eval (levels + 6) (.negation m a) f =
      Run.negated UnaryOp.not.context (eval (levels + 2) a f) := by
  have hop : UnaryOp.ofSymbol? (Node.operator UnaryOp.not.symbol).symbolText = some .not :=
    UnaryOp.ofSymbol?_symbol .not
  rw [Node.negation, eval_blank, evalForm, evalUnary, hop]
  simp only [Run.negated, Run.truth, bind_assoc]
  refine bind_congr fun v => ?_
  rw [UnaryOp.apply]
  cases Check.boolean UnaryOp.not.context v <;> rfl

theorem eval_choice (t a b : Node) :
    eval (levels + 6) (.choice m t a b) f =
      Run.truth "Conditional test" (eval (levels + 2) t f) >>= fun c =>
        eval (levels + 2) (if c then a else b) f := by
  rw [Node.choice, eval_blank, evalForm, evalConditional, Run.truth, bind_assoc]
  rfl

/-- A conditional between the two literals gives the truth of its test. -/
theorem eval_choice_booleans (t : Node) :
    eval (levels + 10) (.choice m t (.boolean true) (.boolean false)) f =
      Run.truth "Conditional test" (eval (levels + 6) t f) >>= fun c => pure (.boolean c) := by
  refine (eval_choice (levels + 4) m f t _ _).trans (bind_congr fun c => ?_)
  cases c with
  | false => exact eval_boolean levels f false
  | true => exact eval_boolean levels f true

end Constructs

/-! ### Wordings -/

/-- The ways to word a connective of two operands, or its negation. -/
inductive Wording where
  /-- The operator itself. -/
  | operator (m : Mark.Blank)
  /-- A conditional inside a conditional, with literals as the other branches. -/
  | conditional (outer inner : Mark.Blank)
  /-- The negation of the operator. -/
  | negated (outer inner : Mark.Blank)
  /-- The dual operator between the negated operands. -/
  | dual (outer left right : Mark.Blank)

namespace Wording

/-- Whether the connective is negated. -/
def negates : Wording → Bool
  | operator _ | conditional .. => false
  | negated .. | dual .. => true

/-- The context that the wording names for an operand that is not a boolean. -/
def context (op : ConnectiveOp) : Wording → String
  | operator _ | negated .. => operatorContext op.symbol
  | conditional .. => "Conditional test"
  | dual .. => UnaryOp.not.context

/-- The expression of the wording. -/
def node (op : ConnectiveOp) (a b : Node) : Wording → Node
  | operator m => .connective m op a b
  | conditional outer inner =>
    let rest := Node.choice inner b (.boolean true) (.boolean false)
    match op with
    | .and => .choice outer a rest (.boolean false)
    | .or => .choice outer a (.boolean true) rest
  | negated outer inner => .negation outer (.connective inner op a b)
  | dual outer left right => .connective outer op.dual (.negation left a) (.negation right b)

variable (way : Wording) (op : ConnectiveOp) (a b : Node) (f : FrameId)

/-- The operands are evaluated in this order and in no other way, with some of the levels. -/
theorem eval_node : ∃ i ≤ 16, ∃ j ≤ 16, ∀ levels,
    eval (levels + 16) (way.node op a b) f =
      op.lazily way.negates (way.context op) (eval (levels + i) a f) (eval (levels + j) b f) := by
  -- the bounds count the levels that each wording leaves to its operands
  cases way with
  | operator m => exact ⟨11, by decide, 11, by decide, fun levels => eval_connective _ m f op a b⟩
  | conditional outer inner =>
    refine ⟨12, by decide, 8, by decide, fun levels => ?_⟩
    have hrest := eval_choice_booleans (levels + 2) inner f b
    have hliteral := eval_boolean (levels + 6) f
    cases op with
    | and =>
      refine (eval_choice (levels + 10) outer f _ _ _).trans (bind_congr fun c => ?_)
      cases c with
      | false => exact hliteral false
      | true => exact hrest.trans (by simp only [Bool.xor_false, negates]; rfl)
    | or =>
      refine (eval_choice (levels + 10) outer f _ _ _).trans (bind_congr fun c => ?_)
      cases c with
      | true => exact hliteral true
      | false => exact hrest.trans (by simp only [Bool.xor_false, negates]; rfl)
  | negated outer inner =>
    refine ⟨7, by decide, 7, by decide, fun levels => ?_⟩
    rw [node, eval_negation (levels + 10), eval_connective (levels + 6), op.negated_lazily]
    rfl
  | dual outer left right =>
    refine ⟨7, by decide, 7, by decide, fun levels => ?_⟩
    rw [node, eval_connective (levels + 10), eval_negation (levels + 5), eval_negation (levels + 5),
      op.lazily_dual]
    rfl

/-- What a wording comes down to, with so many levels for the operands. -/
def action (levels : Nat) : Run Value :=
  op.lazily way.negates (way.context op) (eval levels a f) (eval levels b f)

/-- With enough levels for the operands the action does what the wording does. -/
theorem eval_node_below {levels k : Nat} (hle : levels ≤ k) :
    (eval levels (way.node op a b) f).Below (way.action op a b f (k + 16)) := by
  obtain ⟨i, hi, j, hj, hnode⟩ := way.eval_node op a b f
  refine (eval_below (Nat.le_add_right_of_le hle) _ f).trans (?_ : (eval (k + 16) _ f).Below _)
  rw [hnode]
  exact op.lazily_below _ (eval_below (Nat.add_le_add_left hi k) a f)
    (eval_below (Nat.add_le_add_left hj k) b f)

/-- With enough levels the wording does what the action does. -/
theorem below_eval_node {levels k : Nat} (hle : k + 16 ≤ levels) :
    (way.action op a b f k).Below (eval levels (way.node op a b) f) := by
  obtain ⟨i, hi, j, hj, hnode⟩ := way.eval_node op a b f
  refine Run.Below.trans ?_ (eval_below hle _ f)
  rw [hnode]
  exact op.lazily_below _ (eval_below (Nat.le_add_right k i) a f)
    (eval_below (Nat.le_add_right k j) b f)

end Wording

/-! ### Expressions that end alike -/

/-- An expression does not run out of so many levels. -/
def Node.SettlesIn (n : Node) (levels : Nat) (f : FrameId) (w : World) : Prop :=
  (eval levels n f).outcome w ≠ .error .overflow

theorem Node.exists_settlesIn_iff {n : Node} {f : FrameId} {w : World} :
    (∃ levels, n.SettlesIn levels f w) ↔ Settles (eval · n f) w := by
  constructor
  · rintro ⟨levels, h⟩
    exact ⟨levels, eval levels n f w, fun v hv => h (Run.outcome_eq_error_iff.mpr ⟨v, hv⟩),
      fun _ hle => ((eval_below hle n f).eq_of_ne h).symm⟩
  · rintro ⟨levels, r, hr, hend⟩
    refine ⟨levels, fun hoverflow => ?_⟩
    obtain ⟨v, hv⟩ := Run.outcome_eq_error_iff.mp hoverflow
    exact hr v (hend levels (Nat.le_refl levels) ▸ hv)

/-- Two expressions end alike in a frame and a world: if neither runs out of levels, whatever each is
given, they end in the same world, with the same value or with halts that differ in the text of an
error alone; and if some levels suffice for one, some suffice for the other. -/
structure Node.EndsLike (f : FrameId) (w : World) (n n' : Node) : Prop where
  resembles : ∀ levels levels', n.SettlesIn levels f w → n'.SettlesIn levels' f w →
    Run.Resembles (eval levels n f w) (eval levels' n' f w)
  settles_iff : Settles (eval · n f) w ↔ Settles (eval · n' f) w

namespace Wording

variable {way way' : Wording} {op : ConnectiveOp} {a b b' : Node} {f : FrameId} {w v : World}
  {levels levels' k : Nat}

/-- Two wordings come down to actions that differ in their contexts alone. -/
theorem action_resembles (hnegates : way.negates = way'.negates) (k : Nat) (w : World) :
    Run.Resembles (way.action op a b f k w) (way'.action op a b f k w) := by
  rw [action, action, hnegates]
  exact op.lazily_resembles _ _ _ _ _ w

private theorem settlesIn_of_settlesIn (hnegates : way.negates = way'.negates)
    (h : (way.node op a b).SettlesIn k f w) :
    (way'.node op a b).SettlesIn (k + 16 + 16) f w := by
  have haction := (way.eval_node_below op a b f (Nat.le_refl k)).eq_of_ne h
  have haction' : (way'.action op a b f (k + 16)).outcome w ≠ .error .overflow :=
    mt (action_resembles hnegates (k + 16) w).overflow_iff.mpr (Run.outcome_congr haction ▸ h)
  have hnode' := (way'.below_eval_node op a b f (Nat.le_refl (k + 16 + 16))).eq_of_ne haction'
  rw [Node.SettlesIn, ← Run.outcome_congr hnode']
  exact haction'

/-- Two wordings of one connective end alike if both negate it or neither does. -/
theorem endsLike (way way' : Wording) (hnegates : way.negates = way'.negates) (op : ConnectiveOp)
    (a b : Node) (f : FrameId) (w : World) :
    Node.EndsLike f w (way.node op a b) (way'.node op a b) where
  resembles levels levels' h h' := by
    have hle := Nat.le_max_left levels levels'
    have hle' := Nat.le_max_right levels levels'
    rw [(way.eval_node_below op a b f hle).eq_of_ne h,
      (way'.eval_node_below op a b f hle').eq_of_ne h']
    exact action_resembles hnegates _ w
  settles_iff := by
    rw [← Node.exists_settlesIn_iff, ← Node.exists_settlesIn_iff]
    exact ⟨fun ⟨_, h⟩ => ⟨_, settlesIn_of_settlesIn hnegates h⟩,
      fun ⟨_, h⟩ => ⟨_, settlesIn_of_settlesIn hnegates.symm h⟩⟩

/-- The right operand makes no difference unless the left one leaves the result open. -/
theorem eval_node_congr (way : Wording)
    (ha : ∀ k v, eval k a f w ≠ .ok (.boolean (!op.deciding)) v)
    (h : (way.node op a b).SettlesIn levels f w) (h' : (way.node op a b').SettlesIn levels' f w) :
    eval levels (way.node op a b) f w = eval levels' (way.node op a b') f w := by
  rw [(way.eval_node_below op a b f (Nat.le_max_left levels levels')).eq_of_ne h,
    (way.eval_node_below op a b' f (Nat.le_max_right levels levels')).eq_of_ne h']
  exact op.lazily_congr _ (ha _)

/-- The left operand decides. -/
theorem eval_node_of_deciding (way : Wording) (ha : eval k a f w = .ok (.boolean op.deciding) v)
    (hle : k + 16 ≤ levels) (b : Node) :
    eval levels (way.node op a b) f w = .ok (.boolean (op.deciding ^^ way.negates)) v :=
  (way.below_eval_node op a b f hle).eq_ok (op.lazily_of_deciding way.negates ha)

end Wording

/-- **Logical operators are lazy conditionals and obey De Morgan's laws, effects included.** For all
nodes `a` and `b`, in every frame and world and so under either scoping, each of the four pairs ends
alike: with the same value, or with an error of the same kind at the same location, and in the same
world, which holds the frames and the records. The marks `m₁` to `m₅` stand for any trees without
position. In every wording of a connective `b` makes no difference unless `a` leaves the result open,
and if `a` decides, the result is there whatever `b` is. -/
theorem connectives_lazy (a b : Node) (f : FrameId) (w : World) (m₁ m₂ m₃ m₄ m₅ : Mark.Blank) :
    Node.EndsLike f w (.connective m₁ .and a b)
        (.choice m₂ a (.choice m₃ b (.boolean true) (.boolean false)) (.boolean false)) ∧
      Node.EndsLike f w (.connective m₁ .or a b)
        (.choice m₂ a (.boolean true) (.choice m₃ b (.boolean true) (.boolean false))) ∧
      Node.EndsLike f w (.negation m₁ (.connective m₂ .and a b))
        (.connective m₃ .or (.negation m₄ a) (.negation m₅ b)) ∧
      Node.EndsLike f w (.negation m₁ (.connective m₂ .or a b))
        (.connective m₃ .and (.negation m₄ a) (.negation m₅ b)) ∧
      ∀ (way : Wording) (op : ConnectiveOp),
        ((∀ k v, eval k a f w ≠ .ok (.boolean (!op.deciding)) v) →
          ∀ b' levels levels', (way.node op a b).SettlesIn levels f w →
            (way.node op a b').SettlesIn levels' f w →
            eval levels (way.node op a b) f w = eval levels' (way.node op a b') f w) ∧
        ∀ k v, eval k a f w = .ok (.boolean op.deciding) v →
          ∀ levels, k + 16 ≤ levels →
            eval levels (way.node op a b) f w = .ok (.boolean (op.deciding ^^ way.negates)) v := by
  have hlazy (op : ConnectiveOp) : Node.EndsLike f w _ _ :=
    Wording.endsLike (.operator m₁) (.conditional m₂ m₃) rfl op a b f w
  have hdual (op : ConnectiveOp) : Node.EndsLike f w _ _ :=
    Wording.endsLike (.negated m₁ m₂) (.dual m₃ m₄ m₅) rfl op a b f w
  refine ⟨hlazy .and, hlazy .or, hdual .and, hdual .or, fun way op => ⟨fun ha b' levels levels' => ?_,
    fun k v ha levels hle => ?_⟩⟩
  · exact way.eval_node_congr ha
  · exact way.eval_node_of_deciding ha hle b

/-- A frame under flat scoping. It binds a function that gives back its parameter, so a call binds the
parameter in the frame, and a second call collides with the first one. -/
def latchFrames : World where
  store.frames :=
    #[{ parent := none
        label := "global"
        options := some { scoping := .flat }
        bindings := [("f", .closure
          { id := 6, parameters := ["x"], body := .name "x", frame := some 0 })] }]

/-- A call of the function. -/
def latchCall : Node := .call (.name "f") [.boolean true]

/-- Where the right operand is evaluated, its collision shows in both wordings of a negation; where the
left one decides, nothing shows of a right operand that is no expression. -/
theorem connectives_lazy_of_latchFrames :
    (eval 40 (.unary "!" (.binary latchCall "&&" latchCall)) 0).outcome latchFrames =
        .error (.error { cause := .alreadyDeclared "x" .variable }) ∧
      Run.Resembles (eval 40 (.unary "!" (.binary latchCall "&&" latchCall)) 0 latchFrames)
        (eval 50 (.binary (.unary "!" latchCall) "||" (.unary "!" latchCall)) 0 latchFrames) ∧
      ∃ v, eval 40 (.binary latchCall "||" (.plain .nothing)) 0 latchFrames =
          .ok (.boolean true) v ∧
        v.store.lookup? 0 "x" = some (.boolean true) := by
  obtain ⟨-, -, hdual, -, -⟩ :=
    connectives_lazy latchCall latchCall 0 latchFrames .none .none .none .none .none
  obtain ⟨-, -, -, -, hwordings⟩ :=
    connectives_lazy latchCall (.plain .nothing) 0 latchFrames .none .none .none .none .none
  exact ⟨rfl, hdual.resembles 40 50 nofun nofun, _,
    (hwordings (.operator .none) .or).2 24 _ rfl 40 (by decide), rfl⟩

end Bella
