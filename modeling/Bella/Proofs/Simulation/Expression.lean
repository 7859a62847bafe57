import Bella.Proofs.Node.Similar
import Bella.Proofs.Simulation.Basic
import Bella.Proofs.Subtree

/-!
# Simulations of expressions

A simulation couples the evaluation of an expression in one world with that of another expression in
another world. It says which nodes correspond to one another in which context, and it has a law for
each of the few things by which evaluation meets the world: looking a name up and calling a closure.
Everything else follows: corresponding nodes evaluate alike, in every number of levels.

How two nodes correspond is asked for one level at a time (`ExpressionMatch`): their parts have to
correspond again. Trees that are refused before any part is evaluated need only be refused alike.

## Main definitions

* `Bella.ExpressionMatch`: nodes that are evaluated by the same steps.
* `Bella.Setting`, `Bella.Simulation`: the data of a simulation, and its laws.

## Main results

* `Bella.Simulation.eval_agrees`: corresponding nodes evaluate alike.
* `Bella.Simulation.eval_agrees_of_suffices`: and so they do if the second run has more levels, once
  running out of levels is excused in the first one.
* `Bella.ExpressionMatch.of_similar`: similar nodes are evaluated by the same steps if their parts
  correspond and they are refused alike.
* `Bella.ExpressionMatch.refl`: every node is evaluated by the same steps as itself.
-/

namespace Bella

/-! ### Nodes that correspond -/

/-- Arguments that are evaluated by the same steps. -/
inductive ArgumentsMatch (nodes : Node → Node → Prop) (halts : Halt → Halt → Prop) :
    Option Node → Option Node → Prop
  | items {a a' : Option Node} {es es' : List Node}
      (h : ∀ eval f, evalArguments eval f a = evalAll eval f es)
      (h' : ∀ eval f, evalArguments eval f a' = evalAll eval f es')
      (hes : List.Forall₂ nodes es es') : ArgumentsMatch nodes halts a a'
  | halted {a a' : Option Node} {k k' : Halt} (h : ∀ eval f, evalArguments eval f a = throw k)
      (h' : ∀ eval f, evalArguments eval f a' = throw k') (hk : halts k k') :
      ArgumentsMatch nodes halts a a'

/-- Nodes that are evaluated by the same steps, given which parts, names and halts correspond. -/
inductive ExpressionMatch (nodes : Node → Node → Prop) (names : String → String → Prop)
    (halts : Halt → Halt → Prop) : Node → Node → Prop
  | number {n n' : Node} (x : Float) (h : ∀ parts f, evalNode parts n f = pure (.number x))
      (h' : ∀ parts f, evalNode parts n' f = pure (.number x)) :
      ExpressionMatch nodes names halts n n'
  | boolean {n n' : Node} (b : Bool) (h : ∀ parts f, evalNode parts n f = pure (.boolean b))
      (h' : ∀ parts f, evalNode parts n' f = pure (.boolean b)) :
      ExpressionMatch nodes names halts n n'
  | halted {n n' : Node} {k k' : Halt} (h : ∀ parts f, evalNode parts n f = throw k)
      (h' : ∀ parts f, evalNode parts n' f = throw k') (hk : halts k k') :
      ExpressionMatch nodes names halts n n'
  | refused {n n' : Node} {k k' : Halt} (need need' : Nat)
      (h : ∀ parts f, evalNode parts n f = Run.refusing need parts.levels (throw k))
      (h' : ∀ parts f, evalNode parts n' f = Run.refusing need' parts.levels (throw k'))
      (hk : halts k k') (hneed : need = need' ∨ halts .overflow k' ∧ halts k .overflow) :
      ExpressionMatch nodes names halts n n'
  | name {s s' : String} {p p' : Position} (h : names s s') :
      ExpressionMatch nodes names halts (.token TokenForm.name.type s p)
        (.token TokenForm.name.type s' p')
  | unary {op op' e e' : Node} {rest rest' : List Node} {m m' : Mark} (o : UnaryOp)
      (ho : UnaryOp.ofSymbol? op.symbolText = some o)
      (ho' : UnaryOp.ofSymbol? op'.symbolText = some o) (he : nodes e e') :
      ExpressionMatch nodes names halts (.tree ExpressionForm.unary.label (op :: e :: rest) m)
        (.tree ExpressionForm.unary.label (op' :: e' :: rest') m')
  | binary {op op' l l' r r' : Node} {m m' : Mark} (o : BinaryOp)
      (ho : BinaryOp.ofSymbol? op.symbolText = some o)
      (ho' : BinaryOp.ofSymbol? op'.symbolText = some o) (hl : nodes l l') (hr : nodes r r') :
      ExpressionMatch nodes names halts (.tree ExpressionForm.binary.label [l, op, r] m)
        (.tree ExpressionForm.binary.label [l', op', r'] m')
  | conditional {t t' a a' b b' : Node} {m m' : Mark} (ht : nodes t t') (ha : nodes a a')
      (hb : nodes b b') :
      ExpressionMatch nodes names halts (.tree ExpressionForm.conditional.label [t, a, b] m)
        (.tree ExpressionForm.conditional.label [t', a', b'] m')
  | array {es es' : List Node} {m m' : Mark} (hes : List.Forall₂ nodes es es') :
      ExpressionMatch nodes names halts (.tree ExpressionForm.array.label es m)
        (.tree ExpressionForm.array.label es' m')
  | subscript {t t' i i' : Node} {m m' : Mark} (ht : nodes t t') (hi : nodes i i') :
      ExpressionMatch nodes names halts (.tree ExpressionForm.subscript.label [t, i] m)
        (.tree ExpressionForm.subscript.label [t', i'] m')
  | call {s s' : String} {p p' : Position} {rest rest' : List Node} {m m' : Mark}
      (hname : names s s') (harguments : ArgumentsMatch nodes halts rest.head? rest'.head?) :
      ExpressionMatch nodes names halts
        (.tree ExpressionForm.call.label (.token TokenForm.name.type s p :: rest) m)
        (.tree ExpressionForm.call.label (.token TokenForm.name.type s' p' :: rest') m')

/-! ### Settings and simulations -/

/-- The data of a simulation. -/
structure Setting extends Coupling where
  /-- What is known of the surroundings of a node. -/
  Context : Type
  /-- The closures that correspond to one another. -/
  closures : Closure → Closure → Prop
  /-- The nodes that correspond to one another in a context. -/
  nodes : Context → Node → Node → Prop
  /-- The names that correspond to one another in a context. -/
  names : Context → String → String → Prop
  /-- The frames in which nodes of a context are evaluated. -/
  scope : Context → FrameId → FrameId → World → World → Prop

namespace Setting

variable (S : Setting)

/-- Values that are equal up to corresponding closures. -/
def values : Value → Value → Prop := Value.Related S.closures

/-- Two evaluators that agree on corresponding nodes. -/
def Evaluates (eval eval' : Evaluator) : Prop :=
  ∀ {c n n' f f' w w'}, S.nodes c n n' → S.scope c f f' w w' → S.worlds w w' →
    S.Agrees S.values (eval n f) (eval' n' f') w w'

end Setting

/-- A setting in which corresponding nodes evaluate alike. -/
structure Simulation extends Setting where
  shape : ∀ {c n n'}, nodes c n n' → ExpressionMatch (nodes c) (names c) halts n n'
  closures_id : ∀ {k k'}, closures k k' → k.id = k'.id
  halts_locate : ∀ {c n n' h h'}, nodes c n n' → halts h h' →
    halts (h.locate n.position) (h'.locate n'.position)
  excused_locate : ∀ {h} (p : Position), excused h → excused (h.locate p)
  halts_notCallable : ∀ {c x x'} (kind : Kind), names c x x' →
    halts (.error { cause := .notCallable x kind }) (.error { cause := .notCallable x' kind })
  scope_grows : ∀ {c f f' w w' v v'}, scope c f f' w w' → grows w w' v v' → scope c f f' v v'
  lookup : ∀ {c x x' f f' w w'}, names c x x' → scope c f f' w w' → worlds w w' →
    toCoupling.Agrees toSetting.values (Run.lookup f x) (Run.lookup f' x') w w'
  excused_overflow : ∀ {x}, excused (.error { cause := .notDeclared x }) → excused .overflow
  call : ∀ {eval eval' c x x' k k' vs vs' f f' w w'}, toSetting.Evaluates eval eval' →
    names c x x' → closures k k' → List.Forall₂ toSetting.values vs vs' → scope c f f' w w' →
    worlds w w' →
    toCoupling.Agrees toSetting.values (callClosure eval x k vs f) (callClosure eval' x' k' vs' f')
      w w'

namespace Simulation

variable (S : Simulation) {c : S.Context} {f f' : FrameId} {w w' : World} {eval eval' : Evaluator}

/-! ### Constructs -/

theorem evalAll_agrees (heval : S.Evaluates eval eval') {es es' : List Node}
    (hes : List.Forall₂ (S.nodes c) es es') (hscope : S.scope c f f' w w')
    (hworlds : S.worlds w w') :
    S.Agrees (List.Forall₂ S.values) (evalAll eval f es) (evalAll eval' f' es') w w' := by
  induction hes generalizing w w' with
  | nil => exact .pure .nil hworlds
  | cons he _ ih =>
    refine .bind (heval he hscope hworlds) fun a b v v' hab hv hgrows => ?_
    refine .bind (ih (S.scope_grows hscope hgrows) hv) fun as bs u u' hrest hu _ => ?_
    exact .pure (.cons hab hrest) hu

theorem callBuiltin_agrees (b : Builtin) {vs vs' : List Value} (hvs : List.Forall₂ S.values vs vs')
    (hworlds : S.worlds w w') :
    S.Agrees S.values (callBuiltin b vs) (callBuiltin b vs') w w' := by
  simp only [callBuiltin, hvs.length_eq]
  split
  · exact .fail rfl hworlds
  · refine .bind (.check (Check.numbers_alike b.name hvs) hworlds) fun xs ys v v' hxy hv _ => ?_
    rw [hxy]
    exact .pure (.number _) hv

theorem callValue_agrees (heval : S.Evaluates eval eval') {x x' : String} (hx : S.names c x x')
    {v v' : Value} (hv : S.values v v') {vs vs' : List Value} (hvs : List.Forall₂ S.values vs vs')
    (hscope : S.scope c f f' w w') (hworlds : S.worlds w w') :
    S.Agrees S.values (callValue eval x v vs f) (callValue eval' x' v' vs' f') w w' := by
  cases hv with
  | closure hk => exact S.call heval hx hk hvs hscope hworlds
  | builtin b => exact S.callBuiltin_agrees b hvs hworlds
  | number | boolean | array | foreign => exact .throw (S.halts_notCallable _ hx) hworlds

theorem evalArguments_agrees (heval : S.Evaluates eval eval') {a a' : Option Node}
    (ha : ArgumentsMatch (S.nodes c) S.halts a a') (hscope : S.scope c f f' w w')
    (hworlds : S.worlds w w') :
    S.Agrees (List.Forall₂ S.values) (evalArguments eval f a) (evalArguments eval' f' a') w w' := by
  cases ha with
  | items h h' hes =>
    rw [h, h']
    exact S.evalAll_agrees heval hes hscope hworlds
  | halted h h' hk =>
    rw [h, h']
    exact .throw hk hworlds

theorem evalCall_agrees {body body' : Evaluator} (heval : S.Evaluates eval eval')
    (hbody : S.Evaluates body body') {s s' : String} {p p' : Position}
    {rest rest' : List Node} (hname : S.names c s s')
    (harguments : ArgumentsMatch (S.nodes c) S.halts rest.head? rest'.head?)
    (hscope : S.scope c f f' w w') (hworlds : S.worlds w w') :
    S.Agrees S.values (evalCall eval body f (.token TokenForm.name.type s p :: rest))
      (evalCall eval' body' f' (.token TokenForm.name.type s' p' :: rest')) w w' := by
  simp only [evalCall, Run.check_identifier, pure_bind]
  refine .bind (S.lookup hname hscope hworlds) fun k k' u u' hk hu hgrows => ?_
  have hscope := S.scope_grows hscope hgrows
  rw [hk.isFunction_eq, hk.kind_eq]
  split
  · refine .bind (S.evalArguments_agrees heval harguments hscope hu)
      fun vs vs' t t' hvs ht hgrows => ?_
    exact S.callValue_agrees hbody hname hk hvs (S.scope_grows hscope hgrows) ht
  · exact .throw (S.halts_notCallable _ hname) hu

theorem evalConnective_agrees (heval : S.Evaluates eval eval') (o : ConnectiveOp) {l l' r r' : Node}
    (hl : S.nodes c l l') (hr : S.nodes c r r') (hscope : S.scope c f f' w w')
    (hworlds : S.worlds w w') :
    S.Agrees S.values (evalConnective eval f o l r) (evalConnective eval' f' o l' r') w w' := by
  refine .bind (heval hl hscope hworlds) fun a a' v v' ha hv hgrows => ?_
  have hscope := S.scope_grows hscope hgrows
  refine .bind (.check (Check.boolean_alike _ ha) hv) fun b b' u u' hb hu hgrows => ?_
  have hscope := S.scope_grows hscope hgrows
  subst hb
  split
  · exact .pure (.boolean b) hu
  · refine .bind (heval hr hscope hu) fun a a' t t' ha ht _ => ?_
    refine .bind (.check (Check.boolean_alike _ ha) ht) fun b b' s s' hb hs _ => ?_
    subst hb
    exact .pure (.boolean b) hs

/-- Two parts that are evaluated in order. -/
private theorem pair_agrees {α β : Type} {ρ : α → β → Prop} (heval : S.Evaluates eval eval')
    {l l' r r' : Node} (hl : S.nodes c l l') (hr : S.nodes c r r')
    {k : Value → Value → Run α} {k' : Value → Value → Run β}
    (hk : ∀ a a' b b' v v', S.values a a' → S.values b b' → S.worlds v v' →
      S.Agrees ρ (k a b) (k' a' b') v v')
    (hscope : S.scope c f f' w w') (hworlds : S.worlds w w') :
    S.Agrees ρ (do k (← eval l f) (← eval r f)) (do k' (← eval' l' f') (← eval' r' f')) w w' := by
  refine .bind (heval hl hscope hworlds) fun a a' v v' ha hv hgrows => ?_
  refine .bind (heval hr (S.scope_grows hscope hgrows) hv) fun b b' u u' hb hu _ => ?_
  exact hk a a' b b' u u' ha hb hu

/-- The second run has as many levels as the first one, or more if running out of them excuses the
first run. -/
def Suffices (levels levels' : Nat) : Prop :=
  levels = levels' ∨ S.excused .overflow ∧ levels ≤ levels'

/-- Evaluators for the parts of two nodes that agree. -/
structure PartsAgree (parts parts' : Parts) : Prop where
  levels : S.Suffices parts.levels parts'.levels
  operand : S.Evaluates parts.operand parts'.operand
  element : S.Evaluates parts.element parts'.element
  argument : S.Evaluates parts.argument parts'.argument
  body : S.Evaluates parts.body parts'.body

variable {parts parts' : Parts} {S}

/-- Looking a name up is a law of the simulation, and the error for one that is not declared is made
in both runs, or in neither, or the first run is excused. -/
theorem lookupWithin_agrees {levels levels' : Nat} (hlevels : S.Suffices levels levels')
    {x x' : String} (hx : S.names c x x') (hscope : S.scope c f f' w w')
    (hworlds : S.worlds w w') :
    S.Agrees S.values (Run.refusing lookupLevels levels (Run.lookup f x))
      (Run.refusing lookupLevels levels' (Run.lookup f' x')) w w' := by
  have hlookup := S.lookup hx hscope hworlds
  unfold Coupling.Agrees at hlookup ⊢
  rw [Run.refusing_apply, Run.refusing_apply]
  have hmissing {k : Halt} {v : World} (h : Run.lookup f x w = .error k v) (hk : S.excused k) :
      S.excused .overflow := by
    rw [Run.lookup_apply] at h
    split at h <;> cases h
    exact S.excused_overflow hk
  generalize Run.lookup f x w = r, Run.lookup f' x' w' = r' at hlookup hmissing ⊢
  cases hlookup with
  | ok hresult hv hgrows => exact .ok hresult hv hgrows
  | error hhalts hv hgrows =>
    obtain rfl | ⟨hexcused, hle⟩ := hlevels
    · by_cases hfew : levels < lookupLevels
      · simp only [hfew, if_true]
        exact .error S.comparison.overflow hv hgrows
      · simp only [hfew, if_false]
        exact .error hhalts hv hgrows
    · by_cases hfew : levels < lookupLevels
      · simp only [hfew, if_true]
        exact .excused hexcused
      · have hmany : ¬ levels' < lookupLevels := by omega
        simp only [hfew, hmany, if_false]
        exact .error hhalts hv hgrows
  | excused hk =>
    by_cases hfew : levels < lookupLevels
    · simp only [hfew, if_true]
      exact .excused (hmissing rfl hk)
    · simp only [hfew, if_false]
      exact .excused hk

/-- Errors that take levels are made in both runs, or they give way to too deep a nesting. -/
theorem refused_agrees {levels levels' : Nat} (hlevels : S.Suffices levels levels')
    {need need' : Nat} {k k' : Halt} (hk : S.halts k k')
    (hneed : need = need' ∨ S.halts .overflow k' ∧ S.halts k .overflow) (hworlds : S.worlds w w') :
    S.Agrees S.values (Run.refusing need levels (throw k)) (Run.refusing need' levels' (throw k'))
      w w' := by
  rw [Run.refusing_throw, Run.refusing_throw]
  by_cases hfew : levels < need <;> by_cases hfew' : levels' < need' <;>
    simp only [hfew, hfew', if_true, if_false]
  · exact .throw S.comparison.overflow hworlds
  · obtain rfl | ⟨hleft, -⟩ := hneed
    · obtain rfl | ⟨hexcused, -⟩ := hlevels
      · exact absurd hfew hfew'
      · exact .excused hexcused
    · exact .throw hleft hworlds
  · obtain rfl | ⟨-, hright⟩ := hneed
    · have hle : levels ≤ levels' := hlevels.elim Nat.le_of_eq And.right
      omega
    · exact .throw hright hworlds
  · exact .throw hk hworlds

theorem compareWithin_agrees {levels levels' : Nat} (hlevels : S.Suffices levels levels')
    (o : EqualityOp) {a a' b b' : Value} (ha : S.values a a') (hb : S.values b b')
    (hworlds : S.worlds w w') :
    S.Agrees S.values (Run.checkWithin (o.compareWithin (arraysWithin levels) a b))
      (Run.checkWithin (o.compareWithin (arraysWithin levels') a' b')) w w' := by
  have halike (depth : Nat) := o.compareWithin_alike (fun _ _ => S.closures_id) depth ha hb
  obtain rfl | ⟨hexcused, hle⟩ := hlevels
  · exact .checkWithin (halike _) hworlds
  · cases hfirst : o.compareWithin (arraysWithin levels) a b with
    | none => exact .excused hexcused
    | some r =>
      have hmore : o.compareWithin (arraysWithin levels') a b = some r :=
        EqualityOp.compareWithin_of_le (Nat.div_le_div_right hle) hfirst
      have h := halike (arraysWithin levels')
      rw [hmore] at h
      exact .checkWithin h hworlds

theorem evalBinary_agrees (hparts : S.PartsAgree parts parts') {op op' l l' r r' : Node}
    (o : BinaryOp) (ho : BinaryOp.ofSymbol? op.symbolText = some o)
    (ho' : BinaryOp.ofSymbol? op'.symbolText = some o) (hl : S.nodes c l l') (hr : S.nodes c r r')
    (hscope : S.scope c f f' w w') (hworlds : S.worlds w w') :
    S.Agrees S.values (evalBinary parts f [l, op, r]) (evalBinary parts' f' [l', op', r'])
      w w' := by
  simp only [evalBinary, ho, ho']
  cases o with
  | connective o => exact S.evalConnective_agrees hparts.element o hl hr hscope hworlds
  | equality o =>
    refine S.pair_agrees hparts.operand hl hr (fun a a' b b' v v' ha hb hv => ?_) hscope hworlds
    exact compareWithin_agrees hparts.levels o ha hb hv
  | comparison o =>
    refine S.pair_agrees hparts.operand hl hr (fun a a' b b' v v' ha hb hv => ?_) hscope hworlds
    refine .bind (.check (numericOperands_alike o.symbol ha hb) hv) fun x y u u' hxy hu _ => ?_
    rw [hxy]
    exact .pure (.boolean _) hu
  | arithmetic o =>
    refine S.pair_agrees hparts.operand hl hr (fun a a' b b' v v' ha hb hv => ?_) hscope hworlds
    refine .bind (.check (numericOperands_alike o.symbol ha hb) hv) fun x y u u' hxy hu _ => ?_
    rw [hxy]
    exact .pure (.number _) hu

/-! ### All expressions -/

/-- Nodes that are evaluated by the same steps evaluate alike if their parts do. -/
theorem evalNode_agrees (hparts : S.PartsAgree parts parts') {n n' : Node}
    (hn : ExpressionMatch (S.nodes c) (S.names c) S.halts n n') (hscope : S.scope c f f' w w')
    (hworlds : S.worlds w w') :
    S.Agrees S.values (evalNode parts n f) (evalNode parts' n' f') w w' := by
  cases hn with
  | number x h h' =>
    rw [h, h']
    exact .pure (.number x) hworlds
  | boolean b h h' =>
    rw [h, h']
    exact .pure (.boolean b) hworlds
  | halted h h' hk =>
    rw [h, h']
    exact .throw hk hworlds
  | refused need need' h h' hk hneed =>
    rw [h, h']
    exact refused_agrees hparts.levels hk hneed hworlds
  | name h =>
    simp only [evalNode, evalToken, TokenForm.ofType?_type]
    exact lookupWithin_agrees hparts.levels h hscope hworlds
  | unary o ho ho' he =>
    simp only [evalNode, ExpressionForm.ofLabel?_label, evalForm, evalUnary, ho, ho']
    refine .bind (hparts.operand he hscope hworlds) fun a a' v v' ha hv _ => ?_
    exact .check (o.apply_alike ha) hv
  | binary o ho ho' hl hr =>
    simp only [evalNode, ExpressionForm.ofLabel?_label, evalForm]
    exact evalBinary_agrees hparts o ho ho' hl hr hscope hworlds
  | conditional ht ha hb =>
    simp only [evalNode, ExpressionForm.ofLabel?_label, evalForm, evalConditional]
    refine .bind (hparts.operand ht hscope hworlds) fun a a' v v' hv hworlds hgrows => ?_
    have hscope := S.scope_grows hscope hgrows
    refine .bind (.check (Check.boolean_alike _ hv) hworlds) fun x x' u u' hx hworlds hgrows => ?_
    have hscope := S.scope_grows hscope hgrows
    subst hx
    cases x with
    | true => exact hparts.operand ha hscope hworlds
    | false => exact hparts.operand hb hscope hworlds
  | array hes =>
    simp only [evalNode, ExpressionForm.ofLabel?_label, evalForm, evalArray]
    refine .bind (S.evalAll_agrees hparts.element hes hscope hworlds) fun vs vs' v v' hvs hv _ => ?_
    exact .pure (.array hvs) hv
  | subscript ht hi =>
    simp only [evalNode, ExpressionForm.ofLabel?_label, evalForm, evalSubscript]
    refine S.pair_agrees hparts.operand ht hi (fun a a' b b' v v' ha hb hv => ?_) hscope hworlds
    exact .check (Check.element_alike ha hb) hv
  | call hname harguments =>
    simp only [evalNode, ExpressionForm.ofLabel?_label, evalForm]
    exact S.evalCall_agrees hparts.argument hparts.body hname harguments hscope hworlds

variable (S)

/-- With too few levels nothing is evaluated. -/
theorem eval_eq_overflow {levels : Nat} (hfew : levels < 6) (n : Node) (f : FrameId) :
    Bella.eval levels n f = throw .overflow := by
  match levels, hfew with
  | 0, _ | 1, _ | 2, _ | 3, _ | 4, _ | 5, _ => rfl

/-- Corresponding nodes evaluate alike if the second run has enough levels. -/
theorem eval_agrees_of_suffices {levels levels' : Nat} (hlevels : S.Suffices levels levels') :
    S.Evaluates (Bella.eval levels) (Bella.eval levels') := by
  induction levels using Nat.strongRecOn generalizing levels' with
  | ind levels ih =>
    intro c n n' f f' w w' hn hscope hworlds
    obtain hfew | hmany := Nat.lt_or_ge levels 6
    · rw [eval_eq_overflow hfew]
      obtain rfl | ⟨hexcused, -⟩ := hlevels
      · rw [eval_eq_overflow hfew]
        exact .throw S.comparison.overflow hworlds
      · exact .excused hexcused
    · have hmany' : 6 ≤ levels' := by
        unfold Suffices at hlevels
        omega
      obtain ⟨left, rfl⟩ := Nat.exists_eq_add_of_le' hmany
      obtain ⟨left', rfl⟩ := Nat.exists_eq_add_of_le' hmany'
      have hless (k : Nat) : S.Suffices (left + k) (left' + k) :=
        hlevels.imp (fun h => by omega) fun h => ⟨h.1, by omega⟩
      have hparts : S.PartsAgree
          { levels := left + 2, operand := Bella.eval (left + 2),
            element := Bella.eval (left + 1), argument := Bella.eval left,
            body := Bella.eval left }
          { levels := left' + 2, operand := Bella.eval (left' + 2),
            element := Bella.eval (left' + 1), argument := Bella.eval left',
            body := Bella.eval left' } :=
        ⟨hless 2, ih _ (by omega) (hless 2), ih _ (by omega) (hless 1), ih _ (by omega) (hless 0),
          ih _ (by omega) (hless 0)⟩
      exact (evalNode_agrees hparts (S.shape hn) hscope hworlds).within
        (fun _ _ => S.halts_locate hn) fun _ => S.excused_locate _

/-- Corresponding nodes evaluate alike, in every number of levels. -/
theorem eval_agrees (levels : Nat) : S.Evaluates (Bella.eval levels) (Bella.eval levels) :=
  S.eval_agrees_of_suffices (.inl rfl)

end Simulation

/-! ### Similar nodes -/

/-- A node in which a name is found is a token of that name. -/
theorem Check.eq_token_of_identifier {role : String} {n : Node} {s : String}
    (h : identifier role n = .ok s) : ∃ p, n = .token TokenForm.name.type s p := by
  cases n with
  | token type text p =>
    rw [identifier] at h
    split at h
    · rename_i htype
      cases h
      exact ⟨p, by rw [htype]⟩
    · cases h
  | tree | hollow | improper | plain | list => cases h

section Similar

variable {ρ nodes : Node → Node → Prop} {names : String → String → Prop} {halts : Halt → Halt → Prop}

theorem ExpressionForm.label_of_ofLabel? {label : String} {form : ExpressionForm}
    (h : ofLabel? label = some form) : label = form.label := by
  unfold ofLabel? at h
  split at h <;> first | (cases h; rfl) | contradiction

theorem TokenForm.type_of_ofType? {type : String} {form : TokenForm}
    (h : ofType? type = some form) : type = form.type := by
  unfold ofType? at h
  split at h <;> first | (cases h; rfl) | contradiction

/-- What numerals hold that are similar is the same number, or it is refused alike. -/
theorem evalContents_similar (hρ : Node.IsSimilarity ρ) {n n' : Node}
    (hn : ρ n n') :
    (∃ x, evalContents n = pure (.number x) ∧ evalContents n' = pure (.number x)) ∨
      (evalContents n = Run.fail (.wrongContents n) ∧
        evalContents n' = Run.fail (.wrongContents n')) ∨
      n.isNumeric = false ∧
        ∃ d, evalContents n = throw (.defect d) ∧ evalContents n' = throw (.defect d) := by
  have hsymbol := hρ.symbolText_eq hn
  cases hρ hn with
  | tree | hollow | list => exact .inr (.inr ⟨rfl, _, rfl, rfl⟩)
  | token | improper =>
    simp only [evalContents, hsymbol]
    cases Numeral.read? _ with
    | none => exact .inr (.inl ⟨rfl, rfl⟩)
    | some x => exact .inl ⟨x, rfl, rfl⟩
  | plain value =>
    cases value with
    | nothing => exact .inr (.inr ⟨rfl, _, rfl, rfl⟩)
    | truth b => exact .inl ⟨_, rfl, rfl⟩
    | real x => exact .inl ⟨x, rfl, rfl⟩
    | whole k =>
      simp only [evalContents, Node.isNumeric]
      cases Number.ofInt? k with
      | none => exact .inr (.inr ⟨rfl, _, rfl, rfl⟩)
      | some x => exact .inl ⟨x, rfl, rfl⟩
    | text s =>
      simp only [evalContents]
      cases Numeral.read? _ with
      | none => exact .inr (.inl ⟨rfl, rfl⟩)
      | some x => exact .inl ⟨x, rfl, rfl⟩

/-- Numerals of one text are evaluated by the same steps, whether they spell a number or not. -/
theorem ExpressionMatch.numeral {text : String} (p p' : Position)
    (hhalts : Numeral.read? text = none →
      halts (.error { cause := .wrongNumeral text }) (.error { cause := .wrongNumeral text })) :
    ExpressionMatch nodes names halts (.token TokenForm.numeral.type text p)
      (.token TokenForm.numeral.type text p') := by
  cases hread : Numeral.read? text with
  | none =>
    have h (q : Position) (parts : Parts) (f : FrameId) :
        evalNode parts (.token TokenForm.numeral.type text q) f =
          throw (.error { cause := .wrongNumeral text }) := by
      simp only [evalNode, evalToken, TokenForm.ofType?_type, Check.numeral, hread]
      rfl
    exact .halted (h p) (h p') (hhalts hread)
  | some x =>
    have h (q : Position) (parts : Parts) (f : FrameId) :
        evalNode parts (.token TokenForm.numeral.type text q) f = pure (.number x) := by
      simp only [evalNode, evalToken, TokenForm.ofType?_type, Check.numeral, hread]
      rfl
    exact .number x (h p) (h p')

/-- Trees with one symbol before corresponding operands, whether the symbol is known or not. -/
theorem ExpressionMatch.unary_of_symbol {op op' e e' : Node} {rest rest' : List Node} {m m' : Mark}
    (hop : op.symbolText = op'.symbolText) (he : nodes e e')
    (hhalts : UnaryOp.ofSymbol? op'.symbolText = none →
      halts (.error { cause := .unknownUnary op'.symbolText })
        (.error { cause := .unknownUnary op'.symbolText })) :
    ExpressionMatch nodes names halts (.tree ExpressionForm.unary.label (op :: e :: rest) m)
      (.tree ExpressionForm.unary.label (op' :: e' :: rest') m') := by
  cases ho : UnaryOp.ofSymbol? op'.symbolText with
  | none =>
    have h {k d : Node} {ds : List Node} {l : Mark} (hk : k.symbolText = op'.symbolText)
        (parts : Parts) (f : FrameId) :
        evalNode parts (.tree ExpressionForm.unary.label (k :: d :: ds) l) f =
          throw (.error { cause := .unknownUnary op'.symbolText }) := by
      simp only [evalNode, ExpressionForm.ofLabel?_label, evalForm, evalUnary, hk, ho, Run.fail]
    exact .halted (h hop) (h rfl) (hhalts ho)
  | some o => exact .unary o (hop ▸ ho) ho he

/-- Trees with one symbol between corresponding operands, whether the symbol is known or not. -/
theorem ExpressionMatch.binary_of_symbol {op op' l l' r r' : Node} {m m' : Mark}
    (hop : op.symbolText = op'.symbolText) (hl : nodes l l') (hr : nodes r r')
    (hhalts : BinaryOp.ofSymbol? op'.symbolText = none →
      halts (.error { cause := .unknownBinary op'.symbolText })
        (.error { cause := .unknownBinary op'.symbolText })) :
    ExpressionMatch nodes names halts (.tree ExpressionForm.binary.label [l, op, r] m)
      (.tree ExpressionForm.binary.label [l', op', r'] m') := by
  cases ho : BinaryOp.ofSymbol? op'.symbolText with
  | none =>
    have h {k a b : Node} {q : Mark} (hk : k.symbolText = op'.symbolText) (parts : Parts)
        (f : FrameId) :
        evalNode parts (.tree ExpressionForm.binary.label [a, k, b] q) f =
          throw (.error { cause := .unknownBinary op'.symbolText }) := by
      simp only [evalNode, ExpressionForm.ofLabel?_label, evalForm, evalBinary, hk, ho, Run.fail]
    exact .halted (h hop) (h rfl) (hhalts ho)
  | some o => exact .binary o (hop ▸ ho) ho hl hr

/-! A tree that has the parts of its label is refused with an error of the language, if it is
refused at all. -/

section Refused

variable (hρ : Node.IsSimilarity ρ)
  (hcauses : ∀ c c' : Cause, c.Similar ρ c' →
    halts (.error { cause := c }) (.error { cause := c' }))
include hρ hcauses

private theorem ArgumentsMatch.of_similar {a a' : Option Node} (h : Option.Rel ρ a a')
    (hnodes : ∀ n ∈ a, ∀ e ∈ n.children, ∀ e', ρ e e' → nodes e e') :
    ArgumentsMatch nodes halts a a' := by
  cases h with
  | none => exact .items (fun _ _ => rfl) (fun _ _ => rfl) .nil
  | @some n n' h =>
    have hnothing_eq := hρ.isNothing_eq h
    have hlabel_eq := hρ.label?_eq h
    by_cases hnothing : n'.isNothing
    · have hitems {k : Node} (hk : k.isNothing = n'.isNothing) (eval : Evaluator) (f : FrameId) :
          evalArguments eval f (some k) = evalAll eval f [] := by
        simp [evalArguments, hk, hnothing, evalAll]
      exact .items (hitems hnothing_eq) (hitems rfl) .nil
    · by_cases hlabel : n'.label? = some Node.argumentsLabel
      · have hitems {k : Node} (hk : k.isNothing = n'.isNothing) (hk' : k.label? = n'.label?)
            (eval : Evaluator) (f : FrameId) :
            evalArguments eval f (some k) = evalAll eval f k.children := by
          simp [evalArguments, hk, hk', hnothing, hlabel]
        exact .items (hitems hnothing_eq hlabel_eq) (hitems rfl rfl)
          (forall₂_of_mem (hρ.children h) (hnodes n rfl))
      · have hrefused {k : Node} (hk : k.isNothing = n'.isNothing) (hk' : k.label? = n'.label?)
            (eval : Evaluator) (f : FrameId) :
            evalArguments eval f (some k) = throw (.error { cause := .wrongArguments k }) := by
          simp [evalArguments, hk, hk', hnothing, hlabel, Run.fail]
        exact .halted (hrefused hnothing_eq hlabel_eq) (hrefused rfl rfl)
          (hcauses _ _ (.wrongArguments h))

omit hρ in
private theorem ExpressionMatch.token_of_similar (hnames : ∀ x, names x x) (type text : String)
    (p p' : Position) :
    ExpressionMatch nodes names halts (.token type text p) (.token type text p') := by
  cases hform : TokenForm.ofType? type with
  | none =>
    have h (q : Position) (parts : Parts) (f : FrameId) :
        evalNode parts (.token type text q) f =
          throw (.error { cause := .unknownToken type text }) := by
      simp only [evalNode, evalToken, hform, Run.fail]
    exact .halted (h p) (h p') (hcauses _ _ (.same _))
  | some form =>
    obtain rfl := TokenForm.type_of_ofType? hform
    cases form with
    | numeral => exact .numeral p p' fun _ => hcauses _ _ (.same _)
    | true => exact .boolean true (fun _ _ => rfl) fun _ _ => rfl
    | false => exact .boolean false (fun _ _ => rfl) fun _ _ => rfl
    | name => exact .name (hnames text)

private theorem ExpressionMatch.call_of_similar (hnames : ∀ x, names x x) {ns ns' : List Node}
    (m m' : Mark) (hns : List.Forall₂ ρ ns ns')
    (hnodes : ∀ e ∈ (Node.tree ExpressionForm.call.label ns m).subtrees, ∀ e', ρ e e' →
      nodes e e') :
    ExpressionMatch nodes names halts (.tree ExpressionForm.call.label ns m)
      (.tree ExpressionForm.call.label ns' m') := by
  match ns, ns', hns, hnodes with
  | [], [], .nil, _ => exact .halted (fun _ _ => rfl) (fun _ _ => rfl) (hcauses _ _ (.same _))
  | callee :: rest, callee' :: rest', .cons hcallee hrest, hnodes =>
    have hname_eq := Check.identifier_eq hρ "Callee" hcallee
    cases hname : Check.identifier "Callee" callee' with
    | error c =>
      have h {k : Node} {ks : List Node} {l : Mark}
          (hk : Check.identifier "Callee" k = Check.identifier "Callee" callee') (parts : Parts)
          (f : FrameId) :
          evalNode parts (.tree ExpressionForm.call.label (k :: ks) l) f =
            throw (.error { cause := c }) := by
        simp only [evalNode, ExpressionForm.ofLabel?_label, evalForm, evalCall, hk, hname]
        rfl
      exact .halted (h hname_eq) (h rfl) (hcauses _ _ (.same _))
    | ok s =>
      obtain ⟨p', rfl⟩ := Check.eq_token_of_identifier hname
      obtain ⟨p, rfl⟩ := Check.eq_token_of_identifier (hname_eq.trans hname)
      have harguments : Option.Rel ρ rest.head? rest'.head? := by
        cases hrest with
        | nil => exact .none
        | cons h _ => exact .some h
      refine .call (hnames s) (.of_similar hρ hcauses harguments fun n hn e he => hnodes e ?_)
      have hn : n ∈ rest := List.mem_of_mem_head? hn
      exact Node.subtrees_subset_of_mem_children (List.mem_cons_of_mem _ hn)
        (Node.mem_subtrees_of_mem_children he)

private theorem ExpressionMatch.tree_of_similar (hnames : ∀ x, names x x) (form : ExpressionForm)
    {ns ns' : List Node} (m m' : Mark) (hns : List.Forall₂ ρ ns ns')
    (hnodes : ∀ e ∈ (Node.tree form.label ns m).subtrees, ∀ e', ρ e e' → nodes e e')
    (hdefects : (Node.tree form.label ns m).hasParts = false →
      ∀ d, halts (.defect d) (.defect d)) :
    ExpressionMatch nodes names halts (.tree form.label ns m) (.tree form.label ns' m') := by
  have hchild (e : Node) (he : e ∈ ns) : ∀ e', ρ e e' → nodes e e' :=
    hnodes e (Node.mem_subtrees_of_mem_children he)
  have hstuck (d : Defect) (hparts : (Node.tree form.label ns m).hasParts = false)
      (h : ∀ parts f, evalForm parts f form ns = throw (.defect d))
      (h' : ∀ parts f, evalForm parts f form ns' = throw (.defect d)) :
      ExpressionMatch nodes names halts (.tree form.label ns m) (.tree form.label ns' m') := by
    refine .halted (fun parts f => ?_) (fun parts f => ?_) (hdefects hparts d)
    · simp only [evalNode, ExpressionForm.ofLabel?_label, h]
    · simp only [evalNode, ExpressionForm.ofLabel?_label, h']
  cases form with
  | unary =>
    obtain _ | ⟨hop, _ | ⟨he, _⟩⟩ := hns
    case cons.cons =>
      exact .unary_of_symbol (hρ.symbolText_eq hop) (hchild _ (by simp) _ he)
        fun _ => hcauses _ _ (.same _)
    all_goals exact hstuck .noOperand rfl (fun _ _ => rfl) fun _ _ => rfl
  | binary =>
    obtain _ | ⟨hl, _ | ⟨hop, _ | ⟨hr, _ | _⟩⟩⟩ := hns
    case cons.cons.cons.nil =>
      exact .binary_of_symbol (hρ.symbolText_eq hop) (hchild _ (by simp) _ hl)
        (hchild _ (by simp) _ hr) fun _ => hcauses _ _ (.same _)
    case cons.cons.cons.cons =>
      exact hstuck (.tooMany 3) (by simp [Node.hasParts]) (fun _ _ => rfl) fun _ _ => rfl
    all_goals exact hstuck _ rfl (fun _ _ => rfl) fun _ _ => rfl
  | conditional =>
    obtain _ | ⟨ht, _ | ⟨ha, _ | ⟨hb, _ | _⟩⟩⟩ := hns
    case cons.cons.cons.nil =>
      exact .conditional (hchild _ (by simp) _ ht) (hchild _ (by simp) _ ha)
        (hchild _ (by simp) _ hb)
    case cons.cons.cons.cons =>
      exact hstuck (.tooMany 3) (by simp [Node.hasParts]) (fun _ _ => rfl) fun _ _ => rfl
    all_goals exact hstuck _ rfl (fun _ _ => rfl) fun _ _ => rfl
  | array => exact .array (forall₂_of_mem hns hchild)
  | subscript =>
    obtain _ | ⟨ht, _ | ⟨hi, _ | _⟩⟩ := hns
    case cons.cons.nil =>
      exact .subscript (hchild _ (by simp) _ ht) (hchild _ (by simp) _ hi)
    case cons.cons.cons =>
      exact hstuck (.tooMany 2) (by simp [Node.hasParts]) (fun _ _ => rfl) fun _ _ => rfl
    all_goals exact hstuck _ rfl (fun _ _ => rfl) fun _ _ => rfl
  | call => exact call_of_similar hρ hcauses hnames m m' hns hnodes

/-- Similar nodes are evaluated by the same steps if their parts correspond, and if, lacking parts,
they are refused alike. If their positions differ, an error may give way to too deep a nesting. -/
theorem ExpressionMatch.of_similar (hnames : ∀ x, names x x) {n n' : Node} (hn : ρ n n')
    (hnodes : ∀ e ∈ n.subtrees, ∀ e', ρ e e' → nodes e e')
    (hdefects : n.hasParts = false → ∀ d, halts (.defect d) (.defect d))
    (hcut : n = n' ∨ ∀ c : Cause,
      halts .overflow (.error { cause := c }) ∧ halts (.error { cause := c }) .overflow) :
    ExpressionMatch nodes names halts n n' := by
  cases hρ hn with
  | token type text p p' => exact token_of_similar hcauses hnames type text p p'
  | tree label m m' hns =>
    cases hform : ExpressionForm.ofLabel? label with
    | none =>
      have h (ks : List Node) (l : Mark) (parts : Parts) (f : FrameId) :
          evalNode parts (.tree label ks l) f = refuseLabel parts.levels label l := by
        simp only [evalNode, hform]
      refine .refused m.levels m'.levels (h _ m) (h _ m') (hcauses _ _ (.same _)) ?_
      exact hcut.imp (fun h => congrArg Mark.levels (Node.tree.inj h).2.2) fun h => h _
    | some form =>
      obtain rfl := ExpressionForm.label_of_ofLabel? hform
      exact tree_of_similar hρ hcauses hnames form m m' hns hnodes hdefects
  | hollow label m m' =>
    cases hform : ExpressionForm.ofLabel? label with
    | none =>
      have h (l : Mark) (parts : Parts) (f : FrameId) :
          evalNode parts (.hollow label l) f = refuseLabel parts.levels label l := by
        simp only [evalNode, hform]
      refine .refused m.levels m'.levels (h m) (h m') (hcauses _ _ (.same _)) ?_
      exact hcut.imp (fun h => congrArg Mark.levels (Node.hollow.inj h).2) fun h => h _
    | some form =>
      have hstuck : ∃ k, halts k k ∧ evalHollow form = throw k := by
        have hhollow := hdefects (by simp [Node.hasParts, hform])
        cases form with
        | unary | binary | conditional | array | subscript => exact ⟨_, hhollow _, rfl⟩
        | call => exact ⟨_, hcauses _ _ (.same _), rfl⟩
      obtain ⟨k, hk, hthrow⟩ := hstuck
      have h (l : Mark) (parts : Parts) (f : FrameId) :
          evalNode parts (.hollow label l) f = throw k := by
        simp only [evalNode, hform, hthrow]
      exact .halted (h m) (h m') hk
  | @improper held held' loose p p' hheld =>
    cases loose with
    | operator =>
      have h {k : Node} (hk : k.symbolText = held'.symbolText) (q : Position) (parts : Parts)
          (f : FrameId) : evalNode parts (@Node.improper .operator q k) f =
            throw (.error { cause := .unknownToken Node.operatorType held'.symbolText }) := by
        simp only [evalNode, hk, Run.fail]
      exact .halted (h (hρ.symbolText_eq hheld) p) (h rfl p') (hcauses _ _ (.same _))
    | numeral =>
      obtain ⟨x, h, h'⟩ | ⟨h, h'⟩ | ⟨hnone, d, h, h'⟩ := evalContents_similar hρ hheld
      · exact .number x (fun _ _ => h) fun _ _ => h'
      · exact .halted (fun _ _ => h) (fun _ _ => h') (hcauses _ _ (.wrongContents hheld))
      · exact .halted (fun _ _ => h) (fun _ _ => h') (hdefects hnone d)
  | plain | list => exact .halted (fun _ _ => rfl) (fun _ _ => rfl) (hcauses _ _ (.notExpression hn))

end Refused

/-- A node is evaluated by the same steps as itself if its parts correspond to themselves, and if,
lacking parts, it is refused alike. -/
theorem ExpressionMatch.refl_of_subtrees
    (hcauses : ∀ c : Cause, halts (.error { cause := c }) (.error { cause := c }))
    (hnames : ∀ x, names x x) {n : Node} (hnodes : ∀ e ∈ n.subtrees, nodes e e)
    (hdefects : n.hasParts = false → ∀ d, halts (.defect d) (.defect d)) :
    ExpressionMatch nodes names halts n n := by
  refine of_similar Node.isSimilarity_eq (fun c c' hc => ?_) hnames rfl ?_ hdefects (.inl rfl)
  · rw [hc.eq_of_eq]
    exact hcauses c'
  · rintro e he _ rfl
    exact hnodes e he

/-- Every node, well-formed or not, is evaluated by the same steps as itself. -/
theorem ExpressionMatch.refl (hnodes : ∀ n, nodes n n) (hnames : ∀ x, names x x)
    (hhalts : ∀ h, halts h h) (n : Node) : ExpressionMatch nodes names halts n n :=
  refl_of_subtrees (fun _ => hhalts _) hnames (fun e _ => hnodes e) fun _ _ => hhalts _

end Similar

end Bella
