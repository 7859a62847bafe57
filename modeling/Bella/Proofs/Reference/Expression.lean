import Bella.Proofs.Grammar
import Bella.Proofs.Ground
import Bella.Proofs.Reference.Basic

/-!
# Expressions on a ground mean what they mean without frames

An evaluation that ends, on the ground of a program and with lexical scoping, ends with the value or
the error that the expression means. The frame of a call collapses to the map of its parameters,
since the globals lie right behind it, and the world changes only by frames that nothing looks at
afterwards.

Errors get their places from the inside in a run, and from the outside in the meaning of a tree;
both find the innermost place that is known.

## Main definitions

* `Bella.Reference.Means`: an evaluation ends with what a tree means, or for want of levels.
* `Bella.Reference.Sees`: a frame and a scope in which names have the same values.

## Main results

* `Bella.Reference.eval_means`: expressions of the grammar, in every number of levels.
-/

namespace Bella

/-- The error as it is seen from a place: it keeps the location that it has. -/
def Error.placed (e : Error) (here : Option Location) : Error :=
  { e with location := e.location <|> here }

/-- From a place around a node, an error in it has the place of the node, if that is known. -/
theorem Error.placed_place (e : Error) (outer : Option Location) (n : Node) :
    e.placed (Reference.place outer n) = (e.locate n.position).placed outer := by
  simp only [placed, locate, Reference.place]
  cases e.location <;> rfl

namespace Reference

/-! ### Evaluations and meanings -/

/-- How an evaluation that started in the world `w` may end, given the meaning of what is
evaluated. -/
inductive Ends {α β : Type} (ρ : α → β → Prop) (here : Option Location) (w : World) :
    EStateM.Result Halt World α → Meaning β → Prop
  | ok {a : α} {b : β} {v : World} (hresult : ρ a b) (hextends : w.Extends v) :
      Ends ρ here w (.ok a v) (pure b)
  | error {e : Error} {v : World} (hextends : w.Extends v) :
      Ends ρ here w (.error (.error e) v) (throw (e.placed here))
  | exhausted {h : Halt} {v : World} {y : Meaning β} (hh : h = .overflow ∨ h = .unfinished) :
      Ends ρ here w (.error h v) y

/-- An evaluation, started in the world `w`, ends with what is meant. -/
def Means {α β : Type} (ρ : α → β → Prop) (here : Option Location) (x : Run α) (y : Meaning β)
    (w : World) : Prop :=
  Ends ρ here w (x w) y

section Means

variable {α β γ δ : Type} {ρ : α → β → Prop} {τ : γ → δ → Prop} {here : Option Location} {x : Run α}
  {y : Meaning β} {w : World}

theorem Ends.trans {v : World} {r : EStateM.Result Halt World α} (h : Ends ρ here v r y)
    (hv : w.Extends v) : Ends ρ here w r y := by
  cases h with
  | ok hresult hextends => exact .ok hresult (hv.trans hextends)
  | error hextends => exact .error (hv.trans hextends)
  | exhausted hh => exact .exhausted hh

theorem Means.pure {a : α} {b : β} (h : ρ a b) : Means ρ here (Pure.pure a) (Pure.pure b) w :=
  .ok h (.refl w)

theorem Means.fail (c : Cause) : Means ρ here (Run.fail c) (Reference.fail here c) w :=
  .error (e := { cause := c }) (.refl w)

theorem Means.overflow : Means ρ here (throw .overflow) y w := .exhausted (.inl rfl)

/-- An evaluation that goes on means what its parts mean in sequence. -/
theorem Means.bind {f : α → Run γ} {g : β → Meaning δ} (hx : Means ρ here x y w)
    (hf : ∀ a b v, ρ a b → w.Extends v → Means τ here (f a) (g b) v) :
    Means τ here (x >>= f) (y >>= g) w := by
  unfold Means at hx ⊢
  rw [Run.bind_apply]
  generalize x w = r at hx ⊢
  cases hx with
  | ok hresult hextends =>
    rw [pure_bind]
    exact (hf _ _ _ hresult hextends).trans hextends
  | error hextends => exact .error hextends
  | exhausted hh => exact .exhausted hh

/-- A node has its place, or else the place around it. -/
theorem Means.within {n : Node} {outer : Option Location} (hx : Means ρ (place outer n) x y w) :
    Means ρ outer (Run.within n x) y w := by
  unfold Means at hx ⊢
  rw [Run.within_apply]
  generalize x w = r at hx ⊢
  cases hx with
  | ok hresult hextends => exact .ok hresult hextends
  | @error e v hextends =>
    rw [e.placed_place outer n]
    exact .error hextends
  | exhausted hh =>
    obtain rfl | rfl := hh
    · exact .exhausted (.inl rfl)
    · exact .exhausted (.inr rfl)

/-- An error that is not made for want of levels leaves the meaning open. -/
theorem Means.refusing (hx : Means ρ here x y w) (need levels : Nat) :
    Means ρ here (Run.refusing need levels x) y w := by
  unfold Means at hx ⊢
  rw [Run.refusing_apply]
  generalize x w = r at hx ⊢
  cases hx with
  | ok hresult hextends => exact .ok hresult hextends
  | error hextends =>
    by_cases hfew : levels < need
    · simp only [hfew, if_true]
      exact .exhausted (.inl rfl)
    · simp only [hfew, if_false]
      exact .error hextends
  | exhausted hh =>
    refine .exhausted ?_
    split
    · exact .inl rfl
    · exact hh

theorem Means.check {r : Except Cause α} {r' : Except Cause β} (h : Check.Alike ρ r r') :
    Means ρ here (Run.check r) (Reference.check here r') w := by
  cases h with
  | ok h => exact .pure h
  | error h => exact .fail _

/-- A check whose result is used in one way. -/
theorem Means.check_map {δ : Type} {τ : γ → δ → Prop} {r : Except Cause α} {r' : Except Cause β}
    (h : Check.Alike ρ r r') {f : α → γ} {g : β → δ} (hfg : ∀ a b, ρ a b → τ (f a) (g b)) :
    Means τ here (do return f (← Run.check r)) (Reference.check here (r'.map g)) w := by
  cases h with
  | ok h => exact .pure (hfg _ _ h)
  | error h => exact .fail _

end Means

/-! ### Frames and scopes -/

/-- A closure that was declared among the globals, and the same one without its frame. -/
structure SameClosure (γ : Ground) (c d : Closure) : Prop where
  id : c.id = d.id
  parameters : c.parameters = d.parameters
  body : c.body = d.body
  frame : c.frame = some γ.globals
  isExpression : c.body.IsExpression

/-- Values that are equal up to the frames of closures. -/
def values (γ : Ground) : Value → Value → Prop := Value.Related (SameClosure γ)

/-- Names have the same values in a frame and in a scope. -/
structure Sees (γ : Ground) (o : Options) (f : FrameId) (w : World) (σ : Scope)
    (locals : String → Option Value) : Prop where
  holds : γ.Holds o w.store
  within : γ.Within o w.store f locals
  parameters : ∀ x, Option.Rel (values γ) (locals x) (σ.parameters x)
  globals : ∀ x, Option.Rel (values γ) (γ.global? w.store x) (σ.globals x)
  behind : ∀ x, Option.Rel (values γ) (γ.prelude? w.store x) (σ.prelude x)

section Sees

variable {γ : Ground} {o : Options} {f : FrameId} {w v : World} {σ : Scope}
  {locals : String → Option Value} {here : Option Location}

theorem Sees.extends (h : Sees γ o f w σ locals) (hv : w.Extends v) : Sees γ o f v σ locals where
  holds := h.holds.kept hv.frames
  within := h.within.kept hv.frames
  parameters := h.parameters
  globals x := by
    rw [h.holds.global?_kept hv.frames]
    exact h.globals x
  behind x := by
    rw [h.holds.prelude?_kept hv.frames]
    exact h.behind x

theorem Sees.lookup_means (h : Sees γ o f w σ locals) (x : String) :
    Means (values γ) here (Run.lookup f x) (lookup here σ x) w := by
  have hrel : Option.Rel (values γ) (w.store.lookup? f x) (σ.lookup? x) := by
    rw [h.within.lookup?_eq h.holds]
    have hrest := Value.Related.or_rel (h.globals x) (h.behind x)
    exact Value.Related.or_rel (h.parameters x) hrest
  unfold Means lookup
  rw [Run.lookup_apply]
  generalize w.store.lookup? f x = r, σ.lookup? x = r' at hrel ⊢
  cases hrel with
  | some h => exact .ok h (.refl w)
  | none => exact Means.fail _

/-- An evaluator that ends with what expressions mean, in all frames of the ground. -/
def Evaluates (γ : Ground) (o : Options) (evaluator : Evaluator) (ν : Valuation) : Prop :=
  ∀ {n : Node} {outer : Option Location} {f : FrameId} {w : World} {σ : Scope}
    {locals : String → Option Value}, n.IsExpression → Sees γ o f w σ locals →
    Means (values γ) outer (evaluator n f) (ν outer σ n) w

/-! ### Calls -/

variable {evaluator : Evaluator} {ν : Valuation}

theorem evalAll_means (heval : Evaluates γ o evaluator ν) {es : List Node}
    (hes : ∀ e ∈ es, e.IsExpression) (h : Sees γ o f w σ locals) :
    Means (List.Forall₂ (values γ)) here (evalAll evaluator f es) (es.mapM (ν here σ)) w := by
  induction es generalizing w with
  | nil =>
    rw [List.mapM_nil]
    exact .pure .nil
  | cons e es ih =>
    rw [List.mapM_cons]
    refine .bind (heval (hes e List.mem_cons_self) h) fun a b v hab hv => ?_
    refine .bind (ih (fun d hd => hes d (List.mem_cons_of_mem e hd)) (h.extends hv))
      fun as bs u hrest _ => ?_
    exact .pure (.cons hab hrest)

theorem callBuiltin_means (b : Builtin) {vs vs' : List Value}
    (hvs : List.Forall₂ (values γ) vs vs') :
    Means (values γ) here (callBuiltin b vs) (check here (applyBuiltin b vs')) w := by
  simp only [callBuiltin, applyBuiltin, hvs.length_eq]
  split
  · exact .fail _
  · exact .check_map (Check.numbers_alike b.name hvs) fun _ _ h => h ▸ .number _

/-- The body of a function is evaluated in a frame that has its parameters alone. -/
theorem callClosure_means (ho : o.scoping = .lexical) (heval : Evaluates γ o evaluator ν)
    (x : String) {c d : Closure} (hc : SameClosure γ c d) {vs vs' : List Value}
    (hvs : List.Forall₂ (values γ) vs vs') (h : Sees γ o f w σ locals) :
    Means (values γ) here (Bella.callClosure evaluator x c vs f)
      (callClosure ν here σ x d vs') w := by
  unfold callClosure
  rw [← hc.parameters, ← hc.body, ← hvs.length_eq]
  by_cases hlength : vs.length = c.parameters.length
  · rw [if_neg (not_not_intro hlength)]
    obtain ⟨v, hv, hwithin, hcall⟩ :=
      h.holds.callClosure_apply h.within ho hc.frame hlength evaluator x
    unfold Means
    rw [hcall]
    cases hrepeated : firstRepeated [] c.parameters with
    | some y => exact .error (e := { cause := .alreadyDeclared y .variable }) hv
    | none =>
      have hsees : Sees γ o w.store.next v
          { σ with parameters := fun x => (c.parameters.zip vs').lookup x }
          fun x => (c.parameters.zip vs).lookup x :=
        { h.extends hv with
          within := hwithin hrepeated
          parameters := Value.Related.lookup_zip_self c.parameters hvs }
      exact (heval hc.isExpression hsees).trans hv
  · rw [if_pos hlength, callClosure_of_length_ne hlength]
    exact .fail _

theorem evalCall_means {body : Evaluator} (ho : o.scoping = .lexical)
    (heval : Evaluates γ o evaluator ν) (hbody : Evaluates γ o body ν) (x : String)
    (p : Position) {es : List Node} (m' m : Mark) (hes : ∀ e ∈ es, e.IsExpression)
    (h : Sees γ o f w σ locals) :
    Means (values γ) here
      (evalCall evaluator body f [.token TokenForm.name.type x p, .tree Node.argumentsLabel es m'])
      (evalNode ν here σ (.tree ExpressionForm.call.label
        [.token TokenForm.name.type x p, .tree Node.argumentsLabel es m'] m)) w := by
  have harguments : evalArguments evaluator f (some (.tree Node.argumentsLabel es m')) =
      evalAll evaluator f es := rfl
  simp only [evalCall, Run.check_identifier, pure_bind, List.head?_cons, harguments, evalNode,
    ExpressionForm.ofLabel?_label]
  refine .bind (h.lookup_means x) fun a b v hab hv => ?_
  have h := h.extends hv
  cases hab with
  | closure hc =>
    refine .bind (evalAll_means heval hes h) fun vs vs' u hvs hu => ?_
    exact callClosure_means ho hbody x hc hvs (h.extends hu)
  | builtin b =>
    refine .bind (evalAll_means heval hes h) fun vs vs' u hvs hu => ?_
    exact callBuiltin_means b hvs
  | number | boolean | array | foreign => exact .fail _

/-! ### Operators -/

/-- An equality that is decided within a bound. -/
theorem compareWithin_means (depth : Nat) (op : EqualityOp) {a a' b b' : Value} (ha : values γ a a')
    (hb : values γ b b') :
    Means (values γ) here (Run.checkWithin (op.compareWithin depth a b))
      (check here (operate (.equality op) a' b')) w := by
  have halike := op.compareWithin_alike (fun _ _ hc => hc.id) depth ha hb
  cases hcompare : op.compareWithin depth a' b' with
  | none =>
    rw [hcompare] at halike
    generalize op.compareWithin depth a b = r at halike ⊢
    cases halike
    exact .overflow
  | some r' =>
    have hoperate : operate (.equality op) a' b' = r' := by
      unfold EqualityOp.compareWithin at hcompare
      rw [operate]
      split at hcompare
      · rename_i hkind
        obtain ⟨e, he, rfl⟩ := Option.map_eq_some_iff.mp hcompare
        rw [if_pos hkind, Value.equals_of_equalsWithin he]
      · rename_i hkind
        rw [if_neg hkind]
        exact Option.some.inj hcompare
    rw [hcompare] at halike
    rw [hoperate]
    generalize op.compareWithin depth a b = r at halike ⊢
    cases halike with
    | some h => exact .check h

/-- Evaluators for the parts of a node that end with what expressions mean. -/
structure PartsEvaluate (γ : Ground) (o : Options) (parts : Parts) (ν : Valuation) : Prop where
  operand : Evaluates γ o parts.operand ν
  element : Evaluates γ o parts.element ν
  argument : Evaluates γ o parts.argument ν
  body : Evaluates γ o parts.body ν

variable {parts : Parts}

theorem evalBinary_means (hparts : PartsEvaluate γ o parts ν) (op : Node) {l r : Node} (m : Mark)
    (hl : l.IsExpression) (hr : r.IsExpression) (h : Sees γ o f w σ locals) :
    Means (values γ) here (evalBinary parts f [l, op, r])
      (evalNode ν here σ (.tree ExpressionForm.binary.label [l, op, r] m)) w := by
  simp only [evalBinary, evalNode, ExpressionForm.ofLabel?_label]
  cases BinaryOp.ofSymbol? op.symbolText with
  | none => exact .fail _
  | some o =>
    cases o with
    | connective o =>
      refine .bind (hparts.element hl h) fun a a' v ha hv => ?_
      refine .bind (.check (Check.boolean_alike _ ha)) fun b b' u hb hu => ?_
      subst hb
      split
      · exact .pure (.boolean b)
      · refine .bind (hparts.element hr (h.extends (hv.trans hu))) fun c c' t hc _ => ?_
        exact .check_map (Check.boolean_alike _ hc) fun _ _ hb => hb ▸ .boolean _
    | equality o =>
      refine .bind (hparts.operand hl h) fun a a' v ha hv => ?_
      refine .bind (hparts.operand hr (h.extends hv)) fun b b' u hb _ => ?_
      exact compareWithin_means _ o ha hb
    | comparison o =>
      refine .bind (hparts.operand hl h) fun a a' v ha hv => ?_
      refine .bind (hparts.operand hr (h.extends hv)) fun b b' u hb _ => ?_
      exact .check_map (numericOperands_alike o.symbol ha hb) fun _ _ hxy => hxy ▸ .boolean _
    | arithmetic o =>
      refine .bind (hparts.operand hl h) fun a a' v ha hv => ?_
      refine .bind (hparts.operand hr (h.extends hv)) fun b b' u hb _ => ?_
      exact .check_map (numericOperands_alike o.symbol ha hb) fun _ _ hxy => hxy ▸ .number _

/-! ### All expressions -/

theorem numeral_means (levels : Nat) (text : String) (p : Position) (f : FrameId) :
    Means (values γ) here (evalToken levels TokenForm.numeral.type text f)
      (evalNode ν here σ (.token TokenForm.numeral.type text p)) w := by
  simp only [evalToken, evalNode, TokenForm.ofType?_type, Check.numeral]
  cases Numeral.read? text with
  | none => exact .fail _
  | some x => exact .pure (.number x)

/-- One node, if its parts end with what they mean. -/
theorem evalNode_means (ho : o.scoping = .lexical) (hparts : PartsEvaluate γ o parts ν) {n : Node}
    (hn : n.IsExpression) (h : Sees γ o f w σ locals) :
    Means (values γ) here (Bella.evalNode parts n f) (evalNode ν here σ n) w := by
  cases hn with
  | numeral text p => exact numeral_means parts.levels text p f
  | true p => exact .pure (.boolean true)
  | false p => exact .pure (.boolean false)
  | name x p => exact (h.lookup_means x).refusing lookupLevels parts.levels
  | unary symbol p m he =>
    simp only [Bella.evalNode, evalForm, evalUnary, evalNode, ExpressionForm.ofLabel?_label]
    generalize UnaryOp.ofSymbol? _ = op
    cases op with
    | none => exact .fail _
    | some op =>
      refine .bind (hparts.operand he h) fun a a' v ha _ => ?_
      exact .check (op.apply_alike ha)
  | binary symbol p m hl hr =>
    simp only [Bella.evalNode, ExpressionForm.ofLabel?_label, evalForm]
    exact evalBinary_means hparts _ m hl hr h
  | @conditional t a b m ht ha hb =>
    simp only [Bella.evalNode, evalForm, evalConditional, evalNode, ExpressionForm.ofLabel?_label]
    refine .bind (hparts.operand ht h) fun c c' v hc hv => ?_
    refine .bind (.check (Check.boolean_alike _ hc)) fun b b' u hb' hu => ?_
    subst hb'
    have h := h.extends (hv.trans hu)
    cases b with
    | true => exact hparts.operand ha h
    | false => exact hparts.operand hb h
  | array m hes =>
    simp only [Bella.evalNode, evalForm, evalArray, evalNode, ExpressionForm.ofLabel?_label]
    refine .bind (evalAll_means hparts.element hes h) fun vs vs' v hvs _ => ?_
    exact .pure (.array hvs)
  | subscript m ht hi =>
    simp only [Bella.evalNode, evalForm, evalSubscript, evalNode, ExpressionForm.ofLabel?_label]
    refine .bind (hparts.operand ht h) fun a a' v ha hv => ?_
    refine .bind (hparts.operand hi (h.extends hv)) fun b b' u hb _ => ?_
    exact .check (Check.element_alike ha hb)
  | call x p m' m hes =>
    simp only [Bella.evalNode, ExpressionForm.ofLabel?_label, evalForm]
    exact evalCall_means ho hparts.argument hparts.body x p m' m hes h

/-- Expressions of the grammar end with what they mean, in every number of levels: as much depth is
enough. -/
theorem eval_means (γ : Ground) (ho : o.scoping = .lexical) {levels depth : Nat}
    (hdepth : levels ≤ depth) : Evaluates γ o (Bella.eval levels) (eval depth) := by
  induction levels using Nat.strongRecOn generalizing depth with
  | ind levels ih =>
    intro n outer f w σ locals hn h
    match levels, depth with
    | levels + 6, depth + 1 =>
      have hparts : PartsEvaluate γ o
          { levels := levels + 2, operand := Bella.eval (levels + 2),
            element := Bella.eval (levels + 1), argument := Bella.eval levels,
            body := Bella.eval levels } (eval depth) :=
        ⟨ih _ (by omega) (by omega), ih _ (by omega) (by omega), ih _ (by omega) (by omega),
          ih _ (by omega) (by omega)⟩
      exact (evalNode_means ho hparts hn h).within
    | 0, _ | 1, _ | 2, _ | 3, _ | 4, _ | 5, _ => exact .overflow

end Sees

end Reference
end Bella
