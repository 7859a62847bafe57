import Bella.Proofs.Activity.Keeping

/-!
# Expressions that settle

The number of levels that an evaluation has may cut it off. An action settles if from some number of
levels on it ends in one and the same way, and not for want of levels: this is what it means for an
evaluation to terminate whatever bound the host sets.

An expression goes through its parts, which are smaller, and through the bodies of the closures that
it calls, which may be anything. So it settles as soon as these bodies do.

## Main definitions

* `Bella.Settles`: an action ends, given enough levels.
* `Bella.Invariant.Stage`: the worlds that the evaluation of an expression comes to.

## Main results

* `Bella.Settles.bind`: settling is kept by sequencing.
* `Bella.Value.exists_equalsWithin`: comparisons settle.
* `Bella.Invariant.eval_settles`: an expression settles if the bodies of the closures that it calls
  do.
-/

namespace Bella

/-- From some number of levels on, the action ends in one and the same way, and not for want of
levels. -/
def Settles {α : Type} (x : Nat → Run α) (w : World) : Prop :=
  ∃ enough r, (∀ v, r ≠ .error .overflow v) ∧ ∀ levels, enough ≤ levels → x levels w = r

namespace Settles

variable {α β : Type} {w : World}

/-- An action that does not depend on the levels. -/
theorem const {x : Run α} (h : ∀ v, x w ≠ .error .overflow v) : Settles (fun _ => x) w :=
  ⟨0, x w, h, fun _ _ => rfl⟩

theorem pure (a : α) : Settles (fun _ => (Pure.pure a : Run α)) w := const nofun

theorem fail (c : Cause) : Settles (fun _ => (Run.fail c : Run α)) w := const nofun

theorem defect (d : Defect) : Settles (fun _ => (throw (.defect d) : Run α)) w := const nofun

theorem check (r : Except Cause α) : Settles (fun _ => Run.check r) w := by
  cases r with
  | ok a => exact pure a
  | error c => exact fail c

theorem bind {x : Nat → Run α} {g : Nat → α → Run β} (hx : Settles x w)
    (hg : ∀ levels a v, x levels w = .ok a v → Settles (fun l => g l a) v) :
    Settles (fun l => x l >>= g l) w := by
  obtain ⟨enough, r, hr, hsettled⟩ := hx
  cases r with
  | error h v =>
    refine ⟨enough, .error h v, fun u hu => hr u ?_, fun levels hlevels => ?_⟩
    · cases hu
      rfl
    · exact Run.bind_eq_of_error (hsettled levels hlevels)
  | ok a v =>
    obtain ⟨enough', r', hr', hsettled'⟩ := hg enough a v (hsettled enough (Nat.le_refl enough))
    refine ⟨max enough enough', r', hr', fun levels hlevels => ?_⟩
    obtain ⟨hlevels, hlevels'⟩ := Nat.max_le.mp hlevels
    exact (Run.bind_eq_of_ok (hsettled levels hlevels)).trans (hsettled' levels hlevels')

theorem within {x : Nat → Run α} (n : Node) (hx : Settles x w) :
    Settles (fun l => Run.within n (x l)) w := by
  obtain ⟨enough, r, hr, hsettled⟩ := hx
  cases r with
  | ok a v =>
    refine ⟨enough, .ok a v, nofun, fun levels hlevels => ?_⟩
    exact Run.within_eq_ok_iff.mpr (hsettled levels hlevels)
  | error h v =>
    refine ⟨enough, .error (h.locate n.position) v, fun u hu => hr v ?_, fun levels hlevels => ?_⟩
    · cases h with
      | overflow => rfl
      | error | defect | unfinished => cases hu
    · exact Run.within_eq_error_iff.mpr ⟨h, hsettled levels hlevels, rfl⟩

/-- Errors that take levels of their own are made as soon as there are as many. -/
theorem refusing {x : Nat → Run α} (need : Nat) (hx : Settles x w) :
    Settles (fun l => Run.refusing need l (x l)) w := by
  obtain ⟨enough, r, hr, hsettled⟩ := hx
  refine ⟨max enough need, r, hr, fun levels hlevels => ?_⟩
  obtain ⟨hlevels, hneed⟩ := Nat.max_le.mp hlevels
  exact (congrFun (Run.refusing_of_le hneed (x levels)) w).trans (hsettled levels hlevels)

/-- The action may be given some levels more. -/
theorem shift {x : Nat → Run α} (hx : Settles x w) (more : Nat) :
    Settles (fun l => x (l + more)) w := by
  obtain ⟨enough, r, hr, hsettled⟩ := hx
  exact ⟨enough, r, hr, fun levels hlevels => hsettled _ (by omega)⟩

/-- What settles with some levels more settles. -/
theorem of_shift {x : Nat → Run α} (more : Nat) (hx : Settles (fun l => x (l + more)) w) :
    Settles x w := by
  obtain ⟨enough, r, hr, hsettled⟩ := hx
  refine ⟨enough + more, r, hr, fun levels hlevels => ?_⟩
  obtain ⟨rest, rfl⟩ := Nat.exists_eq_add_of_le' (Nat.le_of_add_left_le hlevels)
  exact hsettled rest (by omega)

end Settles

/-! ### Comparisons -/

namespace Value

mutual

/-- Two values can be compared within a bound that is large enough. -/
theorem exists_equalsWithin (v w : Value) :
    ∃ enough, ∀ depth, enough ≤ depth → equalsWithin depth v w = some (equals v w) := by
  match v, w with
  | .array vs, .array ws =>
    by_cases hlength : vs.length = ws.length
    · obtain ⟨enough, hitems⟩ := exists_equalItemsWithin vs ws hlength
      refine ⟨enough + 1, fun depth hdepth => ?_⟩
      obtain ⟨rest, rfl⟩ := Nat.exists_eq_add_of_le' (Nat.le_of_add_left_le hdepth)
      rw [equalsWithin, if_pos hlength, equals]
      exact hitems rest (by omega)
    · refine ⟨0, fun depth _ => ?_⟩
      simp only [equalsWithin, hlength, if_false, equals, equalItems_of_length_ne hlength]
  | .number _, w | .boolean _, w | .closure _, w | .builtin _, w | .foreign _, w =>
    exact ⟨0, fun depth _ => by cases w <;> rfl⟩
  | .array _, .number _ | .array _, .boolean _ | .array _, .closure _ | .array _, .builtin _
  | .array _, .foreign _ => exact ⟨0, fun _ _ => rfl⟩

theorem exists_equalItemsWithin (vs ws : List Value) (hlength : vs.length = ws.length) :
    ∃ enough, ∀ depth, enough ≤ depth → equalItemsWithin depth vs ws = some (equalItems vs ws) := by
  match vs, ws with
  | [], [] => exact ⟨0, fun _ _ => rfl⟩
  | v :: vs, w :: ws =>
    obtain ⟨enough, hv⟩ := exists_equalsWithin v w
    obtain ⟨enough', hvs⟩ := exists_equalItemsWithin vs ws (Nat.succ.inj hlength)
    refine ⟨max enough enough', fun depth hdepth => ?_⟩
    obtain ⟨hdepth, hdepth'⟩ := Nat.max_le.mp hdepth
    rw [equalItemsWithin, equalItems, hv depth hdepth, hvs depth hdepth']
    cases sameKind v w <;> cases equals v w <;> rfl

end

end Value

/-- Comparing two values settles. -/
theorem EqualityOp.settles (op : EqualityOp) (a b : Value) (w : World) :
    Settles (fun l => Run.checkWithin (op.compareWithin (arraysWithin (l + 2)) a b)) w := by
  by_cases hkind : a.sameKind b
  · obtain ⟨enough, hequals⟩ := a.exists_equalsWithin b
    refine ⟨levelsPerArray * enough, .ok (.boolean (op.apply (a.equals b))) w, nofun,
      fun levels hlevels => ?_⟩
    have henough : enough ≤ arraysWithin (levels + 2) := by
      unfold arraysWithin levelsPerArray at *
      omega
    simp only [compareWithin, hkind, if_true, hequals _ henough]
    rfl
  · simp only [compareWithin, hkind, Bool.false_eq_true, if_false]
    exact .check (.error _)

/-! ### Expressions -/

theorem Node.sizeOf_lt_of_mem_children {n e : Node} (he : e ∈ n.children) :
    sizeOf e < sizeOf n := by
  cases n with
  | tree label children m =>
    have hlt := List.sizeOf_lt_of_mem (show e ∈ children from he)
    simp only [Node.tree.sizeOf_spec]
    omega
  | hollow | token | improper | plain | list => cases he

namespace Invariant

variable (I : Invariant)

/-- The world `v` is one that the evaluation of an expression may come to, from the world `w` on. -/
structure Stage (f : FrameId) (w v : World) : Prop where
  holds : I.holds v
  scope : I.scope f v
  grows : I.grows w v

variable {I} {f : FrameId} {w v u : World} {levels : Nat} {n : Node} {es : List Node}

theorem Stage.eval (hv : I.Stage f w v) {a : Value} (heval : eval levels n f v = .ok a u) :
    I.Stage f w u := by
  obtain ⟨-, hholds, hgrows⟩ := I.eval_ok hv.holds hv.scope heval
  exact ⟨hholds, I.scope_grows hv.scope hgrows, I.grows_trans hv.grows hgrows⟩

variable (I)

/-- The node settles whenever it is evaluated. -/
def Steady (f : FrameId) (w : World) (n : Node) : Prop :=
  ∀ v, I.Stage f w v → Settles (fun l => eval l n f) v

/-- The body of every closure that is called settles. -/
def BodiesSettle (f : FrameId) (w : World) : Prop :=
  ∀ x k vs v t u, I.Stage f w v → I.closures k → (∀ a ∈ vs, a.HoldsOnly I.closures) →
    enterCall x k vs f v = .ok t u → Settles (fun l => eval l k.body t) u

variable {I}

theorem evalAll_settles (hes : ∀ e ∈ es, I.Steady f w e) (hv : I.Stage f w v) (more : Nat) :
    Settles (fun l => evalAll (eval (l + more)) f es) v := by
  induction es generalizing v with
  | nil => exact .pure []
  | cons e es ih =>
    obtain ⟨he, hes⟩ := List.forall_mem_cons.mp hes
    refine .bind ((he v hv).shift more) fun _ a u ha => ?_
    exact .bind (ih hes (hv.eval ha)) fun _ as z _ => .pure _

/-- Two operands that are evaluated in order, and what is made of them. -/
private theorem pair_settles {l r : Node} {g : Nat → Value → Value → Run Value} {more : Nat}
    (hl : I.Steady f w l) (hr : I.Steady f w r) (hv : I.Stage f w v)
    (hg : ∀ a b u, Settles (fun k => g k a b) u) :
    Settles (fun k => do g k (← eval (k + more) l f) (← eval (k + more) r f)) v := by
  refine .bind ((hl v hv).shift more) fun _ a u ha => ?_
  exact .bind ((hr u (hv.eval ha)).shift more) fun _ b z _ => hg a b z

private theorem connective_settles {op : ConnectiveOp} {l r : Node} (hl : I.Steady f w l)
    (hr : I.Steady f w r) (hv : I.Stage f w v) :
    Settles (fun k => evalConnective (eval (k + 1)) f op l r) v := by
  refine .bind ((hl v hv).shift 1) fun _ a u ha => ?_
  refine .bind (.check _) fun _ b z hb => ?_
  obtain ⟨-, rfl⟩ := Run.check_eq_ok_iff.mp hb
  split
  · exact .pure _
  · refine .bind ((hr _ (hv.eval ha)).shift 1) fun _ c y _ => ?_
    exact .bind (.check _) fun _ _ _ _ => .pure _

private theorem binary_settles {l op r : Node} (hl : I.Steady f w l) (hr : I.Steady f w r)
    (hv : I.Stage f w v) : Settles (fun k => evalBinary (.below k) f [l, op, r]) v := by
  cases ho : BinaryOp.ofSymbol? op.symbolText with
  | none =>
    simp only [evalBinary, ho]
    exact .fail _
  | some o =>
    simp only [evalBinary, ho]
    cases o with
    | connective o => exact connective_settles hl hr hv
    | equality o => exact pair_settles hl hr hv fun a b u => o.settles a b u
    | comparison o =>
      exact pair_settles hl hr hv fun a b u => .bind (.check _) fun _ _ _ _ => .pure _
    | arithmetic o =>
      exact pair_settles hl hr hv fun a b u => .bind (.check _) fun _ _ _ _ => .pure _

private theorem lookup_settles (x : String) : Settles (fun _ => Run.lookup f x) v := by
  refine .const fun u hu => ?_
  rw [Run.lookup_apply] at hu
  split at hu <;> cases hu

private theorem token_settles (type text : String) :
    Settles (fun l => evalToken l type text f) v := by
  cases hform : TokenForm.ofType? type with
  | none =>
    simp only [evalToken, hform]
    exact .fail _
  | some form =>
    simp only [evalToken, hform]
    cases form with
    | numeral => exact .bind (.check _) fun _ _ _ _ => .pure _
    | true | false => exact .pure _
    | name => exact (lookup_settles text).refusing lookupLevels

private theorem contents_settles (held : Node) : Settles (fun _ => evalContents held) v := by
  obtain ⟨x, h, -⟩ | ⟨h, -⟩ | ⟨-, d, h, -⟩ :=
    evalContents_similar Node.isSimilarity_eq (Eq.refl held)
  · exact h ▸ .pure _
  · exact h ▸ .fail _
  · exact h ▸ .defect d

private theorem refuseLabel_settles (label : String) (m : Mark) :
    Settles (fun l => refuseLabel (l + 2) label m) v :=
  ((Settles.fail (.unknownExpression label)).refusing m.levels).shift 2

private theorem builtin_settles (b : Builtin) (vs : List Value) :
    Settles (fun _ => callBuiltin b vs) v := by
  by_cases harity : b.arity.getD vs.length = vs.length
  · simp only [callBuiltin, harity, ne_eq, not_true_eq_false, if_false]
    exact .bind (.check _) fun _ _ _ _ => .pure _
  · simp only [callBuiltin, harity, ne_eq, not_false_eq_true, if_true]
    exact .fail _

private theorem enterCall_settles (x : String) (k : Closure) (vs : List Value) :
    Settles (fun _ => enterCall x k vs f) v := by
  refine .const fun u hu => ?_
  obtain ⟨c, -, hc⟩ := enterCall_error hu
  cases hc

/-- A call goes from its arguments to the body of the closure. -/
private theorem callValue_settles (hbodies : I.BodiesSettle f w) (x : String) {a : Value}
    (ha : a.HoldsOnly I.closures) {vs : List Value} (hvs : ∀ b ∈ vs, b.HoldsOnly I.closures)
    (hv : I.Stage f w v) : Settles (fun l => callValue (eval l) x a vs f) v := by
  cases a with
  | closure k =>
    simp only [callValue, callClosure_eq_enterCall]
    exact .bind (enterCall_settles x k vs) fun _ t u hentered =>
      hbodies x k vs v t u hv (ha k List.mem_cons_self) hvs hentered
  | builtin b => exact builtin_settles b vs
  | number | boolean | array | foreign => exact .fail _

private theorem call_settles (hbodies : I.BodiesSettle f w) {callee : Node} {rest : List Node}
    (hrest : ∀ es, argumentNodes? rest.head? = some es → ∀ e ∈ es, I.Steady f w e)
    (hv : I.Stage f w v) : Settles (fun l => evalCall (eval l) (eval l) f (callee :: rest)) v := by
  refine .bind (.check _) fun _ x u hx => ?_
  obtain ⟨-, rfl⟩ := Run.check_eq_ok_iff.mp hx
  refine .bind (lookup_settles x) fun _ a z ha => ?_
  obtain ⟨hfound, rfl⟩ := Run.lookup_eq_ok_iff.mp ha
  split
  · cases hes : argumentNodes? rest.head? with
    | none =>
      obtain ⟨n, hrefused⟩ := evalArguments_refused hes
      simp only [hrefused]
      refine .bind (.fail _) fun _ vs z hvs => ?_
      cases hvs
    | some es =>
      simp only [evalArguments_eq _ f hes]
      refine .bind (evalAll_settles (hrest es hes) hv 0) fun _ vs z hvs => ?_
      obtain ⟨hvalues, hholds, hgrows⟩ := I.evalAll_ok hv.holds hv.scope hvs
      exact callValue_settles hbodies x (I.lookup hv.holds hv.scope hfound) hvalues
        ⟨hholds, I.scope_grows hv.scope hgrows, I.grows_trans hv.grows hgrows⟩
  · exact .fail _

private theorem unary_settles (op : Node) {e : Node} (rest : List Node) (he : I.Steady f w e)
    (hv : I.Stage f w v) : Settles (fun l => evalUnary (eval (l + 2)) f (op :: e :: rest)) v := by
  cases ho : UnaryOp.ofSymbol? op.symbolText with
  | none =>
    simp only [evalUnary, ho]
    exact .fail _
  | some o =>
    simp only [evalUnary, ho]
    exact .bind ((he v hv).shift 2) fun _ _ _ _ => .check _

private theorem conditional_settles {t x y : Node} (ht : I.Steady f w t) (hx : I.Steady f w x)
    (hy : I.Steady f w y) (hv : I.Stage f w v) :
    Settles (fun l => evalConditional (eval (l + 2)) f [t, x, y]) v := by
  refine .bind ((ht v hv).shift 2) fun _ a u ha => ?_
  refine .bind (.check _) fun _ b z hb => ?_
  obtain ⟨-, rfl⟩ := Run.check_eq_ok_iff.mp hb
  have hstage := hv.eval ha
  cases b with
  | true => exact (hx _ hstage).shift 2
  | false => exact (hy _ hstage).shift 2

/-- A tree settles if the smaller nodes do. -/
private theorem tree_settles (hbodies : I.BodiesSettle f w) (form : ExpressionForm)
    (children : List Node) (m : Mark)
    (hparts : ∀ e, sizeOf e < sizeOf (Node.tree form.label children m) → I.Steady f w e)
    (hv : I.Stage f w v) : Settles (fun l => evalForm (.below l) f form children) v := by
  have hsize : sizeOf children < sizeOf (Node.tree form.label children m) := by
    simp only [Node.tree.sizeOf_spec]
    omega
  have hchild : ∀ e ∈ children, I.Steady f w e := fun e he =>
    hparts e (Nat.lt_trans (List.sizeOf_lt_of_mem he) hsize)
  cases form with
  | unary =>
    match children, hchild with
    | op :: e :: rest, hchild =>
      exact unary_settles op rest (hchild e (by simp)) hv
    | [], _ | [_], _ => exact .defect _
  | binary =>
    match children, hchild with
    | [l, op, r], hchild =>
      exact binary_settles (hchild l (by simp)) (hchild r (by simp)) hv
    | [], _ | [_], _ | [_, _], _ | _ :: _ :: _ :: _ :: _, _ => exact .defect _
  | conditional =>
    match children, hchild with
    | [t, x, y], hchild =>
      exact conditional_settles (hchild t (by simp)) (hchild x (by simp)) (hchild y (by simp)) hv
    | [], _ | [_], _ | [_, _], _ | _ :: _ :: _ :: _ :: _, _ => exact .defect _
  | array => exact .bind (evalAll_settles hchild hv 1) fun _ _ _ _ => .pure _
  | subscript =>
    match children, hchild with
    | [t, i], hchild =>
      exact pair_settles (hchild t (by simp)) (hchild i (by simp)) hv fun _ _ _ => .check _
    | [], _ | [_], _ | _ :: _ :: _ :: _, _ => exact .defect _
  | call =>
    match children, hsize, hchild with
    | [], _, _ => exact .fail _
    | callee :: rest, hsize, hchild =>
      refine call_settles hbodies (fun es hes e he => hparts e ?_) hv
      obtain ⟨n, hn, he⟩ := mem_children_of_argumentNodes? hes he
      have hmem : n ∈ callee :: rest := List.mem_cons_of_mem _ (List.mem_of_head? hn)
      have hsize' := Nat.lt_trans (List.sizeOf_lt_of_mem hmem) hsize
      exact Nat.lt_trans (Node.sizeOf_lt_of_mem_children he) hsize'

/-- An expression settles in every world of its evaluation if the bodies of the closures that it
calls do. -/
theorem eval_settles (hbodies : I.BodiesSettle f w) (n : Node) : I.Steady f w n := by
  induction hn : sizeOf n using Nat.strongRecOn generalizing n with
  | ind size ih =>
    intro v hv
    refine .of_shift 6 (.within n ?_)
    change Settles (fun l => evalNode (.below l) n f) v
    match n, hn with
    | .token type text p, _ => exact (token_settles type text).shift 2
    | @Node.improper .operator p held, _ => exact .fail _
    | @Node.improper .numeral p held, _ => exact contents_settles held
    | .plain value, _ => exact .fail _
    | .list items, _ => exact .fail _
    | .hollow label m, _ =>
      cases hform : ExpressionForm.ofLabel? label with
      | none =>
        simp only [evalNode, hform]
        exact refuseLabel_settles label m
      | some form =>
        simp only [evalNode, hform]
        cases form with
        | unary | binary | conditional | subscript | array => exact .defect _
        | call => exact .fail _
    | .tree label children m, hn =>
      cases hform : ExpressionForm.ofLabel? label with
      | none =>
        simp only [evalNode, hform]
        exact refuseLabel_settles label m
      | some form =>
        simp only [evalNode, hform]
        obtain rfl := ExpressionForm.label_of_ofLabel? hform
        exact tree_settles hbodies form children m (fun e he => ih _ (hn ▸ he) e rfl) hv

end Invariant
end Bella
