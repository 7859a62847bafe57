import Bella.Proofs.Linkage
import Bella.Proofs.Parameters

/-!
# A call reports the first check that fails

A call finds its callee, then evaluates its arguments from left to right, then counts them. A builtin
demands numbers after that, and a closure binds its parameters. The first of these steps that fails
is what the call reports, and what was done before it stays done.

The callee is the value that the name had first. An argument may be a call under flat scoping that
binds the same name nearer to the caller, and then the call goes on with the callee that it has.

## Main definitions

* `Bella.Builtin.Admits`: the numbers of arguments that a builtin takes.
* `Bella.CallEnds`: the ways in which a call ends.

## Main results

* `Bella.Check.eq_map_or_first`, `Bella.Check.numbers_of_first`: the first argument that is no number.
* `Bella.CallEnds.evalCall_eq`: what one of these ways says is how the call ends.
* `Bella.exists_callEnds`: every call ends in one of these ways.
* `Bella.call_reports_first_failure`: both, for the evaluation of a call.
-/

namespace Bella

/-! ### Arguments of a builtin -/

namespace Check

theorem numbers_map (builtin : String) (xs : List Float) :
    numbers builtin (xs.map .number) = .ok xs := by
  induction xs with
  | nil => rfl
  | cons x xs ih =>
    rw [List.map_cons, numbers, ih]
    rfl

/-- The first argument that is no number is named. -/
theorem numbers_of_first (builtin : String) (xs : List Float) {a : Value} (ha : a.kind ≠ .number)
    (after : List Value) :
    numbers builtin (xs.map .number ++ a :: after) = .error (.notNumeric builtin a.kind) := by
  induction xs with
  | nil =>
    cases a with
    | number x => exact absurd rfl ha
    | boolean _ | array _ | closure _ | builtin _ | foreign _ => rfl
  | cons x xs ih =>
    rw [List.map_cons, List.cons_append, numbers, ih]
    rfl

/-- All values are numbers, or there is a first one that is not. -/
theorem eq_map_or_first (vs : List Value) :
    (∃ xs : List Float, vs = xs.map .number) ∨
      ∃ (xs : List Float) (a : Value) (after : List Value),
        vs = xs.map .number ++ a :: after ∧ a.kind ≠ .number := by
  induction vs with
  | nil => exact .inl ⟨[], rfl⟩
  | cons v vs ih =>
    by_cases hv : v.kind = .number
    · cases v with
      | number x =>
        obtain ⟨xs, rfl⟩ | ⟨xs, a, after, rfl, ha⟩ := ih
        · exact .inl ⟨x :: xs, rfl⟩
        · exact .inr ⟨x :: xs, a, after, rfl, ha⟩
      | boolean _ | array _ | closure _ | builtin _ | foreign _ => cases hv
    · exact .inr ⟨[], v, vs, rfl, hv⟩

end Check

/-- The builtin takes so many arguments, or any number of them. -/
def Builtin.Admits (b : Builtin) (count : Nat) : Prop :=
  ∀ expected, b.arity = some expected → expected = count

section Builtins

variable {b : Builtin} {vs : List Value}

theorem callBuiltin_of_arity_ne {expected : Int} (harity : b.arity = some expected)
    (hcount : expected ≠ vs.length) :
    callBuiltin b vs = Run.fail (.wrongArity b.name expected vs.length) := by
  simp only [callBuiltin, harity, Option.getD_some, if_pos hcount]

theorem callBuiltin_of_admits (hcount : b.Admits vs.length) :
    callBuiltin b vs = do
      let xs ← Run.check (Check.numbers b.name vs)
      return .number (b.apply xs) := by
  have hexpected : b.arity.getD vs.length = vs.length := by
    cases harity : b.arity with
    | none => rfl
    | some expected => exact hcount expected harity
  simp only [callBuiltin, hexpected, ne_eq, not_true_eq_false, if_false]

end Builtins

namespace Cause

variable {name : String} {expected : Int} {got : Nat}

theorem message_wrongArity :
    (wrongArity name expected got).message =
      "Function " ++ quoted name ++ " expects " ++ toString expected ++ " argument(s); got "
        ++ toString got ++ (if got < expected then " (too few)" else " (too many)") := rfl

/-- The message about a wrong number of arguments says whether there are too few. -/
theorem message_wrongArity_iff :
    (∃ s, (wrongArity name expected got).message = s ++ " (too few)") ↔ got < expected := by
  rw [message_wrongArity]
  constructor
  · rintro ⟨s, hs⟩
    by_contra hmany
    rw [if_neg hmany] at hs
    -- Read from the end, the two endings differ in the second character.
    have hlast := congrArg (fun t => t.toList.reverse) hs
    simp [String.toList_append] at hlast
  · intro hfew
    rw [if_pos hfew]
    exact ⟨_, rfl⟩

end Cause

/-! ### How calls end -/

/-- The ways in which a call ends, which is made in the frame `f` and the world `w`, under the name
`x` and with the arguments `es`. They come in the order in which a call finds out. -/
inductive CallEnds (evaluate : Evaluator) (x : String) (es : List Node) (f : FrameId) (w : World) :
    EStateM.Result Halt World Value → Prop
  /-- The name is unbound. No argument is evaluated. -/
  | unbound (hx : w.store.lookup? f x = none) :
      CallEnds evaluate x es f w (Run.fail (.notDeclared x) w)
  /-- The callee is no function. No argument is evaluated. -/
  | notCallable {a : Value} (hx : w.store.lookup? f x = some a) (ha : a.isFunction = false) :
      CallEnds evaluate x es f w (Run.fail (.notCallable x a.kind) w)
  /-- An argument halts, after those before it had values. -/
  | argument {a : Value} {e : Node} {h : Halt} {v u : World} (hx : w.store.lookup? f x = some a)
      (ha : a.isFunction = true) (hturn : InTurn evaluate f w es v e)
      (he : evaluate e f v = .error h u) : CallEnds evaluate x es f w (.error h u)
  /-- A closure has another number of parameters. Nothing is bound. -/
  | parameterCount {c : Closure} {vs : List Value} {v : World}
      (hx : w.store.lookup? f x = some (.closure c)) (hvs : evalAll evaluate f es w = .ok vs v)
      (hcount : vs.length ≠ c.parameters.length) :
      CallEnds evaluate x es f w (Run.fail (.wrongArity x c.parameters.length vs.length) v)
  /-- A builtin takes another number of arguments. -/
  | arity {b : Builtin} {vs : List Value} {v : World} {expected : Int}
      (hx : w.store.lookup? f x = some (.builtin b)) (hvs : evalAll evaluate f es w = .ok vs v)
      (harity : b.arity = some expected) (hcount : expected ≠ vs.length) :
      CallEnds evaluate x es f w (Run.fail (.wrongArity b.name expected vs.length) v)
  /-- An argument of a builtin is no number, and those before it are numbers. -/
  | notNumeric {b : Builtin} {xs : List Float} {a : Value} {after : List Value} {v : World}
      (hx : w.store.lookup? f x = some (.builtin b))
      (hvs : evalAll evaluate f es w = .ok (xs.map .number ++ a :: after) v)
      (hcount : b.Admits (xs.map Value.number ++ a :: after).length) (ha : a.kind ≠ .number) :
      CallEnds evaluate x es f w (Run.fail (.notNumeric b.name a.kind) v)
  /-- A parameter of a closure collides, and those before it are bound. -/
  | collision {c : Closure} {vs : List Value} {v u : World} {i : FrameId} {F : Frame} {k : Nat}
      {y : String} (hx : w.store.lookup? f x = some (.closure c))
      (hvs : evalAll evaluate f es w = .ok vs v) (hcount : vs.length = c.parameters.length)
      (htarget : CallTarget x c f v i F)
      (hfirst : FirstCollision (c.Taken v.store f) c.parameters k y)
      (hbound : v.Takes i F ((c.parameters.zip vs).take k) u) :
      CallEnds evaluate x es f w (Run.fail (.alreadyDeclared y .variable) u)
  /-- A builtin computes a number. -/
  | builtin {b : Builtin} {xs : List Float} {v : World}
      (hx : w.store.lookup? f x = some (.builtin b))
      (hvs : evalAll evaluate f es w = .ok (xs.map .number) v)
      (hcount : b.Admits (xs.map Value.number).length) :
      CallEnds evaluate x es f w (.ok (.number (b.apply xs)) v)
  /-- The body of a closure is evaluated where all parameters are bound. -/
  | body {c : Closure} {vs : List Value} {v u : World} {i : FrameId} {F : Frame}
      (hx : w.store.lookup? f x = some (.closure c)) (hvs : evalAll evaluate f es w = .ok vs v)
      (hcount : vs.length = c.parameters.length) (htarget : CallTarget x c f v i F)
      (hnone : ∀ k, ¬ CollidesAt (c.Taken v.store f) c.parameters k)
      (hbound : v.Takes i F (c.parameters.zip vs) u) :
      CallEnds evaluate x es f w
        (evaluate c.body i (u.noted (.called x c.parameters (v.store.options f).scoping)))

section Ends

variable {evaluate : Evaluator} {x : String} {p : Position} {es rest : List Node} {f : FrameId}
  {w v : World}

/-- A call calls its callee when all arguments have values. -/
private theorem evalCall_of_arguments {a : Value} {vs : List Value}
    (hx : w.store.lookup? f x = some a) (ha : a.isFunction = true)
    (hes : argumentNodes? rest.head? = some es) (hvs : evalAll evaluate f es w = .ok vs v) :
    evalCall evaluate evaluate f (.token TokenForm.name.type x p :: rest) w =
      callValue evaluate x a vs f v := by
  rw [evalCall_apply hx ha hes, Run.bind_eq_of_ok hvs]

/-- What one of the ways says is how the call ends. -/
theorem CallEnds.evalCall_eq {r : EStateM.Result Halt World Value}
    (h : CallEnds evaluate x es f w r) (hes : argumentNodes? rest.head? = some es) :
    evalCall evaluate evaluate f (.token TokenForm.name.type x p :: rest) w = r := by
  cases h with
  | unbound hx =>
    have hfails : Run.lookup f x w = .error (.error { cause := .notDeclared x }) w := by
      rw [Run.lookup_apply, hx]
    rw [evalCall, Run.check_identifier, pure_bind, Run.bind_eq_of_error hfails]
    rfl
  | @notCallable a hx ha =>
    have hfound : Run.lookup f x w = .ok a w := by rw [Run.lookup_apply, hx]
    rw [evalCall, Run.check_identifier, pure_bind, Run.bind_eq_of_ok hfound,
      if_neg (Bool.eq_false_iff.mp ha)]
  | argument hx ha hturn he =>
    exact (evalCall_apply hx ha hes).trans (Run.bind_eq_of_error (hturn.evalAll_eq he))
  | parameterCount hx hvs hcount =>
    rw [evalCall_of_arguments hx rfl hes hvs, callValue, callClosure_of_length_ne hcount]
  | arity hx hvs harity hcount =>
    rw [evalCall_of_arguments hx rfl hes hvs, callValue, callBuiltin_of_arity_ne harity hcount]
  | notNumeric hx hvs hcount ha =>
    rw [evalCall_of_arguments hx rfl hes hvs, callValue, callBuiltin_of_admits hcount,
      Check.numbers_of_first _ _ ha]
    rfl
  | collision hx hvs hcount htarget hfirst hbound =>
    obtain ⟨u, hu, hcall⟩ := htarget.callClosure_of_firstCollision hcount hfirst
    rw [evalCall_of_arguments hx rfl hes hvs, callValue, hcall, hu.unique hbound]
    rfl
  | builtin hx hvs hcount =>
    rw [evalCall_of_arguments hx rfl hes hvs, callValue, callBuiltin_of_admits hcount,
      Check.numbers_map]
    rfl
  | body hx hvs hcount htarget hnone hbound =>
    obtain ⟨u, hu, -, hcall⟩ := htarget.callClosure_of_not_collidesAt hcount hnone
    rw [evalCall_of_arguments hx rfl hes hvs, callValue, hcall, hu.unique hbound]

private theorem exists_callEnds_builtin {b : Builtin} {vs : List Value}
    (hx : w.store.lookup? f x = some (.builtin b)) (hvs : evalAll evaluate f es w = .ok vs v) :
    ∃ r, CallEnds evaluate x es f w r := by
  by_cases hcount : b.Admits vs.length
  · obtain ⟨xs, rfl⟩ | ⟨xs, a, after, rfl, ha⟩ := Check.eq_map_or_first vs
    · exact ⟨_, .builtin hx hvs hcount⟩
    · exact ⟨_, .notNumeric hx hvs hcount ha⟩
  · obtain ⟨expected, hother⟩ := not_forall.mp hcount
    obtain ⟨harity, hne⟩ := Classical.not_imp.mp hother
    exact ⟨_, .arity hx hvs harity hne⟩

private theorem exists_callEnds_closure {c : Closure} {vs : List Value}
    (hx : w.store.lookup? f x = some (.closure c)) (hvs : evalAll evaluate f es w = .ok vs v)
    (hv : v.Supports c f) : ∃ r, CallEnds evaluate x es f w r := by
  by_cases hcount : vs.length = c.parameters.length
  · obtain ⟨i, F, htarget⟩ := hv.exists_target x
    by_cases hcollides : ∃ k, CollidesAt (c.Taken v.store f) c.parameters k
    · obtain ⟨_, hat⟩ := hcollides
      obtain ⟨k, y, hfirst⟩ := hat.exists_firstCollision
      obtain ⟨u, hu, -⟩ := htarget.callClosure_of_firstCollision hcount hfirst
      exact ⟨_, .collision hx hvs hcount htarget hfirst hu⟩
    · have hnone := not_exists.mp hcollides
      obtain ⟨u, hu, -, -⟩ := htarget.callClosure_of_not_collidesAt hcount hnone
      exact ⟨_, .body hx hvs hcount htarget hnone hu⟩
  · exact ⟨_, .parameterCount hx hvs hcount⟩

/-- A closure can be called still when the arguments have been evaluated. -/
private theorem supports_of_arguments {levels : Nat} (hw : w.store.IsLinked w.store.next)
    (hf : f < w.store.next) {c : Closure} {vs : List Value}
    (hx : w.store.lookup? f x = some (.closure c)) (hvs : evalAll (eval levels) f es w = .ok vs v) :
    v.Supports c f := by
  obtain ⟨-, hlinked, hle⟩ := (linkage w.store.next).evalAll_ok hw hf hvs
  exact
    { ordered := hlinked.ordered
      refers := hlinked.refers.mono hle
      closure := (hw.holdsOnly_of_lookup? hx c List.mem_cons_self).mono hle
      caller := Nat.lt_of_lt_of_le hf hle }

/-- Every call ends in one of the ways. -/
theorem exists_callEnds (hw : w.store.IsLinked w.store.next) (hf : f < w.store.next)
    (levels : Nat) (x : String) (es : List Node) : ∃ r, CallEnds (eval levels) x es f w r := by
  cases hx : w.store.lookup? f x with
  | none => exact ⟨_, .unbound hx⟩
  | some a =>
    cases ha : a.isFunction with
    | false => exact ⟨_, .notCallable hx ha⟩
    | true =>
      cases hvs : evalAll (eval levels) f es w with
      | error h u =>
        obtain ⟨v, e, hturn, he⟩ := evalAll_halts hvs
        exact ⟨_, .argument hx ha hturn he⟩
      | ok vs v =>
        cases a with
        | builtin b => exact exists_callEnds_builtin hx hvs
        | closure c => exact exists_callEnds_closure hx hvs (supports_of_arguments hw hf hx hvs)
        | number _ | boolean _ | array _ | foreign _ => cases ha

end Ends

/-- **A call reports the first check that fails.** Take any call of a name with a list of arguments,
in any frame that is there, under either policy of scoping, in any world where parents are older than
their children and closures refer to frames that are there. It ends in one of nine ways, which leave
one result. The name is unbound, or its value is no function, and then no argument is evaluated. Or an
argument halts, and the call halts with it and leaves the world that it leaves. Or the number of
arguments is not the one that the callee takes, and nothing is bound; or an argument of a builtin is no
number, and the first such one is named; or a parameter of a closure collides. Otherwise the call ends
as the builtin or the body of the closure does. The callee is always the value that the name had before
the arguments were evaluated, and an error without location takes the position of the call.

The message about a wrong number of arguments says that they are too few if and only if they are fewer
than expected. -/
theorem call_reports_first_failure (levels : Nat) (x : String) (p : Position) (rest es : List Node)
    (m : Mark) (f : FrameId) (w : World) (hw : w.store.IsLinked w.store.next)
    (hf : f < w.store.next) (hes : argumentNodes? rest.head? = some es) :
    let n : Node := .tree ExpressionForm.call.label (.token TokenForm.name.type x p :: rest) m
    (∃! r, CallEnds (eval levels) x es f w r) ∧
      (∀ r, CallEnds (eval levels) x es f w r →
        eval (levels + 6) n f w = match r with
          | .ok a v => .ok a v
          | .error h v => .error (h.locate n.position) v) ∧
      ∀ (name : String) (expected : Int) (got : Nat),
        (∃ s, (Cause.wrongArity name expected got).message = s ++ " (too few)") ↔
          got < expected := by
  intro n
  refine ⟨?_, fun r hr => ?_, fun _ _ _ => Cause.message_wrongArity_iff⟩
  · obtain ⟨r, hr⟩ := exists_callEnds hw hf levels x es
    exact ⟨r, hr, fun r' hr' => (hr'.evalCall_eq (p := p) hes).symm.trans (hr.evalCall_eq hes)⟩
  · have heval : eval (levels + 6) n f = Run.within n
        (evalCall (eval levels) (eval levels) f (.token TokenForm.name.type x p :: rest)) :=
      eval_form levels .call _ m f
    rw [heval, Run.within_apply, hr.evalCall_eq hes]
    cases r <;> rfl

/-- Two frames that ask for flat scoping. The one behind binds a function of one parameter, and the
one in front binds a function whose parameter has the name of the first function. -/
def rebindingFrames : World where
  store.frames :=
    #[{ parent := none, label := "global", options := some { scoping := .flat },
        bindings := [("f", .closure
          { id := 6, parameters := ["x"], body := .name "x", frame := some 0 })] },
      { parent := some 0, label := "inner", options := some { scoping := .flat },
        bindings := [("g", .closure
          { id := 7, parameters := ["f"], body := .name "f", frame := some 1 })] }]

theorem rebindingFrames_isLinked :
    rebindingFrames.store.IsLinked rebindingFrames.store.next where
  base_le := Nat.le_refl _
  ordered := Store.IsOrdered.of_frames (by decide)
  refers := .of_frames (by decide)

/-- The first argument gives another value to the name of the callee. The call goes on with the
callee that it has found, and reports that there is an argument too many for it. -/
theorem call_reports_first_failure_of_rebindingFrames :
    ∃ e v, eval 200 (.call (.name "f") [.call (.name "g") [.boolean true], .boolean true]) 1
        rebindingFrames = .error (.error e) v ∧
      e.kind = .arityMismatch ∧ e.cause = .wrongArity "f" 1 2 ∧
      (¬ ∃ s, e.cause.message = s ++ " (too few)") ∧
      v.store.lookup? 1 "f" = some (.boolean true) := by
  obtain ⟨-, hends, hfew⟩ := call_reports_first_failure 194 "f" {}
    [.ofLabel Node.argumentsLabel [.call (.name "g") [.boolean true], .boolean true]]
    [.call (.name "g") [.boolean true], .boolean true] {} 1 rebindingFrames
    rebindingFrames_isLinked (by decide) rfl
  have hcall := hends _ (.parameterCount rfl rfl (by decide))
  refine ⟨_, _, hcall, rfl, rfl, fun h => ?_, rfl⟩
  exact absurd ((hfew "f" 1 2).mp h) (by decide)

end Bella
