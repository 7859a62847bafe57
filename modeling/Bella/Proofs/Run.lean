import Bella.Interpret
import Bella.Proofs.Store

/-!
# Actions on a world

What each action of a run makes of a world. An action is a function of the world, so a fact about it
is an equation: `bind_apply` takes a sequence apart, and every other lemma here gives the world that
one action leaves behind. Calling a closure has two such equations, one for each policy: under
lexical scoping it appends one complete frame to the store and evaluates the body there, and under
flat scoping it replaces the frame of the declaration.

## Main definitions

* `Bella.Run.outcome`, `Bella.Run.after`: how a run ends, and the world that it ends in.
* `Bella.Halt.IsTooDeep`, `Bella.Terminates`: nesting that is too deep, and programs that end.
* `Bella.World.append`, `Bella.World.replace`, `Bella.World.noted`: worlds that differ in one thing.
* `Bella.enterCall`: a call up to the body of the closure.

## Main results

* `Bella.Run.declareAll_apply`: declaring names in order.
* `Bella.enterCall_lexical`, `Bella.enterCall_flat`: binding the parameters of a call.
* `Bella.callClosure_lexical`, `Bella.callClosure_flat`: calling a closure.
-/

namespace Bella

namespace World

/-- The world with one more frame. -/
def append (w : World) (F : Frame) : World := { w with store := w.store.append F }

/-- The world with another frame at an address. -/
def replace (w : World) (i : FrameId) (F : Frame) : World :=
  { w with store := w.store.replace i F }

/-- The world with one more record. -/
def noted (w : World) (r : Record) : World := { w with records := w.records.push r }

theorem replace_replace (w : World) (i : FrameId) (F G : Frame) :
    (w.replace i F).replace i G = w.replace i G := by
  simp only [replace, w.store.replace_replace]

theorem append_replace_next (w : World) (F G : Frame) :
    (w.append F).replace w.store.next G = w.append G := by
  simp only [append, replace, w.store.append_replace_next]

end World

namespace Run

variable {α β : Type}

/-- How a run ends, whatever it did to the world. -/
def outcome (x : Run α) (w : World) : Except Halt α :=
  match x w with
  | .ok a _ => .ok a
  | .error h _ => .error h

/-- The world that a run ends in, however it ends. -/
def after (x : Run α) (w : World) : World :=
  match x w with
  | .ok _ v => v
  | .error _ v => v

theorem outcome_congr {x y : Run α} {w v : World} (h : x w = y v) : x.outcome w = y.outcome v := by
  rw [outcome, outcome, h]

theorem after_congr {x y : Run α} {w v : World} (h : x w = y v) : x.after w = y.after v := by
  rw [after, after, h]

theorem outcome_eq_ok_iff {x : Run α} {w : World} {a : α} :
    x.outcome w = .ok a ↔ ∃ v, x w = .ok a v := by
  unfold outcome
  cases x w with
  | ok b v => simp
  | error k v => simp

theorem outcome_eq_error_iff {x : Run α} {w : World} {h : Halt} :
    x.outcome w = .error h ↔ ∃ v, x w = .error h v := by
  unfold outcome
  cases x w with
  | ok a v => simp
  | error k v => simp

/-! ### Sequences and checks -/

theorem bind_apply (x : Run α) (f : α → Run β) (w : World) :
    (x >>= f) w = match x w with
      | .ok a v => f a v
      | .error h v => .error h v := by
  change EStateM.bind x f w = _
  unfold EStateM.bind
  cases x w <;> rfl

theorem get_apply (w : World) : (get : Run World) w = .ok w w := rfl

theorem pure_apply (a : α) (w : World) : (pure a : Run α) w = .ok a w := rfl

theorem adaptExcept_apply (g : Halt → Halt) (x : Run α) (w : World) :
    (EStateM.adaptExcept g x : Run α) w = match x w with
      | .ok a v => .ok a v
      | .error h v => .error (g h) v := by
  unfold EStateM.adaptExcept
  cases x w <;> rfl

theorem within_apply (n : Node) (x : Run α) (w : World) :
    within n x w = match x w with
      | .ok a v => .ok a v
      | .error h v => .error (h.locate n.position) v :=
  adaptExcept_apply _ x w

/-- A node without position gives no location. -/
theorem within_of_unlocated {n : Node} (h : n.position.location? = none) (x : Run α) :
    within n x = x := by
  have hlocate (k : Halt) : k.locate n.position = k := by
    cases k with
    | error e =>
      obtain ⟨cause, location⟩ := e
      rw [Halt.locate, Error.locate, h]
      cases location <;> rfl
    | defect | overflow | unfinished => rfl
  funext w
  rw [within_apply]
  cases x w with
  | ok a v => rfl
  | error k v => exact congrArg (EStateM.Result.error · v) (hlocate k)

theorem refusing_apply (need levels : Nat) (x : Run α) (w : World) :
    refusing need levels x w = match x w with
      | .ok a v => .ok a v
      | .error h v => .error (if levels < need then .overflow else h) v :=
  adaptExcept_apply _ x w

theorem refusing_throw (need levels : Nat) (h : Halt) :
    refusing need levels (throw h : Run α) = throw (if levels < need then .overflow else h) := rfl

/-- With enough levels an action is refused nothing. -/
theorem refusing_of_le {need levels : Nat} (h : need ≤ levels) (x : Run α) :
    refusing need levels x = x := by
  funext w
  simp only [refusing_apply, Nat.not_lt.mpr h, if_false]
  cases x w <;> rfl

/-- What the last world of an action has, the last world of a sequence has if the rest keeps it. -/
theorem after_bind {x : Run α} {f : α → Run β} {w : World} {P : World → Prop} (hx : P (x.after w))
    (hf : ∀ a v, x w = .ok a v → P v → P ((f a).after v)) : P ((x >>= f).after w) := by
  unfold after at hx hf ⊢
  rw [bind_apply]
  cases h : x w with
  | ok a v =>
    rw [h] at hx
    exact hf a v h hx
  | error k v =>
    rw [h] at hx
    exact hx

/-- What is made of the result of an action changes no world. -/
theorem after_reshape (x : Run α) (g : α → β) (w : World) :
    (x >>= fun a => pure (g a)).after w = x.after w :=
  after_bind (P := (· = x.after w)) rfl fun _ _ _ hv => hv

theorem after_within (n : Node) (x : Run α) (w : World) : (within n x).after w = x.after w := by
  unfold after
  rw [within_apply]
  cases x w <;> rfl

theorem after_check (r : Except Cause α) (w : World) : (check r).after w = w := by
  cases r <;> rfl

theorem after_checkWithin (r : Option (Except Cause α)) (w : World) :
    (checkWithin r).after w = w := by
  cases r with
  | none => rfl
  | some r => exact after_check r w

/-- A token of a name passes for one in every role. -/
theorem check_identifier (role x : String) (p : Position) :
    check (Check.identifier role (.token TokenForm.name.type x p)) = pure x := rfl

/-! ### Names and frames -/

theorem note_apply (r : Record) (w : World) : note r w = .ok () (w.noted r) := rfl

theorem print_apply (sink : Sink) (line : String) (w : World) :
    print sink line w = .ok () { w with printed := w.printed.push (sink, line) } := rfl

theorem options_apply (f : FrameId) (w : World) : options f w = .ok (w.store.options f) w := rfl

theorem newFrame_apply (parent : Option FrameId) (label : String) (o : Option Options) (w : World) :
    newFrame parent label o w =
      .ok w.store.next (w.append
        { parent, label, options := o <|> parent.bind w.store.options?, bindings := [] }) := rfl

theorem lookup_apply (f : FrameId) (x : String) (w : World) :
    lookup f x w = match w.store.lookup? f x with
      | some v => .ok v w
      | none => .error (.error { cause := .notDeclared x }) w := by
  change (match w.store.lookup? f x with | some v => pure v | none => fail (.notDeclared x)) w = _
  cases w.store.lookup? f x <;> rfl

theorem lookup_eq_ok_iff {f : FrameId} {x : String} {w v : World} {a : Value} :
    lookup f x w = .ok a v ↔ w.store.lookup? f x = some a ∧ w = v := by
  rw [lookup_apply]
  cases w.store.lookup? f x <;> simp

theorem declare_apply (f : FrameId) (x : String) (v : Value) (w : World) :
    declare f x v w =
      if w.store.binds f x then .error (.error { cause := .alreadyDeclared x .variable }) w
      else .ok () { w with store := w.store.bind f x v } := by
  change (if w.store.binds f x then fail (.alreadyDeclared x .variable)
    else modify fun w => { w with store := w.store.bind f x v } : Run Unit) w = _
  split <;> rfl

theorem declareFunction_apply (f : FrameId) (x : String) (parameters : List String) (body : Node)
    (w : World) :
    declareFunction f x parameters body w =
      if w.store.binds f x then .error (.error { cause := .alreadyDeclared x .function }) w
      else
        let c : Closure := { id := w.issued, parameters, body, frame := some f }
        .ok c { w with issued := w.issued + 1, store := w.store.bind f x (.closure c) } := by
  unfold declareFunction
  rw [bind_apply]
  change (if w.store.binds f x then fail (.alreadyDeclared x .function) else _ : Run Closure) w = _
  split <;> rfl

theorem assign_apply (f : FrameId) (x : String) (v : Value) (w : World) :
    assign f x v w = match w.store.resolve? f x with
      | some i => .ok () { w with store := w.store.update i x v }
      | none => .error (.error { cause := .notDeclared x }) w := by
  change (match w.store.resolve? f x with
    | some i => modify fun w => { w with store := w.store.update i x v }
    | none => fail (.notDeclared x) : Run Unit) w = _
  cases w.store.resolve? f x <;> rfl

/-- Declaring names in order fills the frame up to the first name that it binds already. -/
theorem declareAll_apply {w : World} {i : FrameId} {F : Frame} (h : w.store.get? i = some F)
    (bs : List (String × Value)) :
    declareAll i bs w = match (F.bindAll bs).2 with
      | none => .ok () (w.replace i (F.bindAll bs).1)
      | some x =>
        .error (.error { cause := .alreadyDeclared x .variable })
          (w.replace i (F.bindAll bs).1) := by
  induction bs generalizing w F with
  | nil =>
    have hself : w.replace i F = w := by simp only [World.replace, Store.replace_self h]
    simp only [Frame.bindAll_nil, hself]
    rfl
  | cons b bs ih =>
    obtain ⟨x, v⟩ := b
    rw [declareAll, bind_apply, declare_apply, Frame.bindAll_cons]
    have hbinds : w.store.binds i x = F.binds x := by simp [Store.binds, h]
    have hself : w.replace i F = w := by simp only [World.replace, Store.replace_self h]
    by_cases hx : F.binds x
    · simp only [hbinds, hx, if_true, hself]
    · have hstore :
          ({ w with store := w.store.bind i x v } : World) = w.replace i (F.bind x v) := by
        simp only [World.replace, Store.bind_eq_replace h]
      have hget : (w.replace i (F.bind x v)).store.get? i = some (F.bind x v) := by
        simp [World.replace, Store.get?_replace, h]
      simp only [hbinds, hx, hstore, Bool.false_eq_true, if_false, ih hget, World.replace_replace]

end Run

/-! ### Calls -/

/-- The frame in which a closure was declared, seen from a caller. -/
def Closure.home (c : Closure) (s : Store) (caller : FrameId) : FrameId :=
  c.frame.getD (s.root caller)

/-- The frame of a call before its parameters are bound. -/
def Frame.ofCall (s : Store) (home : FrameId) (name : String) : Frame :=
  { parent := some home, label := "call " ++ name, options := s.options? home, bindings := [] }

/-- A call up to the body of the closure: the parameters are bound, and the frame in which the body
is to be evaluated is given. -/
def enterCall (name : String) (c : Closure) (arguments : List Value) (caller : FrameId) :
    Run FrameId := do
  if arguments.length ≠ c.parameters.length then
    Run.fail (.wrongArity name c.parameters.length arguments.length)
  else
    let world ← get
    let target ← match (world.store.options caller).scoping with
      | .flat => pure (c.home world.store caller)
      | .lexical => Run.newFrame (some (c.home world.store caller)) ("call " ++ name) none
    Run.declareAll target (c.parameters.zip arguments)
    Run.note (.called name c.parameters (world.store.options caller).scoping)
    return target

section Calls

variable {eval : Evaluator} {name : String} {c : Closure} {arguments : List Value}
  {caller : FrameId}
  {w : World}

/-- A call enters the closure and evaluates its body. -/
theorem callClosure_eq_enterCall (eval : Evaluator) (name : String) (c : Closure)
    (arguments : List Value) (caller : FrameId) :
    callClosure eval name c arguments caller =
      enterCall name c arguments caller >>= eval c.body := by
  unfold callClosure enterCall
  by_cases hlength : arguments.length = c.parameters.length
  · simp only [hlength, ne_eq, not_true_eq_false, if_false, bind_assoc]
    refine bind_congr fun world => ?_
    cases (world.store.options caller).scoping <;> simp only [bind_assoc, pure_bind, Closure.home]
  · simp only [hlength, ne_eq, not_false_eq_true, if_true]
    rfl

theorem callClosure_of_length_ne (h : arguments.length ≠ c.parameters.length) :
    callClosure eval name c arguments caller =
      Run.fail (.wrongArity name c.parameters.length arguments.length) := by
  simp only [callClosure, h, ne_eq, not_false_eq_true, if_true]

theorem enterCall_of_length_ne (h : arguments.length ≠ c.parameters.length) :
    enterCall name c arguments caller =
      Run.fail (.wrongArity name c.parameters.length arguments.length) := by
  simp only [enterCall, h, ne_eq, not_false_eq_true, if_true]

/-- Under lexical scoping a call appends one frame, which holds the parameters alone. -/
theorem enterCall_lexical (hlength : arguments.length = c.parameters.length)
    (hscoping : (w.store.options caller).scoping = .lexical) {E : Frame}
    (hE : Frame.ofCall w.store (c.home w.store caller) name = E) :
    enterCall name c arguments caller w =
      match (E.bindAll (c.parameters.zip arguments)).2 with
      | some x => .error (.error { cause := .alreadyDeclared x .variable })
          (w.append (E.bindAll (c.parameters.zip arguments)).1)
      | none => .ok w.store.next
          ((w.append (E.bindAll (c.parameters.zip arguments)).1).noted
            (.called name c.parameters .lexical)) := by
  have hget : (w.append E).store.get? w.store.next = some E := by
    simp [World.append, Store.get?_append]
  have hbind := Run.declareAll_apply hget (c.parameters.zip arguments)
  rw [World.append_replace_next] at hbind
  have hnew : Run.newFrame (some (c.home w.store caller)) ("call " ++ name) none w =
      .ok w.store.next (w.append E) := by
    rw [← hE]
    rfl
  rw [enterCall, if_neg (not_not_intro hlength), Run.bind_apply, Run.get_apply]
  simp only [hscoping, Run.bind_apply, hnew, hbind]
  cases (E.bindAll (c.parameters.zip arguments)).2 <;> rfl

/-- Under flat scoping a call binds its parameters in the frame of the declaration. -/
theorem enterCall_flat (hlength : arguments.length = c.parameters.length)
    (hscoping : (w.store.options caller).scoping = .flat) {home : FrameId} {D : Frame}
    (hhome : c.home w.store caller = home) (hD : w.store.get? home = some D) :
    enterCall name c arguments caller w =
      match (D.bindAll (c.parameters.zip arguments)).2 with
      | some x => .error (.error { cause := .alreadyDeclared x .variable })
          (w.replace home (D.bindAll (c.parameters.zip arguments)).1)
      | none => .ok home ((w.replace home (D.bindAll (c.parameters.zip arguments)).1).noted
          (.called name c.parameters .flat)) := by
  have hbind := Run.declareAll_apply hD (c.parameters.zip arguments)
  rw [enterCall, if_neg (not_not_intro hlength), Run.bind_apply, Run.get_apply]
  simp only [hscoping, hhome, Run.bind_apply, Run.pure_apply, hbind]
  cases (D.bindAll (c.parameters.zip arguments)).2 <;> rfl

/-- Under lexical scoping the body is evaluated in the frame that the call appends. -/
theorem callClosure_lexical (hlength : arguments.length = c.parameters.length)
    (hscoping : (w.store.options caller).scoping = .lexical) {E : Frame}
    (hE : Frame.ofCall w.store (c.home w.store caller) name = E) :
    callClosure eval name c arguments caller w =
      match (E.bindAll (c.parameters.zip arguments)).2 with
      | some x => .error (.error { cause := .alreadyDeclared x .variable })
          (w.append (E.bindAll (c.parameters.zip arguments)).1)
      | none => eval c.body w.store.next
          ((w.append (E.bindAll (c.parameters.zip arguments)).1).noted
            (.called name c.parameters .lexical)) := by
  rw [callClosure_eq_enterCall, Run.bind_apply, enterCall_lexical hlength hscoping hE]
  cases (E.bindAll (c.parameters.zip arguments)).2 <;> rfl

/-- Under flat scoping the body is evaluated in the frame of the declaration. -/
theorem callClosure_flat (hlength : arguments.length = c.parameters.length)
    (hscoping : (w.store.options caller).scoping = .flat) {home : FrameId} {D : Frame}
    (hhome : c.home w.store caller = home) (hD : w.store.get? home = some D) :
    callClosure eval name c arguments caller w =
      match (D.bindAll (c.parameters.zip arguments)).2 with
      | some x => .error (.error { cause := .alreadyDeclared x .variable })
          (w.replace home (D.bindAll (c.parameters.zip arguments)).1)
      | none => eval c.body home ((w.replace home (D.bindAll (c.parameters.zip arguments)).1).noted
          (.called name c.parameters .flat)) := by
  rw [callClosure_eq_enterCall, Run.bind_apply, enterCall_flat hlength hscoping hhome hD]
  cases (D.bindAll (c.parameters.zip arguments)).2 <;> rfl

end Calls

/-! ### Programs -/

/-- Too deep a nesting, inside a program or as it leaves the program. -/
def Halt.IsTooDeep : Halt → Prop
  | .overflow => True
  | .error e => e.kind = .stackOverflow
  | .defect _ | .unfinished => False

theorem Halt.IsTooDeep.locate {h : Halt} (hh : h.IsTooDeep) (p : Position) :
    (h.locate p).IsTooDeep := by
  cases h <;> exact hh

theorem Halt.IsTooDeep.leaveProgram {h : Halt} (hh : h.IsTooDeep) : h.leaveProgram.IsTooDeep := by
  cases h with
  | overflow => rfl
  | error | defect | unfinished => exact hh

/-- A program is executed after a record, and too deep a nesting leaves it as an error. -/
theorem interpretIn_apply {passes : Nat} {program : Node} {f : FrameId} {w : World}
    (hlabel : program.label? = some StatementForm.program.label) :
    interpretIn passes program f w =
      match exec passes programLevels program f
          (w.noted (.interpreting (w.store.options f).scoping)) with
      | .ok a v => .ok a v
      | .error h v => .error h.leaveProgram v := by
  rw [interpretIn, interpretBy, if_pos hlabel, Run.bind_apply, Run.options_apply]
  simp only [Run.bind_apply, Run.note_apply, Run.adaptExcept_apply]
  cases exec passes programLevels program f _ <;> rfl

/-- What is no program is refused at once. -/
theorem interpretIn_of_label_ne {passes : Nat} {program : Node} (f : FrameId)
    (hlabel : program.label? ≠ some StatementForm.program.label) :
    interpretIn passes program f = Run.fail (.notProgram program) := if_neg hlabel

/-- No program ends for want of levels other than by an error. -/
theorem interpretIn_ne_overflow (passes : Nat) (program : Node) (f : FrameId) (w : World) :
    (interpretIn passes program f).outcome w ≠ .error .overflow := by
  unfold Run.outcome
  by_cases hlabel : program.label? = some StatementForm.program.label
  · rw [interpretIn_apply hlabel]
    cases exec passes programLevels program f _ with
    | ok a v => exact nofun
    | error h v => cases h <;> exact nofun
  · rw [interpretIn_of_label_ne f hlabel]
    exact nofun

/-- A program that is given a fresh frame ends: with some number of passes no loop is cut off. -/
def Terminates (program : Node) (options : Option Options) (w : World) : Prop :=
  ∃ passes, (interpret passes program none options).outcome w ≠ .error .unfinished

end Bella
