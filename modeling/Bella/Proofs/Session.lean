import Bella.Proofs.Activity.Making

/-!
# Sessions

A host works with frames in steps: it makes frames, reads and writes bindings, declares functions or
makes closures of its own, runs programs, and executes, evaluates or calls single things. What it
passes on it has got before. A session is any number of such steps in any order, and steps that halt
are among them.

A session remembers the closures that were made in it. They are a history of its world, and the host
holds nothing else.

## Main definitions

* `Bella.Session`, `Bella.Session.Step`: a host at work, and what it may do next.
* `Bella.Session.Reachable`: the sessions that there are.
* `Bella.Session.Step.makings`, `Bella.Session.Step.Makes`: the closures that a step makes.
* `Bella.Session.Step.Meets`: the closures that are met while a step is under way.

## Main results

* `Bella.Session.Step.perform_leaves`: what was made before a step and what it makes are a history of
  the world that it leaves.
* `Bella.Session.Step.mem_makings_iff`: what is listed is what a step makes.
* `Bella.Session.Reachable.isSound`: every session has a history.
-/

namespace Bella

/-! ### What a host may do -/

/-- A host makes a closure of its own, for a frame or for none. -/
def Run.createClosure (parameters : List String) (body : Node) (frame : Option FrameId) :
    Run Closure := do
  return { id := ← Run.issue, parameters, body, frame }

/-- What a host does next. -/
inductive Session.Step where
  /-- A frame is made. -/
  | newFrame (parent : Option FrameId) (label : String) (o : Option Options)
  /-- A frame for globals is made, with the prelude behind it if the options ask for it. -/
  | globalFrame (o : Options)
  /-- The options of a frame are set. -/
  | setOptions (f : FrameId) (o : Options)
  /-- A name is looked up. -/
  | lookup (f : FrameId) (x : String)
  /-- A variable is declared. -/
  | declare (f : FrameId) (x : String) (v : Value)
  /-- A value is assigned. -/
  | assign (f : FrameId) (x : String) (v : Value)
  /-- A function is declared. -/
  | declareFunction (f : FrameId) (x : String) (ps : List String) (body : Node)
  /-- A closure is made outside any program. -/
  | createClosure (ps : List String) (body : Node) (frame : Option FrameId)
  /-- A program is interpreted. -/
  | interpret (passes : Nat) (program : Node) (frame : Option FrameId) (o : Option Options)
  /-- A program is run, and its lines are collected. -/
  | run (passes : Nat) (program : Node) (scoping : Scoping) (mathematics : Bool)
      (frame : Option FrameId)
  /-- A statement is executed. -/
  | execute (passes levels : Nat) (n : Node) (f : FrameId)
  /-- An expression is evaluated. -/
  | evaluate (levels : Nat) (n : Node) (f : FrameId)
  /-- A value is called. -/
  | call (levels : Nat) (x : String) (callee : Value) (vs : List Value) (f : FrameId)

/-- The execution of a program, after its frame is prepared and its start is noted. -/
def Activity.ofInterpret? (passes : Nat) (program : Node) (frame : Option FrameId)
    (o : Option Options) (w : World) : Option Activity :=
  match prepareFrame frame o w with
  | .ok f v =>
    if program.label? = some StatementForm.program.label then
      some (.execution passes programLevels program f
        (v.noted (.interpreting (v.store.options f).scoping)))
    else none
  | .error _ _ => none

namespace Session.Step

/-- What a step does, with the values that it gives to the host. -/
def perform : Step → Run (List Value)
  | newFrame parent label o => do let _ ← Run.newFrame parent label o; return []
  | globalFrame o => do let _ ← Run.globalFrame o; return []
  | setOptions f o => do Run.setOptions f o; return []
  | lookup f x => do return [← Run.lookup f x]
  | declare f x v => do Run.declare f x v; return []
  | assign f x v => do Run.assign f x v; return []
  | declareFunction f x ps body => do return [.closure (← Run.declareFunction f x ps body)]
  | createClosure ps body frame => do return [.closure (← Run.createClosure ps body frame)]
  | interpret passes program frame o => do Bella.interpret passes program frame o; return []
  | run passes program scoping mathematics frame => do
    let _ ← Bella.run passes program scoping mathematics frame
    return []
  | execute passes levels n f => do exec passes levels n f; return []
  | evaluate levels n f => do return [← eval levels n f]
  | call levels x callee vs f => do return [← callValue (eval levels) x callee vs f]

/-- The values that the host passes on. -/
def values : Step → List Value
  | declare _ _ v | assign _ _ v => [v]
  | call _ _ callee vs _ => callee :: vs
  | _ => []

/-- The execution or evaluation that a step consists of, if it comes to one. -/
def activity? : Step → World → Option Activity
  | interpret passes program frame o, w => Activity.ofInterpret? passes program frame o w
  | run passes program scoping mathematics frame, w =>
    Activity.ofInterpret? passes program frame
      (some { sink := .collector w.issued, scoping, mathematics }) { w with issued := w.issued + 1 }
  | execute passes levels n f, w => some (.execution passes levels n f w)
  | evaluate levels n f, w => some (.evaluation levels n f w)
  | call levels x (.closure k) vs f, w =>
    match enterCall x k vs f w with
    | .ok t v => some (.evaluation levels k.body t v)
    | .error _ _ => none
  -- a builtin computes its result without evaluating anything
  | _, _ => none

/-- The action by which a step makes a closure itself. -/
def maker? : Step → Option (Run Closure)
  | declareFunction f x ps body => some (Run.declareFunction f x ps body)
  | createClosure ps body frame => some (Run.createClosure ps body frame)
  | _ => none

/-- The closures that a step makes, in order. -/
def makings (s : Step) (w : World) : List Making :=
  match s.maker? with
  | some x => x.making w
  | none => (s.activity? w).elim [] Activity.makings

/-- The step makes a closure: by itself, or by a declaration that is executed inside it. -/
inductive Makes (s : Step) (w : World) : Making → Prop
  | itself {x : Run Closure} {k : Closure} {v : World} (hs : s.maker? = some x)
      (hk : x w = .ok k v) : Makes s w { world := w, closure := k }
  | inside {a b : Activity} {depth : Nat} {m : Making} (ha : s.activity? w = some a)
      (hb : a.Reaches depth b) (hm : b.Makes m) : Makes s w m

/-- The closures that are met while a step is under way. -/
def Meets (s : Step) (w : World) (c : Closure) : Prop :=
  ∃ a depth b, s.activity? w = some a ∧ a.Reaches depth b ∧ b.Meets c

end Session.Step

/-! ### Sessions -/

/-- A host at work. -/
structure Session where
  /-- The world as it is now. -/
  world : World := {}
  /-- The values that the host has been given so far. -/
  held : List Value := []
  /-- The closures that have been made so far, oldest first. -/
  made : List Making := []

namespace Session

/-- The closure is in a frame, or in a value that the host holds. -/
def Has (σ : Session) (c : Closure) : Prop :=
  σ.world.store.Has c ∨ ∃ v ∈ σ.held, c ∈ v.closures

/-- The host forges no closures: it passes on what there is, as it is or in arrays. -/
def Allows (σ : Session) (s : Step) : Prop := ∀ v ∈ s.values, v.HoldsOnly σ.Has

/-- A step that passes nothing on is allowed. -/
theorem allows_of_values_eq_nil {σ : Session} {s : Step} (hs : s.values = []) : σ.Allows s := by
  intro v hv
  rw [hs] at hv
  cases hv

/-- The session after a step, also if the step halts. -/
def after (σ : Session) (s : Step) : Session where
  world := s.perform.after σ.world
  held := σ.held ++ ((s.perform.outcome σ.world).toOption.getD [])
  made := σ.made ++ s.makings σ.world

/-- The sessions that there are: any number of steps in any order, from nothing. -/
inductive Reachable : Session → Prop
  | start : Reachable {}
  | step {σ : Session} (hσ : σ.Reachable) {s : Step} (hs : σ.Allows s) : Reachable (σ.after s)

end Session

/-! ### Frames and programs -/

theorem Prelude.holdsOnly_of_mem_bindings {b : String × Value} (hb : b ∈ Prelude.bindings)
    (P : Closure → Prop) : b.2.HoldsOnly P := by
  simp only [Prelude.bindings, List.mem_append, List.mem_map, List.mem_singleton] at hb
  obtain ⟨f, -, rfl⟩ | rfl := hb
  · exact List.forall_mem_nil _
  · exact List.forall_mem_nil _

section Programs

variable {made : List Making} {w : World}

theorem globalFrame_isHistory (hw : IsHistory made w) (o : Options) :
    Run.Ends (Run.globalFrame o w) (fun _ => IsHistory made) (IsHistory made) := by
  have hnew {w : World} (hw : IsHistory made w) (parent : Option FrameId) (label : String) :
      Run.Ends (Run.newFrame parent label (some o) w) (fun _ => IsHistory made) (IsHistory made) :=
    hw.append rfl
  unfold Run.globalFrame
  split
  · refine (hnew hw none "prelude").bind fun behind v hv => ?_
    refine (Run.declareAll_ends (P := IsHistory made) (fun b hb u hu _ => ?_) hv).bind
      fun _ u hu => hnew hu (some behind) "global"
    exact hu.bind behind b.1 (Prelude.holdsOnly_of_mem_bindings hb _)
  · exact hnew hw none "global"

theorem prepareFrame_isHistory (hw : IsHistory made w) (frame : Option FrameId)
    (o : Option Options) :
    Run.Ends (prepareFrame frame o w) (fun _ => IsHistory made) (IsHistory made) := by
  match frame, o with
  | none, o => exact globalFrame_isHistory hw _
  | some f, none => exact hw
  | some f, some o => exact hw.setOptions f o

variable {passes : Nat} {program : Node} {frame : Option FrameId} {o : Option Options}

/-- What was made before a program is a history of the world in which its execution begins. -/
theorem IsHistory.of_ofInterpret? (hw : IsHistory made w) {a : Activity}
    (ha : Activity.ofInterpret? passes program frame o w = some a) : IsHistory made a.world := by
  have hprepared := prepareFrame_isHistory hw frame o
  unfold Activity.ofInterpret? at ha
  split at ha
  · rename_i f v hv
    rw [hv] at hprepared
    split at ha
    · cases ha
      exact hprepared.noted _
    · cases ha
  · cases ha

/-- Leaving a program changes nothing but the halt. -/
theorem after_interpretIn (hlabel : program.label? = some StatementForm.program.label)
    (f : FrameId) (v : World) :
    (interpretIn passes program f).after v =
      (exec passes programLevels program f).after
        (v.noted (.interpreting (v.store.options f).scoping)) := by
  unfold Run.after
  rw [interpretIn_apply hlabel]
  cases exec passes programLevels program f _ <;> rfl

/-- What was made before a program and what it makes are a history of the world that it leaves. -/
theorem interpret_isHistory (hw : IsHistory made w) :
    IsHistory
      (made ++ (Activity.ofInterpret? passes program frame o w).elim [] Activity.makings)
      ((interpret passes program frame o).after w) := by
  have hprepared := prepareFrame_isHistory hw frame o
  unfold Activity.ofInterpret?
  cases hv : prepareFrame frame o w with
  | error h v =>
    have hhalt : interpret passes program frame o w = .error h v := Run.bind_eq_of_error hv
    rw [hv] at hprepared
    rw [Run.after, hhalt, Option.elim_none, List.append_nil]
    exact hprepared
  | ok f v =>
    have hrun : interpret passes program frame o w = interpretIn passes program f v :=
      Run.bind_eq_of_ok hv
    rw [hv] at hprepared
    rw [Run.after_congr hrun]
    by_cases hlabel : program.label? = some StatementForm.program.label
    · rw [after_interpretIn hlabel]
      simp only [if_pos hlabel, Option.elim_some]
      exact (hprepared.noted _).last (a := .execution passes programLevels program f _)
    · simp only [if_neg hlabel, Option.elim_none, List.append_nil, interpretIn_of_label_ne f hlabel]
      exact hprepared

end Programs

/-! ### Steps -/

section Steps

variable {α : Type} {made : List Making} {w : World}

/-- However the action ends, the list is a history of the world that it leaves, and the values that
it gives hold nothing else. -/
def Run.Leaves (x : Run (List Value)) (w : World) (made : List Making) : Prop :=
  Run.Ends (x w) (fun vs v => IsHistory made v ∧ ∀ u ∈ vs, u.HoldsOnly (IsMade made))
    (IsHistory made)

/-- A step that gives nothing to the host. -/
private theorem leaves_nothing {x : Run α} (h : IsHistory made (x.after w)) :
    Run.Leaves (do let _ ← x; return []) w made :=
  (Run.ends_of_after h).bind fun _ _ hv => ⟨hv.2, nofun⟩

/-- A step that gives a value to the host. -/
private theorem leaves_value {x : Run Value}
    (h : Run.Ends (x w) (fun a v => a.HoldsOnly (IsMade made) ∧ IsHistory made v)
      (IsHistory made)) :
    Run.Leaves (do return [← x]) w made :=
  h.bind fun _ _ hv => ⟨hv.2, fun _ hu => List.mem_singleton.mp hu ▸ hv.1⟩

/-- A step that makes a closure and gives it to the host. -/
private theorem leaves_closure {x : Run Closure} (hw : IsHistory made w)
    (hx : x.IsListedBy x.making) :
    Run.Leaves (do return [.closure (← x)]) w (made ++ x.making w) := by
  refine (Run.ends_of_after (hx made w hw)).bind fun k v hk => ⟨hk.2, fun u hu c hc => ?_⟩
  rw [List.mem_singleton.mp hu] at hc
  rw [Run.making, hk.1]
  exact ⟨_, List.mem_append_right _ List.mem_cons_self, (List.mem_singleton.mp hc).symm⟩

theorem createClosure_isListedBy (ps : List String) (body : Node) (frame : Option FrameId) :
    (Run.createClosure ps body frame).IsListedBy (Run.createClosure ps body frame).making :=
  fun _ _ hw => hw.make rfl

theorem callValue_isHistory (hw : IsHistory made w) (levels : Nat) (x : String) (f : FrameId)
    {callee : Value} (hcallee : callee.HoldsOnly (IsMade made)) {vs : List Value}
    (hvs : ∀ v ∈ vs, v.HoldsOnly (IsMade made)) :
    Run.Ends (callValue (eval levels) x callee vs f w)
      (fun a v => a.HoldsOnly (IsMade made) ∧ IsHistory made v) (IsHistory made) := by
  cases callee with
  | closure k =>
    have hk : IsMade made k := hcallee k List.mem_cons_self
    have hentered := (Invariant.history made).enterCall_keeps hw trivial (x := x) (f := f) hk hvs
    rw [callValue, callClosure_eq_enterCall]
    exact (hentered.mono And.left And.left).bind fun t v hv => eval_isHistory hv levels k.body t
  | builtin b =>
    simp only [callValue, callBuiltin]
    split
    · exact hw
    · exact (Run.ends_check hw).bind fun xs v hv => ⟨List.forall_mem_nil _, hv.2 ▸ hw⟩
  | number | boolean | array | foreign => exact hw

/-- A program that is run is interpreted, once its collector has an identity. -/
theorem after_run (passes : Nat) (program : Node) (scoping : Scoping) (mathematics : Bool)
    (frame : Option FrameId) (w : World) :
    (run passes program scoping mathematics frame).after w =
      (interpret passes program frame
        (some { sink := .collector w.issued, scoping, mathematics })).after
          { w with issued := w.issued + 1 } := by
  have hrun : run passes program scoping mathematics frame w =
      (do
        interpret passes program frame
          (some { sink := .collector w.issued, scoping, mathematics })
        return (← get).linesTo (.collector w.issued) : Run (List String))
        { w with issued := w.issued + 1 } := rfl
  rw [Run.after_congr hrun]
  exact Run.after_bind (P := (· = _)) rfl fun _ _ _ hv => hv

theorem run_isHistory (hw : IsHistory made w) (passes : Nat) (program : Node) (scoping : Scoping)
    (mathematics : Bool) (frame : Option FrameId) :
    IsHistory
      (made ++ ((Session.Step.run passes program scoping mathematics frame).activity? w).elim []
        Activity.makings)
      ((run passes program scoping mathematics frame).after w) := by
  -- the collector takes an identity, too, before anything is made
  rw [after_run]
  exact interpret_isHistory hw.issue

namespace Session.Step

variable {s : Step}

theorem makings_call (levels : Nat) (x : String) (callee : Value) (vs : List Value) (f : FrameId)
    (w : World) : (call levels x callee vs f).makings w = [] := by
  cases callee with
  | closure k =>
    simp only [makings, maker?, activity?]
    split <;> rfl
  | number | boolean | array | builtin | foreign => rfl

private theorem leaves_of_makings_eq_nil (hnothing : s.makings w = [])
    (h : s.perform.Leaves w made) : s.perform.Leaves w (made ++ s.makings w) := by
  rw [hnothing, List.append_nil]
  exact h

/-- However a step ends, what was made before and what it makes are a history of the world that it
leaves, and the host is given nothing else. -/
theorem perform_leaves (hw : IsHistory made w)
    (hs : ∀ v ∈ s.values, v.HoldsOnly (IsMade made)) :
    s.perform.Leaves w (made ++ s.makings w) := by
  cases s with
  | newFrame parent label o =>
    exact leaves_of_makings_eq_nil rfl (leaves_nothing (hw.append rfl))
  | globalFrame o =>
    exact leaves_of_makings_eq_nil rfl (leaves_nothing (globalFrame_isHistory hw o).after)
  | setOptions f o =>
    exact leaves_of_makings_eq_nil rfl (leaves_nothing (hw.setOptions f o))
  | lookup f x =>
    refine leaves_of_makings_eq_nil rfl (leaves_value ?_)
    rw [Run.lookup_apply]
    cases hx : w.store.lookup? f x with
    | none => exact hw
    | some v => exact ⟨fun c hc => hw.origin c (Store.has_of_lookup? hx hc), hw⟩
  | declare f x v =>
    have hv : v.HoldsOnly (IsMade made) := hs v List.mem_cons_self
    refine leaves_of_makings_eq_nil rfl (leaves_nothing ?_)
    unfold Run.after
    rw [Run.declare_apply]
    by_cases hbinds : w.store.binds f x
    · rw [if_pos hbinds]
      exact hw
    · rw [if_neg hbinds]
      exact hw.bind f x hv
  | assign f x v =>
    have hv : v.HoldsOnly (IsMade made) := hs v List.mem_cons_self
    refine leaves_of_makings_eq_nil rfl (leaves_nothing ?_)
    unfold Run.after
    rw [Run.assign_apply]
    cases w.store.resolve? f x with
    | none => exact hw
    | some i => exact hw.update i x hv
  | declareFunction f x ps body =>
    exact leaves_closure hw (declareFunction_isListedBy f x ps body)
  | createClosure ps body frame =>
    exact leaves_closure hw (createClosure_isListedBy ps body frame)
  | interpret passes program frame o => exact leaves_nothing (interpret_isHistory hw)
  | run passes program scoping mathematics frame =>
    exact leaves_nothing (run_isHistory hw passes program scoping mathematics frame)
  | execute passes levels n f =>
    exact leaves_nothing (exec_isListedBy passes levels n f made w hw)
  | evaluate levels n f =>
    exact leaves_of_makings_eq_nil rfl (leaves_value (eval_isHistory hw levels n f))
  | call levels x callee vs f =>
    obtain ⟨hcallee, hvs⟩ := List.forall_mem_cons.mp hs
    exact leaves_of_makings_eq_nil (makings_call levels x callee vs f w)
      (leaves_value (callValue_isHistory hw levels x f hcallee hvs))

/-- What was made before a step is a history of the world in which its activity begins. -/
theorem activity?_isHistory (hw : IsHistory made w)
    (hs : ∀ v ∈ s.values, v.HoldsOnly (IsMade made)) {a : Activity}
    (ha : s.activity? w = some a) : IsHistory made a.world := by
  match s, hs, ha with
  | interpret passes program frame o, _, ha => exact hw.of_ofInterpret? ha
  | run passes program scoping mathematics frame, _, ha => exact hw.issue.of_ofInterpret? ha
  | execute passes levels n f, _, ha =>
    cases ha
    exact hw
  | evaluate levels n f, _, ha =>
    cases ha
    exact hw
  | call levels x (.closure k) vs f, hs, ha =>
    obtain ⟨hcallee, hvs⟩ := List.forall_mem_cons.mp hs
    simp only [activity?] at ha
    split at ha
    · rename_i t v hentered
      cases ha
      exact ((Invariant.history made).enterCall_ok hw trivial (hcallee k List.mem_cons_self) hvs
        hentered).1
    · cases ha

/-- A step that makes a closure itself is no execution of anything. -/
theorem activity?_of_maker? {x : Run Closure} (hx : s.maker? = some x) (w : World) :
    s.activity? w = none := by
  cases s with
  | declareFunction | createClosure => rfl
  | newFrame | globalFrame | setOptions | lookup | declare | assign | interpret | run | execute
  | evaluate | call => cases hx

/-- It hands out the next identity. -/
theorem id_of_maker? {x : Run Closure} (hx : s.maker? = some x) {k : Closure} {v : World}
    (hk : x w = .ok k v) : k.id = w.issued := by
  cases s with
  | declareFunction f y ps body =>
    cases hx
    exact Run.id_of_declareFunction hk
  | createClosure ps body frame =>
    cases hx
    cases hk
    rfl
  | newFrame | globalFrame | setOptions | lookup | declare | assign | interpret | run | execute
  | evaluate | call => cases hx

section Makes

variable (hw : IsHistory made w) (hs : ∀ v ∈ s.values, v.HoldsOnly (IsMade made))

include hw hs

/-- The closures that are listed are those that the step makes. -/
theorem mem_makings_iff {m : Making} : m ∈ s.makings w ↔ s.Makes w m := by
  unfold makings
  cases hmaker : s.maker? with
  | some x =>
    have hnone := activity?_of_maker? hmaker w
    constructor
    · intro hm
      obtain ⟨k, v, hk, rfl⟩ := Run.mem_making_iff.mp hm
      exact .itself hmaker hk
    · rintro (⟨hx, hk⟩ | ⟨ha, -, -⟩)
      · cases hmaker.symm.trans hx
        exact Run.mem_making_iff.mpr ⟨_, _, hk, rfl⟩
      · cases hnone.symm.trans ha
  | none =>
    constructor
    · intro hm
      cases ha : s.activity? w with
      | none =>
        rw [ha] at hm
        cases hm
      | some a =>
        rw [ha] at hm
        obtain ⟨depth, b, hreaches, hb⟩ := (activity?_isHistory hw hs ha).mem_makings_iff.mp hm
        exact .inside ha hreaches hb
    · rintro (⟨hx, -⟩ | ⟨ha, hb, hm⟩)
      · cases hmaker.symm.trans hx
      · rw [ha]
        exact (activity?_isHistory hw hs ha).mem_makings_iff.mpr ⟨_, _, hb, hm⟩

/-- No closure that there is when a closure is made has its identity. -/
theorem Makes.id_lt {m : Making} (hm : s.Makes w m) {c : Closure} (hc : m.world.store.Has c) :
    c.id < m.closure.id := by
  cases hm with
  | itself hx hk =>
    rw [id_of_maker? hx hk]
    exact hw.id_lt_of_has hc
  | inside ha hb hmakes =>
    obtain ⟨earlier, hworld, -⟩ := (activity?_isHistory hw hs ha).of_reaches hb
    exact hmakes.id_lt hworld hc

/-- What is met while a step is under way was made before, or is made by the step. -/
theorem isMade_of_meets {c : Closure} (hc : s.Meets w c) : IsMade (made ++ s.makings w) c := by
  obtain ⟨a, depth, b, ha, hb, hmeets⟩ := hc
  obtain ⟨earlier, hworld, hprefix⟩ := (activity?_isHistory hw hs ha).of_reaches hb
  have hmakings : s.makings w = a.makings := by
    unfold makings
    cases hmaker : s.maker? with
    | some x => cases (activity?_of_maker? hmaker w).symm.trans ha
    | none => rw [ha, Option.elim_some]
  refine (hworld.isMade_of_meets hmeets).of_subset ?_
  rw [hmakings, List.append_assoc]
  exact ((List.prefix_append_right_inj made).mpr hprefix).subset

end Makes

end Session.Step

end Steps

/-! ### Whole sessions -/

namespace Session

/-- What a session has made is a history of its world, and the host holds nothing else. -/
structure IsSound (σ : Session) : Prop where
  history : IsHistory σ.made σ.world
  held : ∀ v ∈ σ.held, v.HoldsOnly (IsMade σ.made)

namespace IsSound

variable {σ : Session} {s : Step}

theorem isMade_of_has (h : σ.IsSound) {c : Closure} (hc : σ.Has c) : IsMade σ.made c := by
  obtain hframe | ⟨v, hv, hc⟩ := hc
  · exact h.history.origin c hframe
  · exact h.held v hv c hc

theorem isMade_of_allows (h : σ.IsSound) (hs : σ.Allows s) :
    ∀ v ∈ s.values, v.HoldsOnly (IsMade σ.made) :=
  fun v hv c hc => h.isMade_of_has (hs v hv c hc)

/-- A step keeps what a session has made and what the host holds together. -/
theorem after (h : σ.IsSound) (hs : σ.Allows s) : (σ.after s).IsSound := by
  have hends : s.perform.Leaves σ.world (σ.made ++ s.makings σ.world) :=
    Step.perform_leaves h.history (h.isMade_of_allows hs)
  have hold (v : Value) (hv : v ∈ σ.held) :
      v.HoldsOnly (IsMade (σ.made ++ s.makings σ.world)) :=
    fun c hc => (h.held v hv c hc).of_subset (List.subset_append_left _ _)
  refine ⟨(hends.mono And.left id).after, fun v hv => ?_⟩
  obtain hv | hv := List.mem_append.mp hv
  · exact hold v hv
  · unfold Run.outcome at hv
    cases hx : s.perform σ.world with
    | ok vs u =>
      rw [Run.Leaves, hx] at hends
      rw [hx] at hv
      exact hends.2 v hv
    | error k u =>
      rw [hx] at hv
      cases hv

end IsSound

theorem Reachable.isSound {σ : Session} (hσ : σ.Reachable) : σ.IsSound := by
  induction hσ with
  | start => exact ⟨.start, nofun⟩
  | step _ hs ih => exact ih.after hs

end Session

end Bella
