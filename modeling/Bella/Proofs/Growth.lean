import Bella.Proofs.Activity.Nesting
import Bella.Proofs.Simulation.Invariant

/-!
# Bindings only grow

No frame ever loses a name, and none ever gets another parent, label or options while a program is
under way. An expression goes further: whatever it calls, and whether it has a value or not, every
name that was bound in a frame has the value in it that it had. Under flat scoping a call binds its
parameters in a frame that was there, and it stays there if a later parameter is refused, but a name
is bound only where it was free. This holds in every world, whatever its frames ask for.

So the value of a name changes by an assignment alone. Here that is said of runs: if a statement
leaves another value behind, then among the statements that were executed inside it there is an
assignment which found the name in that frame.

## Main definitions

* `Bella.Frame.Widens`, `Bella.Frame.Gains`: what a statement and an expression make of a frame.
* `Bella.Store.Evolves`: what becomes of all frames of a store.
* `Bella.Activity.Assigns`: an assignment to a name of a frame is under way.

## Main results

* `Bella.Frame.Gains.bind`, `Bella.Frame.Widens.update`: one binding, and one assignment.
* `Bella.eval_gains`, `Bella.exec_widens`: what expressions and statements make of frames.
* `Bella.exec_keeps_of_not_assigns`: a value is kept where nothing assigns to it.
* `Bella.bindings_only_grow`: all of it, for one frame.
-/

namespace Bella

/-! ### What becomes of a frame -/

namespace Frame

/-- The frame `G` is the frame `F` with more names and other values. -/
structure Widens (F G : Frame) : Prop where
  /-- The link, the label and the options stay. -/
  shape : G.parent = F.parent ∧ G.label = F.label ∧ G.options = F.options
  /-- No name is lost. -/
  names : ∀ x, F.binds x = true → G.binds x = true

/-- The frame `G` is the frame `F` with more names. -/
structure Gains (F G : Frame) : Prop where
  /-- The link, the label and the options stay. -/
  shape : G.parent = F.parent ∧ G.label = F.label ∧ G.options = F.options
  /-- A name that has a value keeps it. -/
  values : ∀ x a, F.get? x = some a → G.get? x = some a

theorem Gains.widens {F G : Frame} (h : F.Gains G) : F.Widens G := by
  refine ⟨h.shape, fun x hx => ?_⟩
  rw [binds_eq_isSome_get?] at hx ⊢
  obtain ⟨a, ha⟩ := Option.isSome_iff_exists.mp hx
  rw [h.values x a ha]
  rfl

theorem Gains.refl (F : Frame) : F.Gains F := ⟨⟨rfl, rfl, rfl⟩, fun _ _ h => h⟩

theorem Gains.trans {F G H : Frame} (h : F.Gains G) (h' : G.Gains H) : F.Gains H := by
  obtain ⟨hparent, hlabel, hoptions⟩ := h.shape
  obtain ⟨hparent', hlabel', hoptions'⟩ := h'.shape
  exact ⟨⟨hparent'.trans hparent, hlabel'.trans hlabel, hoptions'.trans hoptions⟩,
    fun x a hx => h'.values x a (h.values x a hx)⟩

theorem Widens.trans {F G H : Frame} (h : F.Widens G) (h' : G.Widens H) : F.Widens H := by
  obtain ⟨hparent, hlabel, hoptions⟩ := h.shape
  obtain ⟨hparent', hlabel', hoptions'⟩ := h'.shape
  exact ⟨⟨hparent'.trans hparent, hlabel'.trans hlabel, hoptions'.trans hoptions⟩,
    fun x hx => h'.names x (h.names x hx)⟩

/-- A name that was free is bound without loss. -/
theorem Gains.bind {F : Frame} {x : String} (hx : F.binds x = false) (v : Value) :
    F.Gains (F.bind x v) := by
  refine ⟨⟨rfl, rfl, rfl⟩, fun y a hy => ?_⟩
  have hne : x ≠ y := by
    rintro rfl
    rw [binds_eq_isSome_get?, hy] at hx
    cases hx
  rw [get?_bind, if_neg hne, hy]

/-- An assignment keeps the names of a frame. -/
theorem Widens.update (F : Frame) (x : String) (v : Value) : F.Widens (F.update x v) := by
  refine ⟨⟨rfl, rfl, rfl⟩, fun y hy => ?_⟩
  rw [binds_eq_isSome_get?, get?_update]
  rw [binds_eq_isSome_get?] at hy
  split
  · rw [Option.isSome_map]
    exact hy
  · exact hy

end Frame

/-! ### What becomes of a store -/

namespace Store

/-- Every frame of the store `s` is in the store `t` still, where `R` says what has become of it. -/
def Evolves (R : Frame → Frame → Prop) (s t : Store) : Prop :=
  ∀ i F, s.get? i = some F → ∃ G, t.get? i = some G ∧ R F G

namespace Evolves

variable {R : Frame → Frame → Prop} {s t u : Store}

theorem mono {R' : Frame → Frame → Prop} (h : s.Evolves R t) (hR : ∀ {F G}, R F G → R' F G) :
    s.Evolves R' t := by
  intro i F hF
  obtain ⟨G, hG, hFG⟩ := h i F hF
  exact ⟨G, hG, hR hFG⟩

theorem refl (hR : ∀ F, R F F) (s : Store) : s.Evolves R s := fun _ F hF => ⟨F, hF, hR F⟩

theorem trans (hR : ∀ {F G H}, R F G → R G H → R F H) (h : s.Evolves R t) (h' : t.Evolves R u) :
    s.Evolves R u := by
  intro i F hF
  obtain ⟨G, hG, hFG⟩ := h i F hF
  obtain ⟨H, hH, hGH⟩ := h' i G hG
  exact ⟨H, hH, hR hFG hGH⟩

theorem append (hR : ∀ F, R F F) (s : Store) (E : Frame) : s.Evolves R (s.append E) :=
  fun _ F hF => ⟨F, get?_append_of_get? hF E, hR F⟩

/-- One frame is changed, and the others stay. -/
theorem change (hR : ∀ F, R F F) {j : FrameId} {g : Frame → Frame}
    (ht : ∀ i, t.get? i = if j = i then (s.get? i).map g else s.get? i)
    (hg : ∀ F, s.get? j = some F → R F (g F)) : s.Evolves R t := by
  intro i F hF
  by_cases hij : j = i
  · subst hij
    exact ⟨g F, by simp [ht, hF], hg F hF⟩
  · exact ⟨F, by simp [ht, hij, hF], hR F⟩

/-- Binding a name that was free gains it. -/
theorem bind {i : FrameId} {x : String} (hx : s.binds i x = false) (v : Value) :
    s.Evolves Frame.Gains (s.bind i x v) := by
  refine .change .refl (s.get?_bind i x v) fun F hF => .bind ?_ v
  simpa [Store.binds, hF] using hx

/-- An assignment keeps all names. -/
theorem update (s : Store) (i : FrameId) (x : String) (v : Value) :
    s.Evolves Frame.Widens (s.update i x v) :=
  .change (fun F => (Frame.Gains.refl F).widens) (s.get?_update i x v)
    fun F _ => .update F x v

/-- A name that has a value in a frame keeps it if frames only gain names. -/
theorem own? (h : s.Evolves Frame.Gains t) {i : FrameId} {x : String} {a : Value}
    (hx : s.own? i x = some a) : t.own? i x = some a := by
  obtain ⟨F, hF, hget⟩ := Option.bind_eq_some_iff.mp hx
  obtain ⟨G, hG, hgains⟩ := h i F hF
  rw [Store.own?_of_get? hG, hgains.values x a hget]

end Evolves
end Store

/-! ### Expressions and statements -/

/-- Frames gain names by expressions, and do not lose any by statements. -/
def growthInvariant : ProgramInvariant where
  holds _ := True
  scope _ _ := True
  closures _ := True
  grows w v := w.store.Evolves Frame.Gains v.store
  grows_refl w := .refl .refl w.store
  grows_trans := .trans .trans
  scope_grows _ _ := trivial
  lookup _ _ _ _ _ := trivial
  enter := by
    rintro x k vs f w - - - - -
    have hends := enterCall_ends (x := x) (k := k) (f := f)
      (P := fun v => w.store.Evolves Frame.Gains v.store) (.refl .refl _) (.append .refl _ _)
      (fun i _ b (_ : b ∈ k.parameters.zip vs) v hv hfree => .trans .trans hv (.bind hfree b.2))
      fun _ _ hv => hv
    exact hends.mono (fun h => ⟨trivial, h.1, trivial⟩) fun h => ⟨trivial, h⟩
  top _ := True
  functions _ _ := True
  changes w v := w.store.Evolves Frame.Widens v.store
  changes_refl w := .refl (fun F => (Frame.Gains.refl F).widens) w.store
  changes_trans := .trans .trans
  changes_of_grows h := h.mono Frame.Gains.widens
  scope_top _ _ := trivial
  start := by
    rintro f w v - - rfl
    exact ⟨trivial, .refl (fun F => (Frame.Gains.refl F).widens) w.store⟩
  finish := by
    rintro done w v - rfl
    exact ⟨trivial, .refl (fun F => (Frame.Gains.refl F).widens) w.store⟩
  declare := by
    rintro f x a w v - - - hfree rfl
    exact ⟨trivial, (Store.Evolves.bind hfree a).mono Frame.Gains.widens⟩
  declareFunction := by
    rintro f x ps body k w v - - - hfree - rfl
    exact ⟨trivial, (Store.Evolves.bind hfree (.closure k)).mono Frame.Gains.widens⟩
  assign := by
    rintro f x i a w v - - - - rfl
    exact ⟨trivial, .update w.store i x a⟩
  print := by
    rintro f line w v - - rfl
    exact ⟨trivial, .refl (fun F => (Frame.Gains.refl F).widens) w.store⟩

/-- By an expression, frames gain names. -/
theorem eval_gains (levels : Nat) (n : Node) (f : FrameId) (w : World) :
    w.store.Evolves Frame.Gains ((eval levels n f).after w).store := by
  have hkeeps := growthInvariant.eval_keeps levels n (w := w) (f := f) trivial trivial
  have hends : Run.Ends (eval levels n f w) (fun _ v => w.store.Evolves Frame.Gains v.store)
      fun v => w.store.Evolves Frame.Gains v.store :=
    hkeeps.mono (fun h => h.2.2) fun h => h.2
  exact hends.after

/-- By a statement, frames do not lose names. -/
theorem exec_widens (passes levels : Nat) (n : Node) (f : FrameId) (w : World) :
    w.store.Evolves Frame.Widens ((exec passes levels n f).after w).store :=
  (growthInvariant.exec_keeps passes levels (fun q (_ : q ∈ n.functions) => trivial)
    (w := w) (f := f) trivial trivial).2

/-! ### What a statement keeps if its steps do -/

section Steps

variable {Q : Store → Prop} {f : FrameId} {w : World}

/-- Statements in order keep what each one keeps in its turn. -/
private theorem execAll_keeps {exec : Executor} {ss : List Node} (hw : Q w.store)
    (hss : ∀ {v s}, InTurn exec f w ss v s → Q v.store → Q ((exec s f).after v).store) :
    Q ((execAll exec f ss).after w).store := by
  induction ss generalizing w with
  | nil => exact hw
  | cons s ss ih =>
    refine Run.after_bind (P := fun v => Q v.store) (hss .first hw) fun _ v hs hv => ?_
    exact ih hv fun hturn => hss (.later hs hturn)

/-- A loop keeps what its test and its body keep in every pass. -/
private theorem repeatWhile_keeps {test : Run Bool} {body : Run Unit} {passes : Nat}
    (hw : Q w.store)
    (htest : ∀ {left v}, Repeats test body passes w (left + 1) v → Q v.store →
      Q (test.after v).store)
    (hbody : ∀ {left v u}, Repeats test body passes w (left + 1) v → test v = .ok true u →
      Q u.store → Q (body.after u).store) (done : Nat) :
    Q ((repeatWhile test body passes done).after w).store := by
  induction passes generalizing w done with
  | zero => exact hw
  | succ passes ih =>
    refine Run.after_bind (P := fun v => Q v.store) (htest .start hw) fun b v hb hv => ?_
    cases b with
    | false => exact hv
    | true =>
      refine Run.after_bind (P := fun v => Q v.store) (hbody .start hb hv) fun _ u hu hpassed => ?_
      exact ih hpassed (fun hrest => htest (.again hb hu hrest))
        (fun hrest => hbody (.again hb hu hrest)) (done + 1)

/-- A property of stores that the steps of a statement keep, which is executed in the frame `f`, from
the world `w` on. -/
structure StepsKeep (Q : Store → Prop) (passes : Nat) (parts : StatementParts) (f : FrameId)
    (w : World) (n : Node) : Prop where
  /-- The expressions of the statement do. -/
  expression : ∀ {e v}, StatementExpression passes parts f w n e v → Q v.store →
    Q ((parts.expression e f).after v).store
  /-- The statements inside it do. -/
  part : ∀ {r s v}, StatementPart passes parts f w n r s v → Q v.store →
    Q ((parts.executor r s f).after v).store
  /-- A declaration does, of a name that is free. -/
  declare : ∀ {x s} (a : Value), s.binds f x = false → Q s → Q (s.bind f x a)
  /-- The statement does if it is an assignment to a name of some frame. -/
  assign : ∀ {x p e m a v i},
    n = .tree StatementForm.assignment.label [.token TokenForm.name.type x p, e] m →
    parts.expression e f w = .ok a v → v.store.resolve? f x = some i → Q v.store →
    Q (v.store.update i x a)

variable {passes : Nat} {parts : StatementParts} {m : Mark} {children : List Node}

/-- A statement that starts with a name. -/
private theorem named_keeps {role : String} {named : Node} {g : String → Run Unit} (hw : Q w.store)
    (hg : ∀ x p, named = .token TokenForm.name.type x p → Q ((g x).after w).store) :
    Q ((Run.check (Check.identifier role named) >>= g).after w).store := by
  have hcheck : Q ((Run.check (Check.identifier role named)).after w).store := by
    rw [Run.after_check]
    exact hw
  refine Run.after_bind (P := fun v => Q v.store) hcheck fun x v hx _ => ?_
  obtain ⟨hname, rfl⟩ := Run.check_eq_ok_iff.mp hx
  obtain ⟨p, hnamed⟩ := Check.eq_token_of_identifier hname
  exact hg x p hnamed

private theorem declaration_keeps (hw : Q w.store)
    (h : StepsKeep Q passes parts f w (.tree StatementForm.declaration.label children m)) :
    Q ((execDeclaration parts.expression f children).after w).store := by
  match children, h with
  | [named, e], h =>
    refine named_keeps hw fun x p hnamed => ?_
    subst hnamed
    refine Run.after_bind (P := fun v => Q v.store) (h.expression .declaration hw)
      fun a v _ hv => ?_
    unfold Run.after
    rw [Run.bind_apply, Run.declare_apply]
    by_cases hbinds : v.store.binds f x = true
    · rw [if_pos hbinds]
      exact hv
    · rw [if_neg hbinds]
      exact h.declare a (Bool.eq_false_iff.mpr hbinds) hv
  | [], _ | [_], _ | _ :: _ :: _ :: _, _ => exact hw

private theorem function_keeps (hw : Q w.store)
    (h : StepsKeep Q passes parts f w (.tree StatementForm.function.label children m)) :
    Q ((execFunction f children).after w).store := by
  match children, h with
  | [named, ps, body], h =>
    refine named_keeps hw fun x p hnamed => ?_
    have hcheck : Q ((Run.check (Check.parameters ps)).after w).store := by
      rw [Run.after_check]
      exact hw
    refine Run.after_bind (P := fun v => Q v.store) hcheck fun parameters v _ hv => ?_
    unfold Run.after
    rw [Run.bind_apply, Run.declareFunction_apply]
    by_cases hbinds : v.store.binds f x = true
    · rw [if_pos hbinds]
      exact hv
    · rw [if_neg hbinds]
      exact h.declare _ (Bool.eq_false_iff.mpr hbinds) hv
  | [], _ | [_], _ | [_, _], _ | _ :: _ :: _ :: _ :: _, _ => exact hw

private theorem assignment_keeps (hw : Q w.store)
    (h : StepsKeep Q passes parts f w (.tree StatementForm.assignment.label children m)) :
    Q ((execAssignment parts.expression f children).after w).store := by
  match children, h with
  | [named, e], h =>
    refine named_keeps hw fun x p hnamed => ?_
    subst hnamed
    refine Run.after_bind (P := fun v => Q v.store) (h.expression .assignment hw)
      fun a v ha hv => ?_
    unfold Run.after
    rw [Run.assign_apply]
    cases hresolve : v.store.resolve? f x with
    | none => exact hv
    | some i => exact h.assign rfl ha hresolve hv
  | [], _ | [_], _ | _ :: _ :: _ :: _, _ => exact hw

private theorem print_keeps (hw : Q w.store)
    (h : StepsKeep Q passes parts f w (.tree StatementForm.print.label children m)) :
    Q ((execPrint parts.levels parts.expression f children).after w).store := by
  match children, h with
  | [e], h =>
    refine Run.after_bind (P := fun v => Q v.store) (h.expression .print hw) fun a v _ hv => ?_
    have hcheck : Q ((Run.checkWithin (a.renderWithin (arraysWithin parts.levels))).after
        v).store := by
      rw [Run.after_checkWithin]
      exact hv
    exact Run.after_bind (P := fun v => Q v.store) hcheck fun _ _ _ hu => hu
  | [], _ | _ :: _ :: _, _ => exact hw

private theorem loop_keeps (hw : Q w.store)
    (h : StepsKeep Q passes parts f w (.tree StatementForm.loop.label children m)) :
    Q ((execLoop passes parts.statement parts.expression f children).after w).store := by
  match children, h with
  | [test, body], h =>
    have hloop : Q ((repeatWhile (evalTest parts.expression f test) (parts.statement body f)
        passes 0).after w).store := by
      refine repeatWhile_keeps hw (fun hpassed hv => ?_) (fun hpassed htest hu => ?_) 0
      · refine Run.after_bind (P := fun v => Q v.store) (h.expression (.test hpassed) hv)
          fun a u _ hu => ?_
        rw [Run.after_check]
        exact hu
      · exact h.part (r := .statement) (.body hpassed (evalTest_eq_ok_iff.mp htest)) hu
    exact Run.after_bind (P := fun v => Q v.store) hloop fun _ _ _ hv => hv
  | [], _ | [_], _ | _ :: _ :: _ :: _, _ => exact hw

private theorem program_keeps (hw : Q w.store)
    (h : StepsKeep Q passes parts f w (.tree StatementForm.program.label children m)) :
    Q ((execProgram parts.outermost f children).after w).store := by
  match children, h with
  | [body], h =>
    rw [execProgram, execBlock]
    by_cases hlabel : body.label? = some StatementForm.block.label
    · rw [if_pos hlabel]
      exact execAll_keeps hw fun hturn => h.part (r := .outermost) (.program hlabel hturn)
    · rw [if_neg hlabel]
      exact hw
  | [], _ | _ :: _ :: _, _ => exact hw

/-- A statement keeps what its steps keep, however it ends. -/
theorem execNode_keeps {n : Node} (hw : Q w.store) (h : StepsKeep Q passes parts f w n) :
    Q ((execNode passes parts n f).after w).store := by
  match n, h with
  | .token .., _ | .improper _, _ | .plain _, _ | .list _, _ => exact hw
  | .hollow label m, _ =>
    rw [execNode]
    cases StatementForm.ofLabel? label with
    | none => exact hw
    | some form => cases form <;> exact hw
  | .tree label children m, h =>
    rw [execNode]
    cases hform : StatementForm.ofLabel? label with
    | none => exact hw
    | some form =>
      obtain rfl := StatementForm.label_of_ofLabel? hform
      cases form with
      | program => exact program_keeps hw h
      | block => exact execAll_keeps hw fun hturn => h.part (r := .statement) (.block hturn)
      | declaration => exact declaration_keeps hw h
      | function => exact function_keeps hw h
      | assignment => exact assignment_keeps hw h
      | print => exact print_keeps hw h
      | loop => exact loop_keeps hw h

end Steps

/-! ### Values change by assignments -/

namespace Activity

/-- An assignment is under way whose expression has a value, and whose name `x` is found in the frame
`i`. -/
inductive Assigns : Activity → FrameId → String → Prop
  | assignment {passes levels : Nat} {x : String} {p : Position} {e : Node} {m : Mark} {a : Value}
      {f i : FrameId} {w v : World} (hvalue : eval (levels + 1) e f w = .ok a v)
      (hfound : v.store.resolve? f x = some i) :
      Assigns (.execution passes (levels + 4)
        (.tree StatementForm.assignment.label [.token TokenForm.name.type x p, e] m) f w) i x

/-- What is inside a part of an activity is inside the activity. -/
theorem Reaches.of_part {a b c : Activity} {depth : Nat} (hpart : Part a b)
    (h : b.Reaches depth c) : a.Reaches depth c := by
  induction h with
  | refl => exact .part .refl hpart
  | part _ hc ih => exact .part ih hc
  | enters _ hc ih => exact .enters ih hc

end Activity

/-- The value of a name in a frame is kept by every statement inside which nothing assigns to it. -/
theorem exec_keeps_of_not_assigns (passes levels : Nat) {n : Node} {f i : FrameId} {x : String}
    {a : Value} {w : World} (hx : w.store.own? i x = some a)
    (hnone : ∀ b, (Activity.execution passes levels n f w).Reaches 0 b → ¬ b.Assigns i x) :
    ((exec passes levels n f).after w).store.own? i x = some a := by
  induction levels using Nat.strongRecOn generalizing n w with
  | ind levels ih =>
    match levels with
    | 0 | 1 | 2 | 3 => exact hx
    | levels + 4 =>
      rw [exec_eq_within, Run.after_within]
      refine execNode_keeps (Q := fun s => s.own? i x = some a) hx ?_
      constructor
      · intro e v _ hv
        exact (eval_gains (levels + 1) e f v).own? hv
      · intro r s v hpart hv
        rw [StatementParts.executor_below]
        have hlt : levels + 4 - r.levels < levels + 4 :=
          Activity.levels_lt_of_part (.statement hpart)
        exact ih _ hlt hv fun b hb => hnone b (.of_part (.statement hpart) hb)
      · intro y s b hfree hs
        exact (Store.Evolves.bind hfree b).own? hs
      · rintro y p e m b v j rfl hvalue hfound hv
        have hother : ¬ (j = i ∧ y = x) := by
          rintro ⟨rfl, rfl⟩
          exact hnone _ .refl (.assignment hvalue hfound)
        rw [Store.own?_update, if_neg hother]
        exact hv

/-- **Bindings only grow.** Take any world, whatever its frames ask for, and any frame that is in it.
After any expression, whether it has a value or halts, the frame has the parent, the label and the
options that it had, and every name that it bound has the value that it had. After any statement,
whether it succeeds or halts, the frame has that parent, that label and those options, and it binds
every name that it bound; and if a name that had a value does not have it still, then inside the
statement an assignment was executed that found this name in this frame. -/
theorem bindings_only_grow (passes levels : Nat) (n : Node) (f : FrameId) (w : World) (i : FrameId)
    (F : Frame) (hF : w.store.get? i = some F) :
    (∃ G, ((eval levels n f).after w).store.get? i = some G ∧ F.Gains G) ∧
      ∃ G, ((exec passes levels n f).after w).store.get? i = some G ∧ F.Widens G ∧
        ∀ x a, F.get? x = some a → G.get? x ≠ some a →
          ∃ b, (Activity.execution passes levels n f w).Reaches 0 b ∧ b.Assigns i x := by
  obtain ⟨G, hG, hwidens⟩ := exec_widens passes levels n f w i F hF
  refine ⟨eval_gains levels n f w i F hF, G, hG, hwidens, fun x a hx hlost => ?_⟩
  by_contra hnone
  push Not at hnone
  have hkept := exec_keeps_of_not_assigns passes levels ((Store.own?_of_get? hF x).trans hx) hnone
  rw [Store.own?_of_get? hG] at hkept
  exact hlost hkept

/-- A frame that asks for flat scoping and binds the second parameter of a function; in front of it
stands a frame that asks for nothing. -/
def collidingFrames : World where
  store.frames :=
    #[{ parent := none, label := "global", options := some { scoping := .flat },
        bindings := [("y", .boolean true), ("f", .closure
          { id := 6, parameters := ["x", "y"], body := .name "x", frame := some 0 })] },
      { parent := some 0, label := "inner", options := none, bindings := [] }]

/-- A call that binds one parameter and then fails. -/
def collidingCall : Node := .call (.name "f") [.boolean false, .boolean false]

/-- A block that assigns to the name with which the call collides, and then makes the call. -/
def reassigningBlock : Node :=
  .block [.assignment (.name "y") (.boolean false), .print collidingCall]

/-- The call fails and leaves a name behind, and the value with which it collides stays. The block
fails too, and what is left of that value is the work of an assignment. -/
theorem bindings_only_grow_of_collidingFrames :
    (∃ e, (eval 100 collidingCall 0).outcome collidingFrames = .error (.error e)) ∧
      collidingFrames.store.own? 0 "x" = none ∧
      ((eval 100 collidingCall 0).after collidingFrames).store.own? 0 "x" =
        some (.boolean false) ∧
      ((eval 100 collidingCall 0).after collidingFrames).store.own? 0 "y" = some (.boolean true) ∧
      (∃ e, (exec 1 100 reassigningBlock 0).outcome collidingFrames = .error (.error e)) ∧
      ∃ b, (Activity.execution 1 100 reassigningBlock 0 collidingFrames).Reaches 0 b ∧
        b.Assigns 0 "y" := by
  obtain ⟨⟨G, hG, hgains⟩, -⟩ :=
    bindings_only_grow 1 100 collidingCall 0 collidingFrames 0 _ rfl
  obtain ⟨-, H, hH, -, hassigned⟩ :=
    bindings_only_grow 1 100 reassigningBlock 0 collidingFrames 0 _ rfl
  have hlost : H.get? "y" = some (.boolean false) := by
    rw [← Store.own?_of_get? hH]
    rfl
  refine ⟨⟨_, rfl⟩, rfl, rfl, ?_, ⟨_, rfl⟩, hassigned "y" (.boolean true) rfl ?_⟩
  · rw [Store.own?_of_get? hG]
    exact hgains.values "y" (.boolean true) rfl
  · rw [hlost]
    nofun

end Bella
