import Bella.Proofs.Logged
import Bella.Proofs.Purity
import Bella.Proofs.Simulation.Invariant

/-!
# Simple statements do one thing or nothing

A declaration, an assignment and a print statement evaluate an expression first, or none, and then
do one thing to the world. Under lexical scoping the expression has no effect, and what comes after
it either fails before it changes anything or does the whole of it. So a simple statement that fails
leaves every frame and the printed lines as they were, wherever it fails: in the expression, at a
name that is bound or is not bound, or halfway through the text of a nested array.

A declaration leaves a record when it is done. A handler may then have too few levels left to write
this record out, and the declaration fails for that reason after it has been done.

What has been done is put in terms of what can be read from the frames and from the printed lines
afterwards, not of the operations that have done it.

## Main definitions

* `Bella.StatementForm.isSimple`: the forms of simple statements.
* `Bella.World.Sets`, `Bella.World.Shows`: two worlds that differ in the value of one name, or in
  one printed line.
* `Bella.Node.Effect`: the one thing that a simple statement does.

## Main results

* `Bella.exec_simple_all_or_nothing`: a simple statement does that one thing or nothing.
-/

namespace Bella

/-- Whether the statements of this form have no statements inside them. -/
def StatementForm.isSimple : StatementForm → Bool
  | .declaration | .function | .assignment | .print => true
  | .program | .block | .loop => false

/-- The world `v` is the world `w`, but for the value of one name in one frame: there the frame at
`i` gives `a` for `x`. More frames may have been made since. -/
structure World.Sets (w : World) (i : FrameId) (x : String) (a : Value) (v : World) : Prop where
  shape : ∃ F G, w.store.get? i = some F ∧ v.store.get? i = some G ∧
    G.parent = F.parent ∧ G.label = F.label ∧ G.options = F.options
  value : v.store.own? i x = some a
  names : ∀ y, y ≠ x → v.store.own? i y = w.store.own? i y
  others : ∀ j F, j ≠ i → w.store.get? j = some F → v.store.get? j = some F
  printed : v.printed = w.printed
  issued : v.issued = w.issued

/-- The world `v` is the world `w`, but for one more line, which a sink has received. More frames
may have been made since. -/
structure World.Shows (w : World) (sink : Sink) (line : String) (v : World) : Prop where
  frames : ∀ j F, w.store.get? j = some F → v.store.get? j = some F
  printed : v.printed = w.printed.push (sink, line)
  issued : v.issued = w.issued

/-- What a simple statement makes of the world `w` if it is done in the frame `f`, given the levels
of its expression: the last world `v` differs in a single thing. -/
inductive Node.Effect (levels : Nat) (f : FrameId) (w : World) : Node → World → Prop
  | declaration {x : String} {p : Position} {e : Node} {m : Mark} {a : Value} {u v : World}
      (heval : eval levels e f w = .ok a u) (hfree : w.store.binds f x = false)
      (hv : w.Sets f x a v) :
      Effect levels f w
        (.tree StatementForm.declaration.label [.token TokenForm.name.type x p, e] m) v
  | function {x : String} {p : Position} {ps body : Node} {m : Mark} {parameters : List String}
      {k : Closure} {v : World} (hps : Check.parameters ps = .ok parameters)
      (hk : k = { id := w.issued, parameters, body, frame := some f })
      (hfree : w.store.binds f x = false)
      (hv : World.Sets { w with issued := w.issued + 1 } f x (.closure k) v) :
      Effect levels f w
        (.tree StatementForm.function.label [.token TokenForm.name.type x p, ps, body] m) v
  | assignment {x : String} {p : Position} {e : Node} {m : Mark} {a : Value} {u v : World}
      {i : FrameId} {before after : List FrameId} (heval : eval levels e f w = .ok a u)
      (hchain : w.store.chain f = before ++ i :: after)
      (hnearest : ∀ j ∈ before, w.store.binds j x = false) (hbinds : w.store.binds i x = true)
      (hv : w.Sets i x a v) :
      Effect levels f w
        (.tree StatementForm.assignment.label [.token TokenForm.name.type x p, e] m) v
  | print {e : Node} {m : Mark} {a : Value} {u v : World} {line : String}
      (heval : eval levels e f w = .ok a u) (hline : a.render = .ok line)
      (hv : w.Shows (w.store.options f).sink line v) :
      Effect levels f w (.tree StatementForm.print.label [e] m) v

namespace World

variable {w v : World} {i : FrameId} {x : String} {a : Value}

/-- One frame is changed, after frames have been made. -/
private theorem Extends.sets (h : w.Extends v) {F : Frame} (hF : w.store.get? i = some F)
    {s : Store} {g : Frame → Frame}
    (hs : ∀ j, s.get? j = if i = j then (v.store.get? j).map g else v.store.get? j)
    (hshape : (g F).parent = F.parent ∧ (g F).label = F.label ∧ (g F).options = F.options)
    (hvalue : (g F).get? x = some a) (hnames : ∀ y, y ≠ x → (g F).get? y = F.get? y) :
    w.Sets i x a { v with store := s } := by
  have hG : s.get? i = some (g F) := by rw [hs, if_pos rfl, h.frames hF, Option.map_some]
  refine ⟨⟨F, g F, hF, hG, hshape⟩, ?_, fun y hy => ?_, fun j H hj hH => ?_, h.printed, h.issued⟩
  · rw [Store.own?_of_get? hG, hvalue]
  · rw [Store.own?_of_get? hG, Store.own?_of_get? hF, hnames y hy]
  · rw [hs, if_neg hj.symm, h.frames hH]

/-- A name is bound, after frames have been made. -/
theorem Extends.bind (h : w.Extends v) {F : Frame} (hF : w.store.get? i = some F) (x : String)
    (a : Value) : w.Sets i x a { v with store := v.store.bind i x a } := by
  refine h.sets hF (v.store.get?_bind i x a) ⟨rfl, rfl, rfl⟩ ?_ fun y hy => ?_
  · rw [Frame.get?_bind, if_pos rfl]
  · rw [Frame.get?_bind, if_neg hy.symm]

/-- A name that is bound gets another value, after frames have been made. -/
theorem Extends.update (h : w.Extends v) (hbinds : w.store.binds i x = true) (a : Value) :
    w.Sets i x a { v with store := v.store.update i x a } := by
  rw [Store.binds_eq_isSome_own?] at hbinds
  obtain ⟨b, hb⟩ := Option.isSome_iff_exists.mp hbinds
  obtain ⟨F, hF, hx⟩ := Option.bind_eq_some_iff.mp hb
  refine h.sets hF (v.store.get?_update i x a) ⟨rfl, rfl, rfl⟩ ?_ fun y hy => ?_
  · rw [Frame.get?_update, if_pos rfl, hx, Option.map_some]
  · rw [Frame.get?_update, if_neg hy.symm]

/-- Records do not matter. -/
theorem Sets.records (h : w.Sets i x a v) (rs : Array Record) :
    w.Sets i x a { v with records := rs } :=
  ⟨h.shape, h.value, h.names, h.others, h.printed, h.issued⟩

end World

theorem Node.Effect.records {levels : Nat} {f : FrameId} {w v : World} {n : Node}
    (h : n.Effect levels f w v) (rs : Array Record) :
    n.Effect levels f w { v with records := rs } := by
  cases h with
  | declaration heval hfree hv => exact .declaration heval hfree (hv.records rs)
  | function hps hk hfree hv => exact .function hps hk hfree (hv.records rs)
  | assignment heval hchain hnearest hbinds hv =>
    exact .assignment heval hchain hnearest hbinds (hv.records rs)
  | print heval hline hv => exact .print heval hline ⟨hv.frames, hv.printed, hv.issued⟩

section Forms

variable {w : World} {f : FrameId} {F : Frame}

/-- A statement that starts with a name is refused if there is none, before it does anything. -/
private theorem named_ends {role : String} {named : Node} {g : String → Run Unit}
    {done : Unit → World → Prop} (hg : ∀ x p, named = .token TokenForm.name.type x p →
      Run.Ends (g x w) done w.Extends) :
    Run.Ends ((Run.check (Check.identifier role named) >>= g) w) done w.Extends := by
  refine (Run.ends_check (.refl w)).bind fun x v ⟨hx, hsame⟩ => ?_
  obtain ⟨p, hnamed⟩ := Check.eq_token_of_identifier hx
  exact hsame ▸ hg x p hnamed

private theorem function_ends (hF : w.store.get? f = some F) (levels : Nat) (children : List Node)
    (m : Mark) :
    Run.Ends (execFunction f children w)
      (fun _ v => Node.Effect levels f w (.tree StatementForm.function.label children m) v)
      w.Extends := by
  match children with
  | [named, ps, body] =>
    refine named_ends fun x p hnamed => ?_
    subst hnamed
    refine (Run.ends_check (.refl w)).bind fun parameters _ ⟨hps, hsame⟩ => ?_
    subst hsame
    rw [Run.bind_apply, Run.declareFunction_apply]
    by_cases hbinds : w.store.binds f x = true
    · rw [if_pos hbinds]
      exact .refl w
    · rw [if_neg hbinds]
      let k : Closure := { id := w.issued, parameters, body, frame := some f }
      have hset := (World.Extends.refl { w with issued := w.issued + 1 }).bind hF x (.closure k)
      exact .function hps rfl (Bool.eq_false_iff.mpr hbinds) (hset.records _)
  | [] | [_] | [_, _] | _ :: _ :: _ :: _ :: _ => exact .refl w

/-- An expression under a handler extends the world, whether it has a value or not. -/
private theorem evalLogged_ends (hlexical : w.IsLexical) (need levels : Nat) (e : Node)
    (f : FrameId) :
    Run.Ends (evalLogged need levels e f w) (fun a v => eval levels e f w = .ok a v ∧ w.Extends v)
      w.Extends :=
  (Run.ends_of_after (hlexical.evalLogged need levels e f).1).mono
    (fun h => ⟨(evalLogged_below need levels e f).eq_ok h.1, h.2⟩) id

variable (hlexical : w.IsLexical)
include hlexical

private theorem assignment_ends {ids : List FrameId} (hchain : w.store.Chain f ids)
    (need levels : Nat) (children : List Node) (m : Mark) :
    Run.Ends (execAssignment (evalLogged need levels) f children w)
      (fun _ v => Node.Effect levels f w (.tree StatementForm.assignment.label children m) v)
      w.Extends := by
  match children with
  | [named, e] =>
    refine named_ends fun x p hnamed => ?_
    subst hnamed
    refine (evalLogged_ends hlexical need levels e f).bind fun a v ⟨heval, hextends⟩ => ?_
    rw [Run.assign_apply, hextends.resolve?_eq hchain]
    cases hresolve : w.store.resolve? f x with
    | none => exact hextends
    | some i =>
      obtain ⟨hbinds, before, after, hids, hnearest⟩ := List.find?_eq_some_iff_append.mp hresolve
      refine .assignment heval hids (fun j hj => ?_) hbinds (hextends.update hbinds a)
      simpa using hnearest j hj
  | [] | [_] | _ :: _ :: _ :: _ => exact .refl w

variable (hF : w.store.get? f = some F)
include hF

private theorem declaration_ends (need levels : Nat) (children : List Node) (m : Mark) :
    Run.Ends (execDeclaration (evalLogged need levels) f children w)
      (fun _ v => Node.Effect levels f w (.tree StatementForm.declaration.label children m) v)
      w.Extends := by
  match children with
  | [named, e] =>
    refine named_ends fun x p hnamed => ?_
    subst hnamed
    refine (evalLogged_ends hlexical need levels e f).bind fun a v ⟨heval, hextends⟩ => ?_
    rw [Run.bind_apply, Run.declare_apply, hextends.binds_eq hF]
    by_cases hbinds : w.store.binds f x = true
    · rw [if_pos hbinds]
      exact hextends
    · rw [if_neg hbinds]
      exact .declaration heval (Bool.eq_false_iff.mpr hbinds) ((hextends.bind hF x a).records _)
  | [] | [_] | _ :: _ :: _ :: _ => exact .refl w

private theorem print_ends (need levels : Nat) (children : List Node) (m : Mark) :
    Run.Ends (execPrint levels (evalLogged need levels) f children w)
      (fun _ v => Node.Effect levels f w (.tree StatementForm.print.label children m) v)
      w.Extends := by
  match children with
  | [e] =>
    refine (evalLogged_ends hlexical need levels e f).bind fun a v ⟨heval, hextends⟩ => ?_
    refine (Run.ends_checkWithin hextends).bind fun line _ ⟨hline, hsame⟩ => ?_
    subst hsame
    have hprinted : w.Shows (w.store.options f).sink line
        { v with printed := v.printed.push ((v.store.options f).sink, line) } := by
      refine ⟨fun _ _ => hextends.frames, ?_, hextends.issued⟩
      rw [hextends.printed, hextends.options_eq hF]
    exact .print heval (Value.render_of_renderWithin hline) hprinted
  | [] | _ :: _ :: _ => exact .refl w

private theorem form_ends (hordered : w.store.IsOrdered) {parts : StatementParts} {need : Nat}
    (hexpression : parts.expression = evalLogged need parts.levels) (passes : Nat)
    {form : StatementForm} (hsimple : form.isSimple = true) (children : List Node) (m : Mark) :
    Run.Ends (execForm passes parts f form children w)
      (fun _ v => Node.Effect parts.levels f w (.tree form.label children m) v) w.Extends := by
  unfold execForm
  rw [hexpression]
  cases form with
  | declaration => exact declaration_ends hlexical hF need parts.levels children m
  | function => exact function_ends hF parts.levels children m
  | assignment =>
    have hchain := hordered.chain (Store.lt_next_of_get? hF)
    exact assignment_ends hlexical hchain need parts.levels children m
  | print => exact print_ends hlexical hF need parts.levels children m
  | program | block | loop => cases hsimple

private theorem node_ends (hordered : w.store.IsOrdered) {parts : StatementParts} {need : Nat}
    (hexpression : parts.expression = evalLogged need parts.levels) (passes : Nat)
    {form : StatementForm} (hsimple : form.isSimple = true) {n : Node}
    (hlabel : n.label? = some form.label) :
    Run.Ends (execNode passes parts n f w) (fun _ v => n.Effect parts.levels f w v) w.Extends := by
  match n, hlabel with
  | .tree label children m, hlabel =>
    obtain rfl : label = form.label := Option.some.inj hlabel
    rw [execNode, StatementForm.ofLabel?_label]
    exact form_ends hlexical hF hordered hexpression passes hsimple children m
  | .hollow label m, hlabel =>
    obtain rfl : label = form.label := Option.some.inj hlabel
    rw [execNode, StatementForm.ofLabel?_label]
    cases form with
    | declaration | function | assignment | print => exact .refl w
    | program | block | loop => cases hsimple

end Forms

/-- An action that leaves a record is done as it is without a handler, unless there are too few levels
to write the record out; then it is done and halts. -/
private theorem logged_ends {x : Run Unit} {n : Node} {noted : Bool} {need levels : Nat} {w : World}
    {Q R : World → Prop} (hx : Run.Ends (x w) (fun _ v => Q v) R)
    (hQ : ∀ v, Q v → Q { v with records := v.records.pop }) :
    let y := Run.within n (do x; if noted then Run.writeOut need levels)
    (y.outcome w = .ok () → Q (y.after w)) ∧
      ∀ h, y.outcome w = .error h →
        R (y.after w) ∨ h = .overflow ∧ levels < need ∧ noted = true ∧ Q (y.after w) := by
  intro y
  simp only [y, Run.outcome, Run.after, Run.within_apply, Run.bind_apply]
  cases hdone : x w with
  | error k v =>
    rw [hdone] at hx
    exact ⟨fun hok => (by cases hok), fun h _ => .inl hx⟩
  | ok _ v =>
    rw [hdone] at hx
    by_cases hcut : noted = true ∧ levels < need
    · have hwrite : (if noted then Run.writeOut need levels else pure ()) v =
          .error .overflow { v with records := v.records.pop } := by
        rw [if_pos hcut.1, Run.writeOut, if_pos hcut.2]
        rfl
      simp only [hwrite]
      refine ⟨fun hok => (by cases hok), fun h hh => ?_⟩
      cases hh
      exact .inr ⟨rfl, hcut.2, hcut.1, hQ v hx⟩
    · have hwrite : (if noted then Run.writeOut need levels else pure ()) v = .ok () v := by
        split
        · rw [Run.writeOut_of_le (Nat.le_of_not_lt fun hlt => hcut ⟨‹_›, hlt⟩)]
          rfl
        · rfl
      simp only [hwrite]
      exact ⟨fun _ => hx, fun h hh => (by cases hh)⟩

/-- **Simple statements do one thing or nothing.** In a world without flat scoping, in which parents
are older than their children, let a node that has the label of a declaration, of an assignment or
of a print statement be executed in a frame that is there, whatever its children are, under a
handler of records or under none.

If it succeeds, the one thing that is different is a new name in the frame, which it did not bind
before; or a new name for a closure that was declared in the frame; or the value of a name in the
first frame on the chain that binds it; or one more line for the sink of the frame, the text of the
value of the expression. If it fails, every frame and the printed lines are as they were, with one
exception: a declaration for whose record the handler has too few levels left is done, and then
fails. -/
theorem exec_simple_all_or_nothing (need passes levels : Nat) (n : Node) (f : FrameId) (w : World)
    (form : StatementForm) (hsimple : form.isSimple = true) (hlabel : n.label? = some form.label)
    (hlexical : w.IsLexical) (hordered : w.store.IsOrdered) (hf : f < w.store.next) :
    ((execLogged need passes levels n f).outcome w = .ok () →
      n.Effect (levels - 3) f w ((execLogged need passes levels n f).after w)) ∧
    ∀ h, (execLogged need passes levels n f).outcome w = .error h →
      w.Extends ((execLogged need passes levels n f).after w) ∨
        h = .overflow ∧ levels - 3 < need ∧ form.isNoted = true ∧
          n.Effect (levels - 3) f w ((execLogged need passes levels n f).after w) := by
  have hF : w.store.get? f = some (w.store.frames[f]) := Array.getElem?_eq_getElem hf
  have hnoted : n.isNoted = form.isNoted := by
    rw [Node.isNoted, hlabel, Option.bind_some, StatementForm.ofLabel?_label]
    rfl
  match levels with
  | levels + 4 =>
    let parts : StatementParts :=
      { levels := levels + 1, statement := execLogged need passes (levels + 1),
        outermost := execLogged need passes levels, expression := evalLogged need (levels + 1) }
    have hnode : Run.Ends (execNode passes parts n f w) (fun _ v => n.Effect (levels + 1) f w v)
        w.Extends := node_ends hlexical hF hordered rfl passes hsimple hlabel
    rw [← hnoted]
    exact logged_ends hnode fun v hv => hv.records _
  | 0 | 1 | 2 | 3 => exact ⟨fun hok => (by cases hok), fun h _ => .inl (.refl w)⟩

/-- A frame without options in front of one that binds a boolean. -/
def nestedFrames : World where
  store.frames :=
    #[{ parent := none, label := "global", options := some {},
        bindings := [("x", .boolean true)] },
      { parent := some 0, label := "inner", options := none,
        bindings := [("y", .array [.boolean false, .closure
          { id := 6, parameters := [], body := .name "x", frame := some 1 }])] }]

private theorem nestedFrames_get? {i : FrameId} {F : Frame}
    (h : nestedFrames.store.get? i = some F) :
    (∀ p, F.parent = some p → p < i) ∧ ∀ o, F.options = some o → o.scoping = .lexical := by
  obtain ⟨hlt, rfl⟩ := Array.getElem?_eq_some_iff.mp h
  match i, hlt with
  | 0, _ => exact ⟨nofun, fun o ho => by cases ho; rfl⟩
  | 1, _ => exact ⟨fun p hp => by cases hp; decide, nofun⟩

/-- From the frame in front, an assignment changes the value in the frame behind, and printing an
array with a function in it changes nothing. -/
theorem exec_simple_all_or_nothing_of_nestedFrames :
    (execLogged recordLevels 1 100 (.assignment (.name "x") (.boolean false)) 1).outcome
        nestedFrames = .ok () ∧
      Node.Effect 97 1 nestedFrames (.assignment (.name "x") (.boolean false))
        ((execLogged recordLevels 1 100 (.assignment (.name "x") (.boolean false)) 1).after
          nestedFrames) ∧
      (execLogged recordLevels 1 100 (.print (.name "y")) 1).outcome nestedFrames =
        .error (.error { cause := .functionPrinted }) ∧
      nestedFrames.Extends
        ((execLogged recordLevels 1 100 (.print (.name "y")) 1).after nestedFrames) := by
  have hlexical : nestedFrames.IsLexical := fun i F o hF ho => (nestedFrames_get? hF).2 o ho
  have hordered : nestedFrames.store.IsOrdered := fun hF hp => (nestedFrames_get? hF).1 _ hp
  have hassignment := exec_simple_all_or_nothing recordLevels 1 100
    (.assignment (.name "x") (.boolean false)) 1 nestedFrames .assignment rfl rfl hlexical hordered
    (by decide)
  have hprint := exec_simple_all_or_nothing recordLevels 1 100 (.print (.name "y")) 1 nestedFrames
    .print rfl rfl hlexical hordered (by decide)
  refine ⟨rfl, hassignment.1 rfl, rfl, ?_⟩
  exact (hprint.2 _ rfl).resolve_right fun hcut => by cases hcut.1

/-- A function is declared, although the handler has too few levels left for its record and the
declaration fails. -/
theorem execLogged_function_cut_off :
    negationWorld.IsLexical ∧ negationWorld.store.IsOrdered ∧
      (execLogged recordLevels 1 13 (.function (.name "g") [] (.name "f")) 0).outcome
        negationWorld = .error .overflow ∧
      negationWorld.store.binds 0 "g" = false ∧
      ((execLogged recordLevels 1 13 (.function (.name "g") [] (.name "f")) 0).after
        negationWorld).store.binds 0 "g" = true :=
  ⟨negationWorld_isLexical, Store.IsOrdered.of_frames (by decide), rfl, rfl, rfl⟩

end Bella
