import Bella.Proofs.Growth
import Bella.Proofs.Linkage

/-!
# Loops that finish

A loop that finishes has made some passes, and its last test gave false. Where no frame asks for flat
scoping that test had no effect, so it would give false again. The record that the loop leaves behind
counts the passes.

A name that is declared in a frame stays bound there, whatever is executed and whatever is called. So
a block that declares something can be executed once in a frame and not again, and a loop around such
a block that finishes has made one pass at most.

## Main definitions

* `Bella.Passed`: the passes that a loop has made, each with the world that its body started from.
* `Bella.Node.DeclaresInside`: blocks that declare something, directly or in blocks inside them.

## Main results

* `Bella.repeatWhile_eq_ok_iff`: a loop finishes after passes and a test that gives false.
* `Bella.Node.DeclaresInside.exists_name`: a block binds a name that was free.
* `Bella.finished_loop`: what a finished loop guarantees.
-/

namespace Bella

/-! ### Passes -/

/-- The test has given true and the body has been executed some times, one after the other, on the
way from the first world to the last one. The list has the worlds that the body started from. -/
inductive Passed (test : Run Bool) (body : Run Unit) : World → List World → World → Prop
  | start {w : World} : Passed test body w [] w
  | again {w v u z : World} {starts : List World} (htest : test w = .ok true v)
      (hbody : body v = .ok () u) (hrest : Passed test body u starts z) :
      Passed test body w (v :: starts) z

section Passes

variable {test : Run Bool} {body : Run Unit} {w v u : World} {starts : List World}

/-- A loop finishes after passes and a test that gives false, if it has tests enough. -/
theorem repeatWhile_eq_ok_iff {passes done total : Nat} :
    repeatWhile test body passes done w = .ok total v ↔
      ∃ starts u, Passed test body w starts u ∧ test u = .ok false v ∧
        starts.length < passes ∧ total = done + starts.length := by
  induction passes generalizing done w with
  | zero =>
    constructor
    · nofun
    · rintro ⟨starts, u, -, -, hlt, -⟩
      exact absurd hlt (Nat.not_lt_zero _)
  | succ passes ih =>
    constructor
    · intro h
      obtain ⟨b, y, htest, hrest⟩ := Run.bind_eq_ok_iff.mp h
      cases b with
      | false =>
        cases hrest
        exact ⟨[], w, .start, htest, Nat.succ_pos _, rfl⟩
      | true =>
        obtain ⟨_, z, hbody, hrest⟩ := Run.bind_eq_ok_iff.mp hrest
        obtain ⟨starts, u, hpassed, hlast, hlt, htotal⟩ := ih.mp hrest
        refine ⟨y :: starts, u, .again htest hbody hpassed, hlast, Nat.succ_lt_succ hlt, ?_⟩
        rw [htotal, List.length_cons]
        omega
    · rintro ⟨starts, u, hpassed, hlast, hlt, rfl⟩
      rw [repeatWhile]
      cases hpassed with
      | start =>
        rw [Run.bind_eq_of_ok hlast]
        rfl
      | again htest hbody hrest =>
        rw [Run.bind_eq_of_ok htest]
        refine (Run.bind_eq_of_ok hbody).trans (ih.mpr ⟨_, u, hrest, hlast, ?_, ?_⟩)
        · exact Nat.lt_of_succ_lt_succ hlt
        · rw [List.length_cons]
          omega

/-- What a pass keeps, all passes keep. -/
theorem Passed.keeps {P : World → Prop} (hpassed : Passed test body w starts u) (hw : P w)
    (hpass : ∀ {y z x}, P y → test y = .ok true z → body z = .ok () x → P x) : P u := by
  induction hpassed with
  | start => exact hw
  | again htest hbody _ ih => exact ih (hpass hw htest hbody)

end Passes

/-! ### Blocks that declare something -/

/-- The node is labelled as a declaration of a variable or of a function. -/
def Node.IsDeclaration (n : Node) : Prop :=
  n.label? = some StatementForm.declaration.label ∨ n.label? = some StatementForm.function.label

/-- The node is a block among whose statements a declaration stands, or a block that has one inside
it. -/
inductive Node.DeclaresInside : Node → Prop
  | directly {ss : List Node} {m : Mark} {s : Node} (hs : s ∈ ss) (hdeclares : s.IsDeclaration) :
      DeclaresInside (.tree StatementForm.block.label ss m)
  | within {ss : List Node} {m : Mark} {s : Node} (hs : s ∈ ss) (hinside : DeclaresInside s) :
      DeclaresInside (.tree StatementForm.block.label ss m)

namespace Store.Evolves

variable {s t : Store} {f : FrameId}

theorem binds (h : s.Evolves Frame.Widens t) {x : String} (hx : s.binds f x = true) :
    t.binds f x = true := by
  rw [binds_eq_isSome_own?] at hx
  obtain ⟨a, ha⟩ := Option.isSome_iff_exists.mp hx
  obtain ⟨F, hF, hget⟩ := Option.bind_eq_some_iff.mp ha
  obtain ⟨G, hG, hwidens⟩ := h f F hF
  have hG' := hwidens.names x (by rw [Frame.binds_eq_isSome_get?, hget]; rfl)
  simpa [Store.binds, hG] using hG'

theorem lt_next {R : Frame → Frame → Prop} (h : s.Evolves R t) (hf : f < s.next) : f < t.next := by
  obtain ⟨G, hG, -⟩ := h f s.frames[f] (Array.getElem?_eq_getElem hf)
  exact lt_next_of_get? hG

end Store.Evolves

section Declarations

variable {passes levels : Nat} {f : FrameId} {w v : World} {n : Node}

private theorem widens_of_eval {a : Value} (heval : eval levels n f w = .ok a v) :
    w.store.Evolves Frame.Widens v.store := by
  have hgains := eval_gains levels n f w
  rw [Run.after, heval] at hgains
  exact hgains.mono Frame.Gains.widens

private theorem widens_of_exec (hexec : exec passes levels n f w = .ok () v) :
    w.store.Evolves Frame.Widens v.store := by
  have hwidens := exec_widens passes levels n f w
  rw [Run.after, hexec] at hwidens
  exact hwidens

/-- After a name is bound in a frame that is there, it is bound. -/
theorem Store.binds_bind_self {s : Store} (hf : f < s.next) (x : String) (a : Value) :
    (s.bind f x a).binds f x = true := by
  have hF : s.get? f = some s.frames[f] := Array.getElem?_eq_getElem hf
  rw [Store.binds_eq_isSome_own?, Store.own?_bind hF, if_pos ⟨rfl, rfl⟩]
  rfl

private theorem declaration_binds {children : List Node} (hf : f < w.store.next)
    (hexec : execDeclaration (eval levels) f children w = .ok () v) :
    ∃ x p rest, children = .token TokenForm.name.type x p :: rest ∧
      w.store.binds f x = false ∧ v.store.binds f x = true := by
  match children, hexec with
  | [named, e], hexec =>
    obtain ⟨x, w, hname, h⟩ := Run.bind_eq_ok_iff.mp hexec
    obtain ⟨hx, rfl⟩ := Run.check_eq_ok_iff.mp hname
    obtain ⟨p, rfl⟩ := Check.eq_token_of_identifier hx
    obtain ⟨a, u, ha, hrest⟩ := Run.bind_eq_ok_iff.mp h
    have hwidens := widens_of_eval ha
    obtain ⟨_, z, hdeclare, hnote⟩ := Run.bind_eq_ok_iff.mp hrest
    cases hnote
    rw [Run.declare_apply] at hdeclare
    split at hdeclare
    · cases hdeclare
    · rename_i hfree
      cases hdeclare
      refine ⟨x, p, [e], rfl, Bool.eq_false_iff.mpr fun hx => hfree ?_, ?_⟩
      · exact hwidens.binds hx
      · exact Store.binds_bind_self (hwidens.lt_next hf) x a
  | [], hexec | [_], hexec | _ :: _ :: _ :: _, hexec => cases hexec

private theorem function_binds {children : List Node} (hf : f < w.store.next)
    (hexec : execFunction f children w = .ok () v) :
    ∃ x p rest, children = .token TokenForm.name.type x p :: rest ∧
      w.store.binds f x = false ∧ v.store.binds f x = true := by
  match children, hexec with
  | [named, ps, body], hexec =>
    obtain ⟨x, w, hname, h⟩ := Run.bind_eq_ok_iff.mp hexec
    obtain ⟨hx, rfl⟩ := Run.check_eq_ok_iff.mp hname
    obtain ⟨p, rfl⟩ := Check.eq_token_of_identifier hx
    obtain ⟨parameters, w, hparameters, hrest⟩ := Run.bind_eq_ok_iff.mp h
    obtain ⟨-, rfl⟩ := Run.check_eq_ok_iff.mp hparameters
    obtain ⟨_, z, hdeclare, hnote⟩ := Run.bind_eq_ok_iff.mp hrest
    cases hnote
    rw [Run.declareFunction_apply] at hdeclare
    split at hdeclare
    · cases hdeclare
    · rename_i hfree
      cases hdeclare
      exact ⟨x, p, [ps, body], rfl, Bool.eq_false_iff.mpr hfree, Store.binds_bind_self hf x _⟩
  | [], hexec | [_], hexec | [_, _], hexec | _ :: _ :: _ :: _ :: _, hexec => cases hexec

/-- A declaration binds a name that was free, and its first child says which. -/
theorem Node.IsDeclaration.binds {s : Node} (hs : s.IsDeclaration) (hf : f < w.store.next)
    (hexec : exec passes levels s f w = .ok () v) :
    ∃ x p rest, s.children = .token TokenForm.name.type x p :: rest ∧
      w.store.binds f x = false ∧ v.store.binds f x = true := by
  match levels, hexec with
  | 0, hexec | 1, hexec | 2, hexec | 3, hexec => cases hexec
  | levels + 4, hexec =>
    rw [exec_eq_within] at hexec
    replace hexec := Run.within_eq_ok_iff.mp hexec
    match s, hs, hexec with
    | .tree _ children m, .inl rfl, hexec =>
      simp only [execNode, StatementForm.ofLabel?_label, execForm] at hexec
      exact declaration_binds hf hexec
    | .tree _ children m, .inr rfl, hexec =>
      simp only [execNode, StatementForm.ofLabel?_label, execForm] at hexec
      exact function_binds hf hexec
    | .hollow _ m, .inl rfl, hexec | .hollow _ m, .inr rfl, hexec => cases hexec

end Declarations

/-- Whenever the node is executed with success, the name is free before it and bound after it. -/
def Node.Introduces (n : Node) (x : String) : Prop :=
  ∀ {passes levels : Nat} {f : FrameId} {w v : World}, f < w.store.next →
    exec passes levels n f w = .ok () v → w.store.binds f x = false ∧ v.store.binds f x = true

/-- A declaration introduces a name, unless it never succeeds. -/
theorem Node.IsDeclaration.exists_introduces {s : Node} (hs : s.IsDeclaration) :
    ∃ x, s.Introduces x := by
  by_cases hname : ∃ x p rest, s.children = .token TokenForm.name.type x p :: rest
  · obtain ⟨x, p, rest, hchildren⟩ := hname
    refine ⟨x, fun hf hexec => ?_⟩
    obtain ⟨y, q, others, hchildren', hbinds⟩ := hs.binds hf hexec
    rw [hchildren] at hchildren'
    cases hchildren'
    exact hbinds
  · refine ⟨"", fun hf hexec => ?_⟩
    obtain ⟨y, q, others, hchildren, -⟩ := hs.binds hf hexec
    exact absurd ⟨y, q, others, hchildren⟩ hname

section Blocks

variable {passes levels : Nat} {f : FrameId} {w v : World} {ss : List Node} {s : Node} {x : String}

private theorem execAll_widens (hall : execAll (exec passes levels) f ss w = .ok () v) :
    w.store.Evolves Frame.Widens v.store := by
  induction ss generalizing w with
  | nil =>
    cases hall
    exact .refl (fun F => (Frame.Gains.refl F).widens) _
  | cons n ns ih =>
    obtain ⟨_, u, hn, hns⟩ := Run.bind_eq_ok_iff.mp hall
    exact .trans .trans (widens_of_exec hn) (ih hns)

/-- Statements in order introduce what one of them introduces. -/
private theorem Node.Introduces.execAll (hx : s.Introduces x) (hs : s ∈ ss)
    (hf : f < w.store.next) (hall : Bella.execAll (exec passes levels) f ss w = .ok () v) :
    w.store.binds f x = false ∧ v.store.binds f x = true := by
  induction ss generalizing w with
  | nil => cases hs
  | cons n ns ih =>
    obtain ⟨_, u, hn, hns⟩ := Run.bind_eq_ok_iff.mp hall
    obtain rfl | hs := List.mem_cons.mp hs
    · obtain ⟨hfree, hbound⟩ := hx hf hn
      exact ⟨hfree, (execAll_widens hns).binds hbound⟩
    · have hwidens := widens_of_exec hn
      obtain ⟨hfree, hbound⟩ := ih hs (hwidens.lt_next hf) hns
      refine ⟨Bool.eq_false_iff.mpr fun hearlier => ?_, hbound⟩
      rw [hwidens.binds hearlier] at hfree
      cases hfree

/-- A block introduces what one of its statements introduces. -/
theorem Node.Introduces.block (hx : s.Introduces x) (hs : s ∈ ss) (m : Mark) :
    (Node.tree StatementForm.block.label ss m).Introduces x := by
  intro passes levels f w v hf hexec
  match levels, hexec with
  | 0, hexec | 1, hexec | 2, hexec | 3, hexec => cases hexec
  | levels + 4, hexec => exact hx.execAll hs hf (Run.within_eq_ok_iff.mp hexec)

/-- A block inside which something is declared introduces a name. -/
theorem Node.DeclaresInside.exists_introduces {n : Node} (h : n.DeclaresInside) :
    ∃ x, n.Introduces x := by
  induction h with
  | directly hs hdeclares =>
    obtain ⟨x, hx⟩ := hdeclares.exists_introduces
    exact ⟨x, Node.Introduces.block hx hs _⟩
  | within hs _ ih =>
    obtain ⟨x, hx⟩ := ih
    exact ⟨x, Node.Introduces.block hx hs _⟩

end Blocks

/-! ### Finished loops -/

section Finished

variable {passes levels : Nat} {test body : Node} {f : FrameId} {w u z : World}
  {starts : List World}

/-- A pass leaves a closed world behind. -/
private theorem Passed.isClosed
    (hpassed : Passed (evalTest (eval levels) f test) (exec passes levels body f) w starts u)
    (hf : f < w.store.next) (hclosed : w.IsClosed) : u.IsClosed ∧ f < u.store.next := by
  refine hpassed.keeps (P := fun y => y.IsClosed ∧ f < y.store.next) ⟨hclosed, hf⟩ ?_
  rintro y z x ⟨hy, hf⟩ htest hbody
  obtain ⟨hz, hle⟩ := hy.eval_ok hf (evalTest_eq_ok_iff.mp htest)
  obtain ⟨hx, hle'⟩ := hz.exec_ok (Nat.lt_of_lt_of_le hf hle) hbody
  exact ⟨hx, Nat.lt_of_lt_of_le hf (Nat.le_trans hle hle')⟩

/-- In a closed world, a test that gave a value gives it again. -/
private theorem outcome_again (hclosed : u.IsClosed) (hf : f < u.store.next) {a : Value}
    (htest : eval levels test f u = .ok a z) (r : Record) {more : Nat} (hmore : levels ≤ more) :
    (eval more test f).outcome (z.noted r) = .ok a := by
  have hafter := hclosed.lexical.eval levels test f
  rw [Run.after, htest] at hafter
  have hsame := hclosed.outcome_eq hf (hafter.1.trans (.noted z r)) (hafter.2.noted r) more test
  have hu : (eval levels test f).outcome u = .ok a := by rw [Run.outcome, htest]
  obtain hoverflow | hu' := hclosed.outcome_eq_or_overflow hf hmore test
  · rw [hu] at hoverflow
    cases hoverflow
  · rw [hsame, ← hu', hu]

/-- A body that introduces a name is not executed twice. -/
private theorem Passed.length_le_one {x : String} (hx : body.Introduces x)
    (hpassed : Passed (evalTest (eval levels) f test) (exec passes levels body f) w starts u)
    (hf : f < w.store.next) : starts.length ≤ 1 := by
  cases hpassed with
  | start => exact Nat.zero_le 1
  | again htest hbody hrest =>
    cases hrest with
    | start => exact Nat.le_refl 1
    | again htest' hbody' =>
      -- The first pass binds the name, and the test before the second one keeps it.
      have hfirst := widens_of_eval (evalTest_eq_ok_iff.mp htest)
      have hsecond := widens_of_eval (evalTest_eq_ok_iff.mp htest')
      have hf' := (widens_of_exec hbody).lt_next (hfirst.lt_next hf)
      have hbound := hsecond.binds (hx (hfirst.lt_next hf) hbody).2
      have hfree := (hx (hsecond.lt_next hf') hbody').1
      rw [hbound] at hfree
      cases hfree

end Finished

/-- **What a finished loop guarantees.** Take any loop, executed in a frame that is there, in any
world and with any levels, and let it succeed. Then its body was executed in some worlds, one after
the other, each time after the test had given true; the test gave false in the end; and a record was
noted last which has the number of these worlds. If no frame asks for flat scoping, and frames and
closures refer to frames that are there, then the test has the value false in the world after the
loop, too, with as many levels or with more. Under either policy, if the body is a block that
declares a variable or a function, directly or in blocks inside it, then it was executed at most
once. -/
theorem finished_loop (passes levels : Nat) (test body : Node) (m : Mark) (f : FrameId)
    (w v : World) (hf : f < w.store.next)
    (hfinished : exec passes levels (.tree StatementForm.loop.label [test, body] m) f w =
      .ok () v) :
    ∃ starts u z,
      Passed (evalTest (eval (levels - 3)) f test) (exec passes (levels - 3) body f) w starts u ∧
      eval (levels - 3) test f u = .ok (.boolean false) z ∧
      v = z.noted (.finished starts.length) ∧
      (w.IsClosed → ∀ more, levels - 3 ≤ more →
        (eval more test f).outcome v = .ok (.boolean false)) ∧
      (body.DeclaresInside → starts.length ≤ 1) := by
  match levels, hfinished with
  | 0, hfinished | 1, hfinished | 2, hfinished | 3, hfinished => cases hfinished
  | levels + 4, hfinished =>
    obtain ⟨total, z, hloop, hnote⟩ := Run.bind_eq_ok_iff.mp (Run.within_eq_ok_iff.mp hfinished)
    obtain ⟨starts, u, hpassed, hlast, -, htotal⟩ := repeatWhile_eq_ok_iff.mp hloop
    rw [Nat.zero_add] at htotal
    subst htotal
    cases hnote
    have htest := evalTest_eq_ok_iff.mp hlast
    refine ⟨starts, u, z, hpassed, htest, rfl, fun hclosed more hmore => ?_, fun hinside => ?_⟩
    · obtain ⟨hu, hfu⟩ := hpassed.isClosed hf hclosed
      exact outcome_again hu hfu htest _ hmore
    · obtain ⟨x, hx⟩ := hinside.exists_introduces
      exact hpassed.length_le_one hx hf

/-- A world with one frame, which asks for flat scoping or not, and binds a name to true. -/
def switchWorld (scoping : Scoping) : World where
  store.frames :=
    #[{ parent := none, label := "global", options := some { scoping },
        bindings := [("x", .boolean true)] }]

/-- A block that declares a name in a block inside it. -/
def declaringBody : Node :=
  .block [.assignment (.name "x") (.boolean false), .block [.declaration (.name "y") (.name "x")]]

theorem declaringBody_declaresInside : declaringBody.DeclaresInside :=
  .within (List.mem_cons_of_mem _ List.mem_cons_self) (.directly List.mem_cons_self (.inl rfl))

private theorem switchWorld_isClosed : (switchWorld .lexical).IsClosed where
  lexical := .of_frames (by decide)
  ordered := Store.IsOrdered.of_frames (by decide)
  refers := .of_frames (by decide)

/-- Under either policy a loop around this block makes one pass, which is what its record says. Under
lexical scoping its test is false once more. -/
theorem finished_loop_of_declaringBody :
    (∀ scoping, ∃ starts u v,
      Passed (evalTest (eval 97) 0 (.name "x")) (exec 2 97 declaringBody 0) (switchWorld scoping)
        starts u ∧
      exec 2 100 (.loop (.name "x") declaringBody) 0 (switchWorld scoping) = .ok () v ∧
      v.records.back? = some (.finished 1) ∧ starts.length = 1) ∧
    ∃ v, exec 2 100 (.loop (.name "x") declaringBody) 0 (switchWorld .lexical) = .ok () v ∧
      (eval 500 (.name "x") 0).outcome v = .ok (.boolean false) := by
  have hexec (scoping : Scoping) :
      ∃ v, exec 2 100 (.loop (.name "x") declaringBody) 0 (switchWorld scoping) = .ok () v ∧
        v.records.back? = some (.finished 1) := by
    cases scoping <;> exact ⟨_, rfl, rfl⟩
  constructor
  · intro scoping
    obtain ⟨v, hv, hlast⟩ := hexec scoping
    obtain ⟨starts, u, z, hpassed, -, rfl, -, honce⟩ :=
      finished_loop 2 100 (.name "x") declaringBody _ 0 (switchWorld scoping) v Nat.one_pos hv
    refine ⟨starts, u, _, hpassed, hv, hlast, Nat.le_antisymm ?_ ?_⟩
    · exact honce declaringBody_declaresInside
    · rw [World.noted, Array.back?_push] at hlast
      exact (Record.finished.inj (Option.some.inj hlast)).ge
  · obtain ⟨v, hv, -⟩ := hexec .lexical
    obtain ⟨-, -, -, -, -, -, hagain, -⟩ :=
      finished_loop 2 100 (.name "x") declaringBody _ 0 (switchWorld .lexical) v Nat.one_pos hv
    exact ⟨v, hv, hagain switchWorld_isClosed 500 (by decide)⟩

end Bella
