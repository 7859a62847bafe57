import Bella.Proofs.Activity.Nesting
import Bella.Proofs.Simulation.Invariant

/-!
# Invariants inside a run

An invariant that holds when an activity starts holds whenever one starts inside it, at any depth:
the parts before it have kept it, and so has the call that it is the body of. So what is known of a
run as a whole is known at each of its moments.

## Main definitions

* `Bella.ProgramInvariant.Covers`: an invariant holds where an activity starts.

## Main results

* `Bella.Invariant.part_keeps`, `Bella.Invariant.call_keeps`: an invariant up to a part of an
  expression, and up to the call of a closure.
* `Bella.ProgramInvariant.covers_of_reaches`: an invariant covers everything inside what it covers.
-/

namespace Bella

/-! ### Expressions -/

namespace Invariant

variable {I : Invariant} {levels : Nat} {f : FrameId} {w v : World} {n e : Node} {es : List Node}

theorem eval_ok (hw : I.holds w) (hf : I.scope f w) {a : Value}
    (heval : eval levels n f w = .ok a v) :
    a.HoldsOnly I.closures ∧ I.holds v ∧ I.grows w v := by
  have h := I.eval_keeps levels n hw hf
  rw [heval] at h
  exact h

theorem inTurn_keeps (hw : I.holds w) (hf : I.scope f w) (hturn : InTurn (eval levels) f w es v e) :
    I.holds v ∧ I.grows w v := by
  induction hturn with
  | first => exact ⟨hw, I.grows_refl _⟩
  | later hm _ ih =>
    obtain ⟨-, hholds, hgrows⟩ := I.eval_ok hw hf hm
    obtain ⟨hholds', hgrows'⟩ := ih hholds (I.scope_grows hf hgrows)
    exact ⟨hholds', I.grows_trans hgrows hgrows'⟩

theorem evalAll_ok (hw : I.holds w) (hf : I.scope f w) {vs : List Value}
    (heval : evalAll (eval levels) f es w = .ok vs v) :
    (∀ a ∈ vs, a.HoldsOnly I.closures) ∧ I.holds v ∧ I.grows w v := by
  induction es generalizing w vs with
  | nil =>
    cases heval
    exact ⟨nofun, hw, I.grows_refl _⟩
  | cons e es ih =>
    obtain ⟨a, u, ha, hrest⟩ := Run.bind_eq_ok_iff.mp heval
    obtain ⟨as, z, has, hpure⟩ := Run.bind_eq_ok_iff.mp hrest
    cases hpure
    obtain ⟨hvalue, hholds, hgrows⟩ := I.eval_ok hw hf ha
    obtain ⟨hvalues, hholds', hgrows'⟩ := ih hholds (I.scope_grows hf hgrows) has
    exact ⟨List.forall_mem_cons.mpr ⟨hvalue, hvalues⟩, hholds', I.grows_trans hgrows hgrows'⟩

/-- The parts before a part of an expression keep an invariant. -/
theorem part_keeps (hw : I.holds w) (hf : I.scope f w) {r : Role}
    (hpart : ExpressionPart (.below levels) f w n r e v) : I.holds v ∧ I.grows w v := by
  cases hpart with
  | operand | left | test | target => exact ⟨hw, I.grows_refl w⟩
  | right _ hl _ =>
    rw [Parts.evaluator_below] at hl
    exact (I.eval_ok hw hf hl).2
  | branch ht => exact (I.eval_ok hw hf ht).2
  | index ht => exact (I.eval_ok hw hf ht).2
  | element hturn => exact I.inTurn_keeps hw hf hturn
  | argument _ _ _ hturn => exact I.inTurn_keeps hw hf hturn

/-- The arguments of a call keep an invariant, which the closure and its arguments then meet. -/
theorem call_keeps (hw : I.holds w) (hf : I.scope f w) {x : String} {k : Closure}
    {vs : List Value} (hcall : ExpressionCall (.below levels) f w n x k vs v) :
    I.closures k ∧ (∀ a ∈ vs, a.HoldsOnly I.closures) ∧ I.holds v ∧ I.grows w v := by
  obtain ⟨hx, hes, hvs⟩ := hcall
  exact ⟨I.lookup hw hf hx k List.mem_cons_self, I.evalAll_ok hw hf hvs⟩

/-- So does entering the closure. -/
theorem enterCall_ok (hw : I.holds w) (hf : I.scope f w) {x : String} {k : Closure}
    {vs : List Value} {t : FrameId} (hk : I.closures k) (hvs : ∀ a ∈ vs, a.HoldsOnly I.closures)
    (hentered : enterCall x k vs f w = .ok t v) : I.holds v ∧ I.grows w v ∧ I.scope t v := by
  have h := I.enterCall_keeps hw hf (x := x) hk hvs
  rw [hentered] at h
  exact h

end Invariant

/-! ### Statements -/

namespace ProgramInvariant

variable {I : ProgramInvariant} {passes levels : Nat} {f : FrameId} {w v : World} {n s e : Node}

theorem exec_ok (hw : I.holds w) (hf : I.top f) (hn : ∀ q ∈ n.functions, I.functions q.1 q.2)
    (hexec : exec passes levels n f w = .ok () v) : I.holds v ∧ I.changes w v := by
  have h := I.exec_keeps passes levels hn hf hw
  unfold Run.after at h
  rw [hexec] at h
  exact h

theorem inTurn_keeps {ss : List Node} (hw : I.holds w) (hf : I.top f)
    (hss : ∀ s ∈ ss, ∀ q ∈ s.functions, I.functions q.1 q.2)
    (hturn : InTurn (exec passes levels) f w ss v s) : I.holds v ∧ I.changes w v := by
  induction hturn with
  | first => exact ⟨hw, I.changes_refl _⟩
  | later hm _ ih =>
    obtain ⟨hhead, htail⟩ := List.forall_mem_cons.mp hss
    obtain ⟨hholds, hchanges⟩ := I.exec_ok hw hf hhead hm
    obtain ⟨hholds', hchanges'⟩ := ih hholds htail
    exact ⟨hholds', I.changes_trans hchanges hchanges'⟩

private theorem test_ok (hw : I.holds w) (hf : I.top f) {a : Value}
    (heval : eval levels e f w = .ok a v) : I.holds v ∧ I.changes w v := by
  obtain ⟨-, hholds, hgrows⟩ := I.eval_ok hw (I.scope_top hf hw) heval
  exact ⟨hholds, I.changes_of_grows hgrows⟩

theorem passes_keeps {test body : Node} {left : Nat} (hw : I.holds w) (hf : I.top f)
    (hbody : ∀ q ∈ body.functions, I.functions q.1 q.2) {count : Nat}
    (hpassed : (StatementParts.below passes levels).Passes f test body count w left v) :
    I.holds v ∧ I.changes w v := by
  unfold StatementParts.Passes at hpassed
  induction hpassed with
  | start => exact ⟨hw, I.changes_refl _⟩
  | again htest hpass _ ih =>
    obtain ⟨hholds, hchanges⟩ := test_ok hw hf (evalTest_eq_ok_iff.mp htest)
    obtain ⟨hholds', hchanges'⟩ := I.exec_ok hholds hf hbody hpass
    obtain ⟨hholds'', hchanges''⟩ := ih hholds'
    exact ⟨hholds'', I.changes_trans hchanges (I.changes_trans hchanges' hchanges'')⟩

/-- A statement inside another one is among its parts, and what is executed before it keeps an
invariant. -/
theorem statement_keeps {r : StatementRole} (hw : I.holds w) (hf : I.top f)
    (hn : ∀ q ∈ n.functions, I.functions q.1 q.2)
    (hpart : StatementPart passes (.below passes levels) f w n r s v) :
    s ∈ n.statementParts ∧ I.holds v ∧ I.changes w v := by
  have hinside {s : Node} (hs : s ∈ n.statementParts) (q : List String × Node)
      (hq : q ∈ s.functions) : I.functions q.1 q.2 :=
    hn q (Node.functions_subset_of_mem_statementParts hs hq)
  cases hpart with
  | program hlabel hturn => exact ⟨hturn.mem, I.inTurn_keeps hw hf (fun s => hinside) hturn⟩
  | block hturn => exact ⟨hturn.mem, I.inTurn_keeps hw hf (fun s => hinside) hturn⟩
  | body hpassed htest =>
    have hbody : s ∈ [s] := List.mem_cons_self
    obtain ⟨hholds, hchanges⟩ := I.passes_keeps hw hf (hinside hbody) hpassed
    obtain ⟨hholds', hchanges'⟩ := test_ok hholds hf htest
    exact ⟨hbody, hholds', I.changes_trans hchanges hchanges'⟩

/-- What a statement does before it evaluates an expression keeps an invariant. -/
theorem expression_keeps (hw : I.holds w) (hf : I.top f)
    (hn : ∀ q ∈ n.functions, I.functions q.1 q.2)
    (hexpression : StatementExpression passes (.below passes levels) f w n e v) :
    I.holds v ∧ I.changes w v := by
  cases hexpression with
  | declaration | assignment | print => exact ⟨hw, I.changes_refl w⟩
  | @test test body m left v hpassed =>
    have hbody : body ∈ (Node.tree StatementForm.loop.label [e, body] m).statementParts :=
      List.mem_cons_self
    exact I.passes_keeps hw hf
      (fun q hq => hn q (Node.functions_subset_of_mem_statementParts hbody hq)) hpassed

/-! ### Activities -/

/-- The invariant holds where the activity starts. -/
def Covers (I : ProgramInvariant) : Activity → Prop
  | .evaluation _ _ f w => I.holds w ∧ I.scope f w
  | .execution _ _ n f w => I.holds w ∧ I.top f ∧ ∀ q ∈ n.functions, I.functions q.1 q.2

variable {a b : Activity}

theorem Covers.holds (ha : I.Covers a) : I.holds a.world := by
  cases a <;> exact ha.1

theorem covers_of_part (ha : I.Covers a) (hpart : a.Part b) :
    I.Covers b ∧ I.changes a.world b.world := by
  cases hpart with
  | expression hpart =>
    obtain ⟨hw, hf⟩ := ha
    obtain ⟨hholds, hgrows⟩ := I.part_keeps hw hf hpart
    exact ⟨⟨hholds, I.scope_grows hf hgrows⟩, I.changes_of_grows hgrows⟩
  | statement hpart =>
    obtain ⟨hw, hf, hn⟩ := ha
    obtain ⟨hs, hholds, hchanges⟩ := I.statement_keeps hw hf hn hpart
    exact ⟨⟨hholds, hf, fun q hq => hn q (Node.functions_subset_of_mem_statementParts hs hq)⟩,
      hchanges⟩
  | inner hexpression =>
    obtain ⟨hw, hf, hn⟩ := ha
    obtain ⟨hholds, hchanges⟩ := I.expression_keeps hw hf hn hexpression
    exact ⟨⟨hholds, I.scope_top hf hholds⟩, hchanges⟩

theorem covers_of_enters (ha : I.Covers a) (henters : a.Enters b) :
    I.Covers b ∧ I.changes a.world b.world := by
  obtain ⟨hcall, hentered⟩ := henters
  obtain ⟨hw, hf⟩ := ha
  obtain ⟨hk, hvs, hholds, hgrows⟩ := I.call_keeps hw hf hcall
  obtain ⟨hholds', hgrows', hscope⟩ :=
    I.enterCall_ok hholds (I.scope_grows hf hgrows) hk hvs hentered
  exact ⟨⟨hholds', hscope⟩, I.changes_of_grows (I.grows_trans hgrows hgrows')⟩

/-- An invariant covers every activity inside one that it covers. -/
theorem covers_of_reaches (ha : I.Covers a) {depth : Nat} (hreaches : a.Reaches depth b) :
    I.Covers b ∧ I.changes a.world b.world := by
  induction hreaches with
  | refl => exact ⟨ha, I.changes_refl _⟩
  | part _ hpart ih =>
    obtain ⟨hcovers, hchanges⟩ := covers_of_part ih.1 hpart
    exact ⟨hcovers, I.changes_trans ih.2 hchanges⟩
  | enters _ henters ih =>
    obtain ⟨hcovers, hchanges⟩ := covers_of_enters ih.1 henters
    exact ⟨hcovers, I.changes_trans ih.2 hchanges⟩

end ProgramInvariant
end Bella
