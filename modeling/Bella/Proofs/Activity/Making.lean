import Bella.Proofs.Activity.Keeping
import Bella.Proofs.Confinement
import Bella.Proofs.Growth
import Bella.Proofs.History

/-!
# The closures that a run meets

The list of the closures that a statement makes fits the activities that go on inside it. Whenever
one of these begins, what was made before is a history of the world at that moment, and what it makes
stands next in the list. So the list holds what the declarations make that are executed inside a run,
and no activity has to do with any other closure than those that were made before it and those that
it makes.

## Main definitions

* `Bella.Activity.makings`: the closures that an activity makes, in order.
* `Bella.Activity.Makes`: the execution of a declaration that makes a closure.
* `Bella.Activity.Meets`: the closures that an activity has to do with.

## Main results

* `Bella.IsHistory.of_reaches`: what was made before a moment of a run is a history of the world then.
* `Bella.IsHistory.mem_makings_iff`: what is listed is what declarations inside a run make.
* `Bella.IsHistory.isMade_of_meets`: no other closure is met.
-/

namespace Bella

/-! ### Statements in order and passes of a loop -/

section Moments

variable {made : List Making} {w v : World} {f : FrameId}

/-- Up to a statement that stands in a list, those before it are the ones that make closures. -/
theorem IsHistory.of_inTurn {exec : Executor} {inside : Lister} {ns : List Node} {n : Node}
    (hw : IsHistory made w) (hinside : ∀ n, (exec n f).IsListedBy (inside n f))
    (hturn : InTurn exec f w ns v n) :
    ∃ earlier, IsHistory (made ++ earlier) v ∧
      earlier ++ inside n f v <+: makingsAll inside exec f ns w := by
  induction hturn generalizing made with
  | first => exact ⟨[], by rwa [List.append_nil], List.prefix_append _ _⟩
  | @later w u v k n ns a hk _ ih =>
    obtain ⟨earlier, hv, hprefix⟩ := ih ((hinside k).of_ok hw hk)
    refine ⟨inside k f w ++ earlier, by rwa [← List.append_assoc], ?_⟩
    rw [makingsAll, Run.thenMakes_of_ok hk, List.append_assoc]
    exact (List.prefix_append_right_inj _).mpr hprefix

theorem exists_inTurn_of_mem_makingsAll {exec : Executor} {inside : Lister} {ns : List Node}
    {m : Making} (hm : m ∈ makingsAll inside exec f ns w) :
    ∃ n v, InTurn exec f w ns v n ∧ m ∈ inside n f v := by
  induction ns generalizing w with
  | nil => cases hm
  | cons n ns ih =>
    obtain hm | hm := List.mem_append.mp hm
    · exact ⟨n, w, .first, hm⟩
    · obtain ⟨_, u, hn, hm⟩ := Run.mem_thenMakes_iff.mp hm
      obtain ⟨k, v, hturn, hm⟩ := ih hm
      exact ⟨k, v, .later hn hturn, hm⟩

section Loops

variable {test : Run Bool} {body : Run Unit} {inside : World → List Making} {passes left : Nat}

theorem makingsLoop_of_test (htest : test w = .ok true v) :
    makingsLoop inside test body (passes + 1) w =
      inside v ++ body.thenMakes (fun _ => makingsLoop inside test body passes) v := by
  rw [makingsLoop, Run.thenMakes_of_ok htest, if_pos rfl]

/-- Up to a pass of a loop, those before it are the ones that make closures. -/
theorem IsHistory.of_repeats (hw : IsHistory made w) (htest : test.IsListedBy fun _ => [])
    (hbody : body.IsListedBy inside) (hrepeats : Repeats test body passes w left v) :
    ∃ earlier, IsHistory (made ++ earlier) v ∧
      earlier ++ makingsLoop inside test body left v = makingsLoop inside test body passes w := by
  induction hrepeats generalizing made with
  | start => exact ⟨[], by rwa [List.append_nil], rfl⟩
  | @again passes left w u v z hagain hpass _ ih =>
    have hu := htest.of_ok hw hagain
    rw [List.append_nil] at hu
    obtain ⟨earlier, hz, heq⟩ := ih (hbody.of_ok hu hpass)
    refine ⟨inside u ++ earlier, by rwa [← List.append_assoc], ?_⟩
    rw [makingsLoop_of_test hagain, Run.thenMakes_of_ok hpass, List.append_assoc, heq]

theorem exists_repeats_of_mem_makingsLoop {m : Making}
    (hm : m ∈ makingsLoop inside test body passes w) :
    ∃ left v u, Repeats test body passes w (left + 1) v ∧ test v = .ok true u ∧ m ∈ inside u := by
  induction passes generalizing w with
  | zero => cases hm
  | succ passes ih =>
    obtain ⟨again, u, htest, hm⟩ := Run.mem_thenMakes_iff.mp hm
    cases again with
    | false => cases hm
    | true =>
      obtain hm | hm := List.mem_append.mp hm
      · exact ⟨passes, w, u, .start, htest, hm⟩
      · obtain ⟨_, z, hbody, hm⟩ := Run.mem_thenMakes_iff.mp hm
        obtain ⟨left, v, y, hrepeats, htest', hm⟩ := ih hm
        exact ⟨left, v, y, .again htest hbody hrepeats, htest', hm⟩

end Loops

end Moments

/-! ### Moments of a run -/

namespace Activity

/-- The closures that an activity makes, in order. Expressions make none. -/
def makings : Activity → List Making
  | evaluation _ _ _ _ => []
  | execution passes levels n f w => Bella.makings passes levels n f w

/-- The activity is the execution of a declaration, which makes a closure. -/
inductive Makes : Activity → Making → Prop
  | declaration {passes levels : Nat} {nameNode parametersNode body : Node} {m : Mark}
      {x : String} {ps : List String} {f : FrameId} {w v : World} {k : Closure}
      (hname : Check.identifier "Function name" nameNode = .ok x)
      (hparameters : Check.parameters parametersNode = .ok ps)
      (hmade : Run.declareFunction f x ps body w = .ok k v) :
      Makes (.execution passes (levels + 4)
        (.tree StatementForm.function.label [nameNode, parametersNode, body] m) f w)
        { world := w, closure := k }

end Activity

section Activities

variable {made : List Making} {a b : Activity}

/-- Up to a statement inside another one, the statements before it are those that make closures. -/
theorem IsHistory.of_statementPart {passes levels : Nat} {f : FrameId} {w v : World} {n s : Node}
    {r : StatementRole} (hw : IsHistory made w)
    (hpart : StatementPart passes (.below passes levels) f w n r s v) :
    ∃ earlier, IsHistory (made ++ earlier) v ∧
      earlier ++ makings passes (levels + 4 - r.levels) s f v <+:
        makings passes (levels + 4) n f w := by
  rw [makings_eq]
  cases hpart with
  | program hlabel hturn =>
    simp only [makingsNode, StatementForm.ofLabel?_label, makingsForm, makingsBlock, hlabel,
      if_true]
    exact hw.of_inTurn (fun n => exec_isListedBy _ _ n f) hturn
  | block hturn =>
    simp only [makingsNode, StatementForm.ofLabel?_label, makingsForm]
    exact hw.of_inTurn (fun n => exec_isListedBy _ _ n f) hturn
  | @body test _ m left u v hpassed htest =>
    have hloop := evalTest_isListedBy (levels + 1) test f
    obtain ⟨earlier, hu, heq⟩ := hw.of_repeats hloop (exec_isListedBy _ _ s f) hpassed
    have htrue : evalTest (eval (levels + 1)) f test u = .ok true v := evalTest_eq_ok_iff.mpr htest
    have hv := hloop.of_ok hu htrue
    rw [List.append_nil] at hv
    refine ⟨earlier, hv, ?_⟩
    simp only [makingsNode, StatementForm.ofLabel?_label, makingsForm]
    rw [makingsLoop_of_test htrue, ← List.append_assoc] at heq
    exact ⟨_, heq⟩

/-- Up to an expression of a statement, the passes before it are those that make closures. -/
theorem IsHistory.of_statementExpression {passes levels : Nat} {f : FrameId} {w v : World}
    {n e : Node} (hw : IsHistory made w)
    (hexpression : StatementExpression passes (.below passes levels) f w n e v) :
    ∃ earlier, IsHistory (made ++ earlier) v ∧ earlier <+: makings passes (levels + 4) n f w := by
  cases hexpression with
  | declaration | assignment | print => exact ⟨[], by rwa [List.append_nil], List.nil_prefix⟩
  | @test _ body m left v hpassed =>
    obtain ⟨earlier, hv, heq⟩ := hw.of_repeats (evalTest_isListedBy (levels + 1) e f)
      (exec_isListedBy _ _ body f) hpassed
    refine ⟨earlier, hv, ?_⟩
    rw [makings_eq]
    simp only [makingsNode, StatementForm.ofLabel?_label, makingsForm]
    exact ⟨_, heq⟩

theorem IsHistory.of_part (ha : IsHistory made a.world) (hpart : a.Part b) :
    ∃ earlier, IsHistory (made ++ earlier) b.world ∧ earlier ++ b.makings <+: a.makings := by
  cases hpart with
  | expression hpart =>
    have hkeeps := (Invariant.history made).part_keeps ha trivial hpart
    exact ⟨[], by rw [List.append_nil]; exact hkeeps.1, List.prefix_refl _⟩
  | statement hpart => exact ha.of_statementPart hpart
  | inner hexpression =>
    obtain ⟨earlier, hv, hprefix⟩ := ha.of_statementExpression hexpression
    exact ⟨earlier, hv, by rwa [Activity.makings, List.append_nil]⟩

theorem IsHistory.of_enters (ha : IsHistory made a.world) (henters : a.Enters b) :
    IsHistory made b.world ∧ a.makings = [] ∧ b.makings = [] := by
  obtain ⟨hcall, hentered⟩ := henters
  obtain ⟨hk, hvs, hv, -⟩ := (Invariant.history made).call_keeps ha trivial hcall
  exact ⟨((Invariant.history made).enterCall_ok hv trivial hk hvs hentered).1, rfl, rfl⟩

/-- Whenever something begins inside a run, what was made before is a history of the world, and what
it makes is what the run makes next. -/
theorem IsHistory.of_reaches (ha : IsHistory made a.world) {depth : Nat}
    (hreaches : a.Reaches depth b) :
    ∃ earlier, IsHistory (made ++ earlier) b.world ∧ earlier ++ b.makings <+: a.makings := by
  induction hreaches with
  | refl => exact ⟨[], by rwa [List.append_nil], List.prefix_refl _⟩
  | part _ hpart ih =>
    -- what was made before the activity, and then inside it before the part
    obtain ⟨earlier, hb, hprefix⟩ := ih
    obtain ⟨between, hc, hbetween⟩ := hb.of_part hpart
    refine ⟨earlier ++ between, by rwa [← List.append_assoc], ?_⟩
    rw [List.append_assoc]
    exact ((List.prefix_append_right_inj _).mpr hbetween).trans hprefix
  | enters _ henters ih =>
    obtain ⟨earlier, hb, hprefix⟩ := ih
    obtain ⟨hc, hnone, hnone'⟩ := hb.of_enters henters
    rw [hnone] at hprefix
    exact ⟨earlier, hc, by rwa [hnone']⟩

/-- A declaration hands out the next identity. -/
theorem Run.id_of_declareFunction {f : FrameId} {x : String} {ps : List String} {body : Node}
    {w v : World} {k : Closure} (h : Run.declareFunction f x ps body w = .ok k v) :
    k.id = w.issued := by
  rw [Run.declareFunction_apply] at h
  split at h
  · cases h
  · cases h
    rfl

/-- No closure that there is when a declaration is executed has the identity that it hands out. -/
theorem Activity.Makes.id_lt {m : Making} (h : a.Makes m) (ha : IsHistory made a.world)
    {c : Closure} (hc : m.world.store.Has c) : c.id < m.closure.id := by
  obtain ⟨-, -, hmade⟩ := h
  rw [Run.id_of_declareFunction hmade]
  exact ha.id_lt_of_has hc

theorem Activity.Makes.makings_eq {m : Making} (h : a.Makes m) : a.makings = [m] := by
  obtain ⟨hname, hparameters, hmade⟩ := h
  rw [Activity.makings, Bella.makings_eq]
  simp only [makingsNode, StatementForm.ofLabel?_label, makingsForm, makingsFunction, hname,
    hparameters, Run.check, Run.thenMakes, Run.pure_apply, Run.making, hmade]

private theorem makes_of_mem_makingsFunction {passes levels : Nat} {children : List Node}
    {mark : Mark} {f : FrameId} {w : World} {m : Making} (hm : m ∈ makingsFunction f children w) :
    (Activity.execution passes (levels + 4)
      (.tree StatementForm.function.label children mark) f w).Makes m := by
  match children, hm with
  | [nameNode, parametersNode, body], hm =>
    obtain ⟨x, v, hcheck, hrest⟩ := Run.mem_thenMakes_iff.mp hm
    obtain ⟨ps, u, hcheck', hlast⟩ := Run.mem_thenMakes_iff.mp hrest
    obtain ⟨hname, rfl⟩ := Run.check_eq_ok_iff.mp hcheck
    obtain ⟨hparameters, rfl⟩ := Run.check_eq_ok_iff.mp hcheck'
    obtain ⟨k, u, hmade, rfl⟩ := Run.mem_making_iff.mp hlast
    exact .declaration hname hparameters hmade

/-- A statement makes closures as a declaration or by the statements inside it. -/
private theorem makes_or_part_of_mem_makings {passes levels : Nat} {n : Node} {f : FrameId}
    {w : World} {m : Making} (hm : m ∈ makings passes (levels + 4) n f w) :
    (Activity.execution passes (levels + 4) n f w).Makes m ∨
      ∃ r s v, StatementPart passes (.below passes levels) f w n r s v ∧
        m ∈ makings passes (levels + 4 - r.levels) s f v := by
  rw [makings_eq] at hm
  cases n with
  | tree label children mark =>
    cases hform : StatementForm.ofLabel? label with
    | none => simp [makingsNode, hform] at hm
    | some form =>
      simp only [makingsNode, hform] at hm
      obtain rfl := StatementForm.label_of_ofLabel? hform
      cases form with
      | function => exact .inl (makes_of_mem_makingsFunction hm)
      | block =>
        obtain ⟨s, v, hturn, hs⟩ := exists_inTurn_of_mem_makingsAll hm
        exact .inr ⟨_, s, v, .block hturn, hs⟩
      | program =>
        obtain _ | ⟨body, _ | _⟩ := children
        case cons.nil =>
          simp only [makingsForm, makingsBlock] at hm
          split at hm
          · rename_i hlabel
            obtain ⟨s, v, hturn, hs⟩ := exists_inTurn_of_mem_makingsAll hm
            exact .inr ⟨_, s, v, .program hlabel hturn, hs⟩
          · cases hm
        all_goals cases hm
      | loop =>
        obtain _ | ⟨test, _ | ⟨body, _ | _⟩⟩ := children
        case cons.cons.nil =>
          obtain ⟨left, v, u, hrepeats, htest, hs⟩ := exists_repeats_of_mem_makingsLoop hm
          exact .inr ⟨_, body, u, .body hrepeats (evalTest_eq_ok_iff.mp htest), hs⟩
        all_goals cases hm
      | declaration | assignment | print => cases hm
  | token | hollow | improper | plain | list => cases hm

private theorem exists_makes_of_mem_makings {passes levels : Nat} {n : Node} {f : FrameId}
    {w : World} {m : Making} (hm : m ∈ makings passes levels n f w) :
    ∃ b, (Activity.execution passes levels n f w).Reaches 0 b ∧ b.Makes m := by
  induction levels using Nat.strongRecOn generalizing n w with
  | ind levels ih =>
    match levels, hm with
    | levels + 4, hm =>
      obtain hmakes | ⟨r, s, v, hpart, hs⟩ := makes_or_part_of_mem_makings hm
      · exact ⟨_, .refl, hmakes⟩
      · have hlt : levels + 4 - r.levels < levels + 4 :=
          Activity.levels_lt_of_part (.statement hpart)
        obtain ⟨b, hreaches, hb⟩ := ih _ hlt hs
        exact ⟨b, .of_part (.statement hpart) hreaches, hb⟩

/-- The closures that are listed are those that declarations inside the activity make. -/
theorem IsHistory.mem_makings_iff (ha : IsHistory made a.world) {m : Making} :
    m ∈ a.makings ↔ ∃ depth b, a.Reaches depth b ∧ b.Makes m := by
  constructor
  · intro hm
    match a, hm with
    | .execution passes levels n f w, hm =>
      obtain ⟨b, hreaches, hb⟩ := exists_makes_of_mem_makings hm
      exact ⟨0, b, hreaches, hb⟩
  · rintro ⟨depth, b, hreaches, hb⟩
    obtain ⟨earlier, -, hprefix⟩ := ha.of_reaches hreaches
    rw [hb.makings_eq] at hprefix
    exact hprefix.subset (List.mem_append_right _ List.mem_cons_self)

/-! ### The closures that a run meets -/

/-- The activity leaves a history of what was made before it and what it makes. -/
theorem IsHistory.last (ha : IsHistory made a.world) : IsHistory (made ++ a.makings) a.last := by
  cases a with
  | evaluation levels n f w =>
    rw [Activity.makings, List.append_nil]
    exact ((eval_isHistory ha levels n f).mono And.right id).after
  | execution passes levels n f w => exact exec_isListedBy passes levels n f made w ha

/-- The closures that an activity has to do with: those in the frames when it begins and when it ends,
those in its value, and the one that it calls, with those in the arguments. -/
inductive Activity.Meets (a : Activity) (c : Closure) : Prop
  | first (h : a.world.store.Has c)
  | last (h : a.last.store.Has c)
  | value {levels : Nat} {n : Node} {f : FrameId} {w v : World} {u : Value}
      (ha : a = .evaluation levels n f w) (hu : eval levels n f w = .ok u v) (hc : c ∈ u.closures)
  | callee {x : String} {vs : List Value} {v : World} (h : a.Calls x c vs v)
  | argument {x : String} {k : Closure} {vs : List Value} {v : World} (h : a.Calls x k vs v)
      {u : Value} (hu : u ∈ vs) (hc : c ∈ u.closures)

/-- An activity meets closures that were made before it, or that it makes. -/
theorem IsHistory.isMade_of_meets (ha : IsHistory made a.world) {c : Closure} (hc : a.Meets c) :
    IsMade (made ++ a.makings) c := by
  have hold {c : Closure} (h : IsMade made c) : IsMade (made ++ a.makings) c :=
    h.of_subset (List.subset_append_left _ _)
  cases hc with
  | first h => exact hold (ha.origin c h)
  | last h => exact ha.last.origin c h
  | value heq hu hc =>
    subst heq
    exact hold (((Invariant.history made).eval_ok ha trivial hu).1 c hc)
  | callee h =>
    obtain ⟨hcall⟩ := h
    exact hold ((Invariant.history made).call_keeps ha trivial hcall).1
  | argument h hu hc =>
    obtain ⟨hcall⟩ := h
    exact hold (((Invariant.history made).call_keeps ha trivial hcall).2.1 _ hu c hc)

end Activities

end Bella
