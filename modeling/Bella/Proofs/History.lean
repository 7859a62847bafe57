import Bella.Proofs.Activity.Nesting
import Bella.Proofs.Simulation.Invariant

/-!
# The closures that statements make

A closure is made by the execution of a declaration, and by nothing that an expression does. So the
closures that a statement makes can be listed in the order in which they are made, each with the world
in which it is made, by going through its parts as their execution does. What was made before it and
what it makes are then a history of the world that it leaves: all closures in the frames are in the
list, however they were passed on meanwhile, and each of them has an identity that had not been handed
out before.

## Main definitions

* `Bella.Store.Has`: a closure is in the frames, at any depth.
* `Bella.Making`: a closure that is made in a world.
* `Bella.IsHistory`: a list of everything that was made up to a world.
* `Bella.makings`: the closures that a statement makes, in order.
* `Bella.Run.IsListedBy`: a list of what an action makes.

## Main results

* `Bella.eval_isHistory`: expressions make nothing, and their values hold what was made before.
* `Bella.exec_isListedBy`: what was made before a statement and what it makes are a history of the
  world that it leaves.
-/

namespace Bella

/-! ### Closures in frames -/

/-- All closures in the values of a frame are of one sort. -/
def Frame.HoldsOnly (P : Closure → Prop) (F : Frame) : Prop :=
  ∀ x v, F.get? x = some v → v.HoldsOnly P

/-- The closure is in some frame, as the value of a name or in an array at any depth. -/
def Store.Has (s : Store) (c : Closure) : Prop :=
  ∃ i F x v, s.get? i = some F ∧ F.get? x = some v ∧ c ∈ v.closures

namespace Store

variable {P : Closure → Prop} {s : Store}

/-- All closures are of one sort if those in each frame are. -/
theorem forall_has_iff : (∀ c, s.Has c → P c) ↔ ∀ {i F}, True → s.get? i = some F → F.HoldsOnly P :=
  ⟨fun h _ _ _ hget x v hx c hc => h c ⟨_, _, x, v, hget, hx, hc⟩,
    fun h c ⟨_, _, x, v, hget, hx, hc⟩ => h trivial hget x v hx c hc⟩

theorem forall_has_append (h : ∀ c, s.Has c → P c) {F : Frame} (hF : F.bindings = []) :
    ∀ c, (s.append F).Has c → P c := by
  refine forall_has_iff.mpr (forall_get?_append (forall_has_iff.mp h) fun x v hx => ?_)
  rw [Frame.get?, hF] at hx
  cases hx

theorem forall_has_bind (h : ∀ c, s.Has c → P c) (i : FrameId) (x : String) {v : Value}
    (hv : v.HoldsOnly P) : ∀ c, (s.bind i x v).Has c → P c := by
  refine forall_has_iff.mpr
    (forall_get?_of_change (forall_has_iff.mp h) (s.get?_bind i x v) fun hF y u hu => ?_)
  rw [Frame.get?_bind] at hu
  split at hu
  · cases hu
    exact hv
  · exact hF y u hu

theorem forall_has_update (h : ∀ c, s.Has c → P c) (i : FrameId) (x : String) {v : Value}
    (hv : v.HoldsOnly P) : ∀ c, (s.update i x v).Has c → P c := by
  refine forall_has_iff.mpr
    (forall_get?_of_change (forall_has_iff.mp h) (s.get?_update i x v) fun hF y u hu => ?_)
  rw [Frame.get?_update] at hu
  split at hu
  · obtain ⟨_, -, rfl⟩ := Option.map_eq_some_iff.mp hu
    exact hv
  · exact hF y u hu

theorem forall_has_setOptions (h : ∀ c, s.Has c → P c) (i : FrameId) (o : Options) :
    ∀ c, (s.setOptions i o).Has c → P c :=
  forall_has_iff.mpr (forall_get?_of_change (forall_has_iff.mp h) (s.get?_setOptions i o) id)

theorem has_of_lookup? {f : FrameId} {x : String} {v : Value} (h : s.lookup? f x = some v)
    {c : Closure} (hc : c ∈ v.closures) : s.Has c := by
  obtain ⟨i, F, -, hget, hx⟩ := exists_of_lookup? h
  exact ⟨i, F, x, v, hget, hx, hc⟩

end Store

/-! ### Histories -/

/-- A closure that is made, and the world in which that is done. -/
structure Making where
  /-- The world just before. -/
  world : World
  /-- The closure. -/
  closure : Closure

/-- The closure is one of those made. -/
def IsMade (made : List Making) (c : Closure) : Prop := ∃ m ∈ made, m.closure = c

theorem IsMade.of_subset {made made' : List Making} {c : Closure} (h : IsMade made c)
    (hsubset : made ⊆ made') : IsMade made' c := by
  obtain ⟨m, hm, hc⟩ := h
  exact ⟨m, hsubset hm, hc⟩

/-- Everything made up to a world, oldest first: no closure in its frames was made otherwise, and the
identities rise up to the number that has been handed out. -/
structure IsHistory (made : List Making) (w : World) : Prop where
  origin : ∀ c, w.store.Has c → IsMade made c
  rising : made.Pairwise fun m m' => m.closure.id < m'.closure.id
  issued : ∀ m ∈ made, m.closure.id < w.issued

namespace IsHistory

variable {made : List Making} {w : World}

/-- Nothing has been made in a world without frames. -/
theorem start : IsHistory [] {} where
  origin := by
    rintro c ⟨i, F, x, v, hget, -⟩
    cases hget
  rising := .nil
  issued := nofun

theorem noted (h : IsHistory made w) (r : Record) : IsHistory made (w.noted r) :=
  ⟨h.origin, h.rising, h.issued⟩

theorem printed (h : IsHistory made w) (lines : Array (Sink × String)) :
    IsHistory made { w with printed := lines } :=
  ⟨h.origin, h.rising, h.issued⟩

theorem append (h : IsHistory made w) {F : Frame} (hF : F.bindings = []) :
    IsHistory made (w.append F) :=
  ⟨Store.forall_has_append h.origin hF, h.rising, h.issued⟩

theorem bind (h : IsHistory made w) (i : FrameId) (x : String) {v : Value}
    (hv : v.HoldsOnly (IsMade made)) : IsHistory made { w with store := w.store.bind i x v } :=
  ⟨Store.forall_has_bind h.origin i x hv, h.rising, h.issued⟩

theorem update (h : IsHistory made w) (i : FrameId) (x : String) {v : Value}
    (hv : v.HoldsOnly (IsMade made)) : IsHistory made { w with store := w.store.update i x v } :=
  ⟨Store.forall_has_update h.origin i x hv, h.rising, h.issued⟩

theorem setOptions (h : IsHistory made w) (i : FrameId) (o : Options) :
    IsHistory made { w with store := w.store.setOptions i o } :=
  ⟨Store.forall_has_setOptions h.origin i o, h.rising, h.issued⟩

/-- An identity may also be handed out to something else than a closure. -/
theorem issue (h : IsHistory made w) : IsHistory made { w with issued := w.issued + 1 } :=
  ⟨h.origin, h.rising, fun m hm => Nat.lt_succ_of_lt (h.issued m hm)⟩

/-- A closure is made with the next identity. -/
theorem make (h : IsHistory made w) {k : Closure} (hk : k.id = w.issued) :
    IsHistory (made ++ [⟨w, k⟩]) { w with issued := w.issued + 1 } where
  origin c hc := (h.origin c hc).of_subset (List.subset_append_left _ _)
  rising := by
    refine List.pairwise_append.mpr ⟨h.rising, List.pairwise_singleton _ _, fun m hm m' hm' => ?_⟩
    rw [List.mem_singleton.mp hm', hk]
    exact h.issued m hm
  issued m hm := by
    obtain hm | hm := List.mem_append.mp hm
    · exact Nat.lt_succ_of_lt (h.issued m hm)
    · rw [List.mem_singleton.mp hm, hk]
      exact Nat.lt_succ_self _

/-- The closures in the frames have identities that have been handed out. -/
theorem id_lt_of_has (h : IsHistory made w) {c : Closure} (hc : w.store.Has c) :
    c.id < w.issued := by
  obtain ⟨m, hm, rfl⟩ := h.origin c hc
  exact h.issued m hm

end IsHistory

/-! ### Expressions -/

/-- Expressions make no closures, and meet those that have been made. -/
def Invariant.history (made : List Making) : Invariant where
  holds := IsHistory made
  scope _ _ := True
  closures := IsMade made
  grows _ _ := True
  grows_refl _ := trivial
  grows_trans _ _ := trivial
  scope_grows _ _ := trivial
  lookup hw _ hx c hc := hw.origin c (Store.has_of_lookup? hx hc)
  enter := by
    rintro x k vs f w hw - hk hvs -
    have hends := enterCall_ends (f := f) (x := x) (k := k) hw (hw.append rfl)
      (fun i _ b hb v hv _ => hv.bind i b.1 (hvs b.2 (List.of_mem_zip hb).2))
      fun v r hv => hv.noted r
    exact hends.mono (fun h => ⟨h.1, trivial, trivial⟩) fun h => ⟨h, trivial⟩

section Expressions

variable {made : List Making} {w : World}

/-- Expressions keep every history, and their values hold what was made before. -/
theorem eval_isHistory (h : IsHistory made w) (levels : Nat) (n : Node) (f : FrameId) :
    Run.Ends (eval levels n f w) (fun a v => a.HoldsOnly (IsMade made) ∧ IsHistory made v)
      (IsHistory made) :=
  ((Invariant.history made).eval_keeps levels n h trivial).mono (fun h => ⟨h.1, h.2.1⟩)
    fun h => h.1

end Expressions

/-! ### The closures that a statement makes -/

namespace Run

variable {α : Type}

/-- The closure that a declaration makes; one that is refused makes nothing. -/
def making (x : Run Closure) (w : World) : List Making :=
  match x w with
  | .ok c _ => [{ world := w, closure := c }]
  | .error _ _ => []

/-- What is made after an action, given its result and the world that it leaves. An action that halts
is the last one. -/
def thenMakes (x : Run α) (next : α → World → List Making) (w : World) : List Making :=
  match x w with
  | .ok a v => next a v
  | .error _ _ => []

theorem mem_making_iff {x : Run Closure} {w : World} {m : Making} :
    m ∈ x.making w ↔ ∃ k v, x w = .ok k v ∧ m = { world := w, closure := k } := by
  unfold making
  cases x w <;> simp

theorem thenMakes_of_ok {x : Run α} {next : α → World → List Making} {w v : World} {a : α}
    (h : x w = .ok a v) : x.thenMakes next w = next a v := by
  rw [thenMakes, h]

theorem mem_thenMakes_iff {x : Run α} {next : α → World → List Making} {w : World} {m : Making} :
    m ∈ x.thenMakes next w ↔ ∃ a v, x w = .ok a v ∧ m ∈ next a v := by
  unfold thenMakes
  cases x w <;> simp

end Run

/-- Lists the closures that are made by the execution of a node in a frame. -/
abbrev Lister := Node → FrameId → World → List Making

/-- The closures that statements in order make. -/
def makingsAll (inside : Lister) (exec : Executor) (f : FrameId) : List Node → World → List Making
  | [], _ => []
  | n :: ns, w => inside n f w ++ (exec n f).thenMakes (fun _ => makingsAll inside exec f ns) w

/-- The closures that the statements of a block make. -/
def makingsBlock (inside : Lister) (exec : Executor) (f : FrameId) (n : Node) :
    World → List Making :=
  if n.label? = some StatementForm.block.label then makingsAll inside exec f n.children
  else fun _ => []

/-- The closure that the declaration of a function makes. -/
def makingsFunction (f : FrameId) : List Node → World → List Making
  | [nameNode, parametersNode, body] =>
    (Run.check (Check.identifier "Function name" nameNode)).thenMakes fun name =>
      (Run.check (Check.parameters parametersNode)).thenMakes fun parameters =>
        (Run.declareFunction f name parameters body).making
  | _ => fun _ => []

/-- The closures that the passes of a loop make. -/
def makingsLoop (inside : World → List Making) (test : Run Bool) (body : Run Unit) :
    (passes : Nat) → World → List Making
  | 0 => fun _ => []
  | passes + 1 => test.thenMakes fun again w =>
    if again then inside w ++ body.thenMakes (fun _ => makingsLoop inside test body passes) w else []

/-- The closures that a tree of a known form makes, given its children and what its parts make. -/
def makingsForm (passes : Nat) (parts : StatementParts) (inside : StatementRole → Lister)
    (f : FrameId) : StatementForm → List Node → World → List Making
  | .program, [body] => makingsBlock (inside .outermost) parts.outermost f body
  | .block, ns => makingsAll (inside .statement) parts.statement f ns
  | .function, ns => makingsFunction f ns
  | .loop, [test, body] =>
    makingsLoop (inside .statement body f) (evalTest parts.expression f test)
      (parts.statement body f) passes
  | _, _ => fun _ => []

/-- The closures that one statement makes, given what its parts make. -/
def makingsNode (passes : Nat) (parts : StatementParts) (inside : StatementRole → Lister) : Lister
  | .tree label children _, f =>
    match StatementForm.ofLabel? label with
    | some form => makingsForm passes parts inside f form children
    | none => fun _ => []
  | _, _ => fun _ => []

/-- The closures that the execution of a statement makes, in order, up to where it halts. -/
def makings (passes : Nat) : (levels : Nat) → Lister
  | levels + 4, n, f =>
    makingsNode passes (.below passes levels)
      (fun
        | .statement => makings passes (levels + 1)
        | .outermost => makings passes levels) n f
  | _, _, _ => fun _ => []

theorem makings_eq (passes levels : Nat) (n : Node) (f : FrameId) :
    makings passes (levels + 4) n f =
      makingsNode passes (.below passes levels) (fun r => makings passes (levels + 4 - r.levels))
        n f := by
  rw [makings]
  congr 1
  funext r
  cases r <;> rfl

/-! ### Statements -/

/-- However the action ends, what was made before and what is listed in `news` are a history of the
world that it leaves. -/
def Run.IsListedBy {α : Type} (x : Run α) (news : World → List Making) : Prop :=
  ∀ (made : List Making) (w : World), IsHistory made w → IsHistory (made ++ news w) (x.after w)

namespace Run.IsListedBy

variable {α β : Type} {x : Run α} {g : α → Run β} {news : World → List Making}
  {next : α → World → List Making}

/-- An action that keeps every history makes nothing. -/
theorem of_ends (h : ∀ made w, IsHistory made w →
    Run.Ends (x w) (fun _ => IsHistory made) (IsHistory made)) : x.IsListedBy fun _ => [] := by
  intro made w hw
  rw [List.append_nil]
  exact (h made w hw).after

theorem bind (hx : x.IsListedBy news) (hg : ∀ a, (g a).IsListedBy (next a)) :
    (x >>= g).IsListedBy fun w => news w ++ x.thenMakes next w := by
  intro made w hw
  have hfirst := hx made w hw
  unfold Run.after at hfirst ⊢
  unfold Run.thenMakes
  rw [Run.bind_apply, ← List.append_assoc]
  cases h : x w with
  | ok a v =>
    rw [h] at hfirst
    exact hg a _ v hfirst
  | error k v =>
    rw [h] at hfirst
    rw [List.append_nil]
    exact hfirst

/-- An action that makes nothing leaves the list to the rest. -/
theorem silent_bind (hx : x.IsListedBy fun _ => []) (hg : ∀ a, (g a).IsListedBy (next a)) :
    (x >>= g).IsListedBy (x.thenMakes next) :=
  hx.bind hg

/-- What follows may make nothing, too. -/
theorem bind_silent (hx : x.IsListedBy news) (hg : ∀ a, (g a).IsListedBy fun _ => []) :
    (x >>= g).IsListedBy news := by
  have hnothing (w : World) : x.thenMakes (fun _ _ => []) w = [] := by
    unfold Run.thenMakes
    split <;> rfl
  intro made w hw
  have h := hx.bind hg made w hw
  simpa only [hnothing, List.append_nil] using h

/-- The action has a result. -/
theorem of_ok (hx : x.IsListedBy news) {made : List Making} {w v : World} (hw : IsHistory made w)
    {a : α} (h : x w = .ok a v) : IsHistory (made ++ news w) v := by
  have hafter := hx made w hw
  rw [Run.after, h] at hafter
  exact hafter

theorem within (hx : x.IsListedBy news) (n : Node) : (Run.within n x).IsListedBy news := by
  intro made w hw
  rw [Run.after_within]
  exact hx made w hw

theorem halt (h : Halt) : (throw h : Run α).IsListedBy fun _ => [] := of_ends fun _ _ hw => hw

theorem fail (c : Cause) : (Run.fail c : Run α).IsListedBy fun _ => [] := of_ends fun _ _ hw => hw

theorem pure (a : α) : (Pure.pure a : Run α).IsListedBy fun _ => [] := of_ends fun _ _ hw => hw

theorem check (r : Except Cause α) : (Run.check r).IsListedBy fun _ => [] :=
  of_ends fun _ _ hw => (Run.ends_check hw).mono (fun h => h.2 ▸ hw) id

theorem note (r : Record) : (Run.note r).IsListedBy fun _ => [] := of_ends fun _ _ hw => hw.noted r

end Run.IsListedBy

open Run (IsListedBy)

/-- The declaration of a function makes a closure, unless it is refused. -/
theorem declareFunction_isListedBy (f : FrameId) (x : String) (ps : List String) (body : Node) :
    (Run.declareFunction f x ps body).IsListedBy (Run.declareFunction f x ps body).making := by
  intro made w hw
  unfold Run.after Run.making
  rw [Run.declareFunction_apply]
  by_cases hbinds : w.store.binds f x
  · simp only [if_pos hbinds, List.append_nil]
    exact hw
  · simp only [if_neg hbinds]
    have hmade := hw.make (k := ⟨w.issued, ps, body, some f⟩) rfl
    refine hmade.bind f x fun c hc => ?_
    exact ⟨_, List.mem_append_right _ List.mem_cons_self, (List.mem_singleton.mp hc).symm⟩

section Statements

variable {passes levels : Nat} {f : FrameId}

theorem execFunction_isListedBy (ns : List Node) :
    (execFunction f ns).IsListedBy (makingsFunction f ns) := by
  match ns with
  | [nameNode, parametersNode, body] =>
    refine (IsListedBy.check _).silent_bind fun name => ?_
    refine (IsListedBy.check _).silent_bind fun parameters => ?_
    exact (declareFunction_isListedBy f name parameters body).bind_silent fun _ => .note _
  | [] | [_] | [_, _] | _ :: _ :: _ :: _ :: _ => exact .fail _

theorem execDeclaration_isListedBy (ns : List Node) :
    (execDeclaration (eval levels) f ns).IsListedBy fun _ => [] := by
  match ns with
  | [nameNode, init] =>
    refine (IsListedBy.check _).bind_silent fun name => .of_ends fun _ _ hw => ?_
    refine (eval_isHistory hw levels init f).bind fun a v ⟨ha, hv⟩ => ?_
    by_cases hbinds : v.store.binds f name
    · rw [Run.bind_apply, Run.declare_apply, if_pos hbinds]
      exact hv
    · rw [Run.bind_apply, Run.declare_apply, if_neg hbinds]
      exact (hv.bind f name ha).noted _
  | [] | [_] | _ :: _ :: _ :: _ => exact .fail _

theorem execAssignment_isListedBy (ns : List Node) :
    (execAssignment (eval levels) f ns).IsListedBy fun _ => [] := by
  match ns with
  | [nameNode, value] =>
    refine (IsListedBy.check _).bind_silent fun name => .of_ends fun _ _ hw => ?_
    refine (eval_isHistory hw levels value f).bind fun a v ⟨ha, hv⟩ => ?_
    rw [Run.assign_apply]
    split
    · exact hv.update _ name ha
    · exact hv
  | [] | [_] | _ :: _ :: _ :: _ => exact .fail _

theorem execPrint_isListedBy (depth : Nat) (ns : List Node) :
    (execPrint depth (eval levels) f ns).IsListedBy fun _ => [] := by
  match ns with
  | [value] =>
    refine .of_ends fun _ _ hw => ?_
    refine (eval_isHistory hw levels value f).bind fun a v ⟨_, hv⟩ => ?_
    refine (Run.ends_checkWithin hv).bind fun line u hu => ?_
    exact (hu.2 ▸ hv : IsHistory _ u).printed _
  | [] | _ :: _ :: _ => exact .fail _

theorem evalTest_isListedBy (levels : Nat) (test : Node) (f : FrameId) :
    (evalTest (eval levels) f test).IsListedBy fun _ => [] := by
  refine .of_ends fun _ _ hw => (eval_isHistory hw levels test f).bind fun a v ⟨_, hv⟩ => ?_
  exact (Run.ends_check hv).mono (fun h => h.2 ▸ hv) id

theorem execAll_isListedBy {exec : Executor} {inside : Lister}
    (hinside : ∀ n, (exec n f).IsListedBy (inside n f)) (ns : List Node) :
    (execAll exec f ns).IsListedBy (makingsAll inside exec f ns) := by
  induction ns with
  | nil => exact .pure ()
  | cons n ns ih => exact (hinside n).bind fun _ => ih

theorem execBlock_isListedBy {exec : Executor} {inside : Lister}
    (hinside : ∀ n, (exec n f).IsListedBy (inside n f)) (n : Node) :
    (execBlock exec f n).IsListedBy (makingsBlock inside exec f n) := by
  unfold execBlock makingsBlock
  split
  · exact execAll_isListedBy hinside n.children
  · exact .fail _

theorem repeatWhile_isListedBy {test : Run Bool} {body : Run Unit} {inside : World → List Making}
    (htest : test.IsListedBy fun _ => []) (hbody : body.IsListedBy inside) (passes done : Nat) :
    (repeatWhile test body passes done).IsListedBy (makingsLoop inside test body passes) := by
  induction passes generalizing done with
  | zero => exact .halt _
  | succ passes ih =>
    refine htest.silent_bind fun again => ?_
    cases again with
    | false => exact .pure done
    | true => exact hbody.bind fun _ => ih (done + 1)

variable {inside : StatementRole → Lister}
  (hinside : ∀ r n, ((StatementParts.below passes levels).executor r n f).IsListedBy (inside r n f))

include hinside

theorem execForm_isListedBy (form : StatementForm) (ns : List Node) :
    (execForm passes (.below passes levels) f form ns).IsListedBy
      (makingsForm passes (.below passes levels) inside f form ns) := by
  cases form with
  | declaration => exact execDeclaration_isListedBy ns
  | assignment => exact execAssignment_isListedBy ns
  | print => exact execPrint_isListedBy _ ns
  | function => exact execFunction_isListedBy ns
  | block => exact execAll_isListedBy (hinside .statement) ns
  | program =>
    match ns with
    | [body] => exact execBlock_isListedBy (hinside .outermost) body
    | [] | _ :: _ :: _ => exact .fail _
  | loop =>
    match ns with
    | [test, body] =>
      have htest := evalTest_isListedBy (levels + 1) test f
      exact (repeatWhile_isListedBy htest (hinside .statement body) passes 0).bind_silent
        fun done => .note _
    | [] | [_] | _ :: _ :: _ :: _ => exact .fail _

theorem execNode_isListedBy (n : Node) :
    (execNode passes (.below passes levels) n f).IsListedBy
      (makingsNode passes (.below passes levels) inside n f) := by
  cases n with
  | tree label children m =>
    cases hlabel : StatementForm.ofLabel? label with
    | some form =>
      simp only [execNode, makingsNode, hlabel]
      exact execForm_isListedBy hinside form children
    | none =>
      simp only [execNode, makingsNode, hlabel]
      exact .fail _
  | hollow label m =>
    cases hlabel : StatementForm.ofLabel? label with
    | some form =>
      simp only [execNode, makingsNode, hlabel]
      cases form with
      | block => exact .pure ()
      | program | declaration | function | assignment | print | loop => exact .halt _
    | none =>
      simp only [execNode, makingsNode, hlabel]
      exact .fail _
  | token | improper | plain | list => exact .fail _

omit hinside

/-- What was made before a statement and what it makes are a history of the world that it leaves. -/
theorem exec_isListedBy (passes levels : Nat) (n : Node) (f : FrameId) :
    (exec passes levels n f).IsListedBy (makings passes levels n f) := by
  induction levels using Nat.strongRecOn generalizing n with
  | _ levels ih =>
    match levels with
    | levels + 4 =>
      rw [exec_eq_within, makings_eq]
      refine (execNode_isListedBy (fun r n => ?_) n).within n
      rw [StatementParts.executor_below]
      exact ih _ (by cases r <;> simp only [StatementRole.levels] <;> omega) n
    -- With too few levels nothing is executed.
    | 0 | 1 | 2 | 3 => exact .halt _

end Statements

end Bella
