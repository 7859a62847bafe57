import Bella.Proofs.Confinement
import Bella.Proofs.Grammar
import Bella.Proofs.Growth
import Bella.Proofs.LexicalRegion
import Mathlib.Data.Nat.Find

/-!
# Parameters up to the first collision

A call binds its parameters in order, each with its argument, and it stops at the first one that
collides: with a name that is bound there already, or with an earlier parameter. The body is then
not evaluated, and what was bound before stays bound. Under flat scoping that is in the frame of the
declaration, which others share; under lexical scoping it is in the new frame of the call, which
nothing refers to.

If no parameter collides, the body finds all of them bound. Under flat scoping they stay bound after
the call, however the body ends. A function whose parameters are repeated can be declared like any
other, and none of its calls comes to its body.

## Main definitions

* `Bella.CollidesAt`, `Bella.FirstCollision`: names that cannot be bound after those before them.
* `Bella.Frame.taking`: a frame with further bindings.
* `Bella.CallTarget`, `Bella.Closure.Taken`: the frame in which a call binds its parameters, and the
  names that are bound there already.
* `Bella.World.Takes`: a world in which one frame has further bindings.
* `Bella.World.Supports`: a world in which a closure can be called from a frame.

## Main results

* `Bella.Frame.bindAll_of_firstCollision`, `Bella.Frame.bindAll_of_not_collidesAt`: what a frame
  takes in.
* `Bella.CallTarget.callClosure_of_firstCollision`,
  `Bella.CallTarget.callClosure_of_not_collidesAt`: what a call does with its parameters.
* `Bella.Store.lt_of_reachable`: old frames do not lead to new ones.
* `Bella.parameters_bound_up_to_collision`: all of it, for any call.
-/

namespace Bella

/-! ### Collisions -/

/-- The name in place `k` is taken, or it stands in an earlier place, too. -/
def CollidesAt (taken : String → Prop) (names : List String) (k : Nat) : Prop :=
  ∃ x, names[k]? = some x ∧ (taken x ∨ x ∈ names.take k)

/-- The name `x` in place `k` collides, and no name before it does. -/
structure FirstCollision (taken : String → Prop) (names : List String) (k : Nat) (x : String) :
    Prop where
  name : names[k]? = some x
  collides : taken x ∨ x ∈ names.take k
  least : ∀ j, j < k → ¬ CollidesAt taken names j

theorem collidesAt_zero {taken : String → Prop} {y : String} {names : List String} :
    CollidesAt taken (y :: names) 0 ↔ taken y := by
  simp [CollidesAt]

/-- Behind a name, this name counts as taken. -/
theorem collidesAt_succ {taken taken' : String → Prop} {y : String}
    (htaken : ∀ x, taken' x ↔ taken x ∨ x = y) {names : List String} {k : Nat} :
    CollidesAt taken (y :: names) (k + 1) ↔ CollidesAt taken' names k := by
  simp only [CollidesAt, List.getElem?_cons_succ, List.take_succ_cons, List.mem_cons, htaken,
    or_assoc]

theorem FirstCollision.tail {taken taken' : String → Prop} {y : String}
    (htaken : ∀ x, taken' x ↔ taken x ∨ x = y) {names : List String} {k : Nat} {x : String}
    (h : FirstCollision taken (y :: names) (k + 1) x) : FirstCollision taken' names k x := by
  obtain ⟨x', hx', hcollides⟩ := (collidesAt_succ htaken).mp ⟨x, h.name, h.collides⟩
  obtain rfl : x = x' := Option.some.inj (h.name.symm.trans hx')
  exact ⟨h.name, hcollides, fun j hj hat =>
    h.least (j + 1) (Nat.succ_lt_succ hj) ((collidesAt_succ htaken).mpr hat)⟩

/-- Names of which none collides are different from one another. -/
theorem nodup_of_not_collidesAt {taken : String → Prop} {names : List String}
    (h : ∀ k, ¬ CollidesAt taken names k) : names.Nodup := by
  induction names generalizing taken with
  | nil => exact List.nodup_nil
  | cons y names ih =>
    refine List.nodup_cons.mpr ⟨fun hy => ?_, ?_⟩
    · obtain ⟨k, hk⟩ := List.mem_iff_getElem?.mp hy
      exact h (k + 1) ⟨y, hk, .inr List.mem_cons_self⟩
    · refine @ih (fun x => taken x ∨ x = y) fun k hk => h (k + 1) ?_
      exact (collidesAt_succ fun _ => Iff.rfl).mpr hk

/-- If a name collides, there is a first one that does. -/
theorem CollidesAt.exists_firstCollision {taken : String → Prop} {names : List String} {k : Nat}
    (h : CollidesAt taken names k) : ∃ j x, FirstCollision taken names j x := by
  have hsome : ∃ k, CollidesAt taken names k := ⟨k, h⟩
  classical
  obtain ⟨x, hname, hcollides⟩ := Nat.find_spec hsome
  exact ⟨Nat.find hsome, x, hname, hcollides, fun j hj => Nat.find_min hsome hj⟩

/-- If a name is repeated, there is a first collision. -/
theorem exists_firstCollision (taken : String → Prop) {names : List String}
    (hrepeated : ¬ names.Nodup) : ∃ k x, FirstCollision taken names k x := by
  have hsome : ∃ k, CollidesAt taken names k := by
    by_contra hnone
    exact hrepeated (nodup_of_not_collidesAt (not_exists.mp hnone))
  exact hsome.elim fun _ h => h.exists_firstCollision

/-! ### What a frame takes in -/

namespace Frame

/-- The frame with further bindings, the last one in front. -/
def taking (F : Frame) (bs : List (String × Value)) : Frame :=
  { F with bindings := bs.reverse ++ F.bindings }

theorem taking_cons (F : Frame) (x : String) (v : Value) (bs : List (String × Value)) :
    F.taking ((x, v) :: bs) = (F.bind x v).taking bs := by
  simp [taking, bind]

theorem binds_bind_iff (F : Frame) (y : String) (v : Value) (x : String) :
    (F.bind y v).binds x = true ↔ F.binds x = true ∨ x = y := by
  rw [binds_eq_isSome_get?, get?_bind, binds_eq_isSome_get?]
  by_cases hxy : y = x
  · simp [hxy]
  · simp [hxy, Ne.symm hxy]

/-- A frame takes in names up to the first one that collides. -/
theorem bindAll_of_firstCollision {F : Frame} {bs : List (String × Value)} {k : Nat} {x : String}
    (h : FirstCollision (fun y => F.binds y = true) (bs.map Prod.fst) k x) :
    F.bindAll bs = (F.taking (bs.take k), some x) := by
  induction bs generalizing F k with
  | nil => cases h.name
  | cons b bs ih =>
    obtain ⟨y, v⟩ := b
    rw [bindAll_cons]
    cases k with
    | zero =>
      obtain rfl : y = x := Option.some.inj h.name
      have hy : F.binds y = true := h.collides.resolve_right List.not_mem_nil
      rw [if_pos hy]
      rfl
    | succ k =>
      have hy : ¬ F.binds y = true := fun hy => h.least 0 k.succ_pos (collidesAt_zero.mpr hy)
      rw [if_neg hy, ih (h.tail (F.binds_bind_iff y v)), List.take_succ_cons, taking_cons]

/-- A frame takes in all names if none collides. -/
theorem bindAll_of_not_collidesAt {F : Frame} {bs : List (String × Value)}
    (h : ∀ k, ¬ CollidesAt (fun y => F.binds y = true) (bs.map Prod.fst) k) :
    F.bindAll bs = (F.taking bs, none) := by
  induction bs generalizing F with
  | nil => rfl
  | cons b bs ih =>
    obtain ⟨y, v⟩ := b
    have hy : ¬ F.binds y = true := fun hy => h 0 (collidesAt_zero.mpr hy)
    rw [bindAll_cons, if_neg hy, taking_cons]
    exact ih fun k hk => h (k + 1) ((collidesAt_succ (F.binds_bind_iff y v)).mpr hk)

/-- A frame has the values of all names that it takes in without collision. -/
theorem get?_of_mem_bindAll {F : Frame} {bs : List (String × Value)} (h : (F.bindAll bs).2 = none)
    {b : String × Value} (hb : b ∈ bs) : (F.bindAll bs).1.get? b.1 = some b.2 := by
  induction bs generalizing F with
  | nil => cases hb
  | cons b' bs ih =>
    obtain ⟨y, v⟩ := b'
    rw [bindAll_cons] at h ⊢
    split at h
    · cases h
    · rename_i hy
      rw [if_neg hy]
      obtain rfl | hb := List.mem_cons.mp hb
      · have hbinds : (F.bind y v).binds y = true := (F.binds_bind_iff y v y).mpr (.inr rfl)
        rw [get?_bindAll h, lookup_eq_none_of_bindAll h hbinds, Option.none_or, get?_bind,
          if_pos rfl]
      · exact ih h hb

end Frame

/-! ### Where parameters are bound -/

/-- The frame at the address `i`, which is `F` before the call, is where a call of the closure from
the given frame binds the parameters: the frame of the declaration, or a new one in front of it. -/
inductive CallTarget (name : String) (c : Closure) (caller : FrameId) (w : World) :
    FrameId → Frame → Prop
  | flat {F : Frame} (hscoping : (w.store.options caller).scoping = .flat)
      (hF : w.store.get? (c.home w.store caller) = some F) :
      CallTarget name c caller w (c.home w.store caller) F
  | lexical (hscoping : (w.store.options caller).scoping = .lexical) :
      CallTarget name c caller w w.store.next (Frame.ofCall w.store (c.home w.store caller) name)

/-- The names that a call cannot bind: those of the frame of the declaration under flat scoping, and
none under lexical scoping. -/
def Closure.Taken (c : Closure) (s : Store) (caller : FrameId) (x : String) : Prop :=
  (s.options caller).scoping = .flat ∧ s.binds (c.home s caller) x = true

/-- The world `v` is the world `w`, but for the frame at `i`, which is `F` with further bindings. -/
structure World.Takes (w : World) (i : FrameId) (F : Frame) (bs : List (String × Value))
    (v : World) : Prop where
  frame : v.store.get? i = some (F.taking bs)
  others : ∀ j, j ≠ i → v.store.get? j = w.store.get? j
  printed : v.printed = w.printed
  records : v.records = w.records
  issued : v.issued = w.issued

/-- There is one such world. -/
theorem World.Takes.unique {w v v' : World} {i : FrameId} {F : Frame} {bs : List (String × Value)}
    (h : w.Takes i F bs v) (h' : w.Takes i F bs v') : v = v' := by
  have hstore : v.store = v'.store := by
    refine Store.ext (Array.ext_getElem? fun j => ?_)
    by_cases hj : j = i
    · exact hj ▸ h.frame.trans h'.frame.symm
    · exact (h.others j hj).trans (h'.others j hj).symm
  obtain ⟨-, -, hprinted, hrecords, hissued⟩ := h
  obtain ⟨-, -, hprinted', hrecords', hissued'⟩ := h'
  obtain ⟨_, _, _, _⟩ := v
  obtain ⟨_, _, _, _⟩ := v'
  cases hstore
  cases hprinted.trans hprinted'.symm
  cases hrecords.trans hrecords'.symm
  cases hissued.trans hissued'.symm
  rfl

section Calls

variable {name : String} {c : Closure} {caller : FrameId} {w : World} {i : FrameId} {F : Frame}
  {arguments : List Value}

/-- The names that a call cannot bind are those that its target binds. -/
theorem CallTarget.taken_iff (h : CallTarget name c caller w i F) (x : String) :
    c.Taken w.store caller x ↔ F.binds x = true := by
  cases h with
  | flat hscoping hF => simp [Closure.Taken, hscoping, Store.binds, hF]
  | lexical hscoping => simp [Closure.Taken, hscoping, Frame.ofCall, Frame.binds]

theorem CallTarget.eq_next (h : CallTarget name c caller w i F)
    (hscoping : (w.store.options caller).scoping = .lexical) : i = w.store.next := by
  cases h with
  | flat hflat => cases hflat.symm.trans hscoping
  | lexical => rfl

/-- A call binds parameters in its target, and then fails or evaluates the body there. -/
theorem CallTarget.callClosure_eq (h : CallTarget name c caller w i F)
    (hlength : arguments.length = c.parameters.length) {bs : List (String × Value)}
    {collision : Option String}
    (hbind : F.bindAll (c.parameters.zip arguments) = (F.taking bs, collision)) :
    ∃ v, w.Takes i F bs v ∧ ∀ evaluate : Evaluator,
      callClosure evaluate name c arguments caller w =
        collision.elim
          (evaluate c.body i
            (v.noted (.called name c.parameters (w.store.options caller).scoping)))
          fun x => .error (.error { cause := .alreadyDeclared x .variable }) v := by
  cases h with
  | flat hscoping hF =>
    refine ⟨w.replace (c.home w.store caller) (F.taking bs),
      ⟨?_, fun j hj => ?_, rfl, rfl, rfl⟩, fun evaluate => ?_⟩
    · simp [World.replace, Store.get?_replace, hF]
    · simp [World.replace, Store.get?_replace, hj.symm]
    · rw [callClosure_flat hlength hscoping rfl hF, hbind, hscoping]
      cases collision <;> rfl
  | lexical hscoping =>
    generalize hE : Frame.ofCall w.store (c.home w.store caller) name = E at hbind ⊢
    refine ⟨w.append (E.taking bs), ⟨?_, fun j hj => ?_, rfl, rfl, rfl⟩, fun evaluate => ?_⟩
    · simp [World.append, Store.get?_append]
    · simp [World.append, Store.get?_append, hj]
    · rw [callClosure_lexical hlength hscoping hE, hbind, hscoping]
      cases collision <;> rfl

/-- A call whose parameters collide fails at the first one that does, and evaluates nothing. -/
theorem CallTarget.callClosure_of_firstCollision (h : CallTarget name c caller w i F)
    (hlength : arguments.length = c.parameters.length) {k : Nat} {x : String}
    (hfirst : FirstCollision (c.Taken w.store caller) c.parameters k x) :
    ∃ v, w.Takes i F ((c.parameters.zip arguments).take k) v ∧ ∀ evaluate : Evaluator,
      callClosure evaluate name c arguments caller w =
        .error (.error { cause := .alreadyDeclared x .variable }) v := by
  rw [funext fun x => propext (h.taken_iff x), ← List.map_fst_zip hlength.ge] at hfirst
  exact h.callClosure_eq hlength (Frame.bindAll_of_firstCollision hfirst)

/-- A call whose parameters do not collide evaluates the body where all of them are bound. -/
theorem CallTarget.callClosure_of_not_collidesAt (h : CallTarget name c caller w i F)
    (hlength : arguments.length = c.parameters.length)
    (hnone : ∀ k, ¬ CollidesAt (c.Taken w.store caller) c.parameters k) :
    ∃ v, w.Takes i F (c.parameters.zip arguments) v ∧
      (∀ b ∈ c.parameters.zip arguments, v.store.own? i b.1 = some b.2) ∧
      ∀ evaluate : Evaluator, callClosure evaluate name c arguments caller w =
        evaluate c.body i
          (v.noted (.called name c.parameters (w.store.options caller).scoping)) := by
  rw [funext fun x => propext (h.taken_iff x), ← List.map_fst_zip hlength.ge] at hnone
  have hbind := Frame.bindAll_of_not_collidesAt hnone
  obtain ⟨v, hv, hcall⟩ := h.callClosure_eq hlength hbind
  refine ⟨v, hv, fun b hb => ?_, hcall⟩
  have hvalue := Frame.get?_of_mem_bindAll (congrArg Prod.snd hbind) hb
  rw [Store.own?_of_get? hv.frame, ← hvalue, hbind]

/-- A call of a function with a repeated parameter fails. -/
theorem CallTarget.callClosure_of_repeated (h : CallTarget name c caller w i F)
    (hlength : arguments.length = c.parameters.length) (hrepeated : ¬ c.parameters.Nodup)
    (evaluate : Evaluator) :
    ∃ e v, callClosure evaluate name c arguments caller w = .error (.error e) v ∧
      e.kind = .duplicateBinding := by
  obtain ⟨k, x, hfirst⟩ := exists_firstCollision (c.Taken w.store caller) hrepeated
  obtain ⟨v, -, hcall⟩ := h.callClosure_of_firstCollision hlength hfirst
  exact ⟨_, v, hcall evaluate, rfl⟩

end Calls

/-! ### Worlds in which a closure can be called -/

/-- Parents are older than their children, the closures in all frames refer to frames that are there,
and so does the given closure; the caller is there, too. -/
structure World.Supports (w : World) (c : Closure) (caller : FrameId) : Prop where
  ordered : w.store.IsOrdered
  refers : w.store.RefersBelow w.store.next
  closure : c.RefersBelow w.store.next
  caller : caller < w.store.next

theorem World.Supports.exists_target {w : World} {c : Closure} {caller : FrameId}
    (h : w.Supports c caller) (name : String) : ∃ i F, CallTarget name c caller w i F := by
  have hhome := h.closure.home_lt h.ordered h.caller
  cases hscoping : (w.store.options caller).scoping with
  | flat => exact ⟨_, _, .flat hscoping (Array.getElem?_eq_getElem hhome)⟩
  | lexical => exact ⟨_, _, .lexical hscoping⟩

/-- Frames that were there lead to no frame that is made since. -/
theorem Store.lt_of_reachable {s t : Store} (hordered : s.IsOrdered)
    (hrefers : s.RefersBelow s.next) (hsame : ∀ j, j < s.next → t.get? j = s.get? j)
    {i j : FrameId} (hi : i < s.next) (h : t.Reachable i j) : j < s.next := by
  induction h with
  | refl => exact hi
  | parent _ hget hparent ih =>
    rw [hsame _ ih] at hget
    exact Nat.lt_trans (hordered hget hparent) ih
  | home _ hget hx hc hframe ih =>
    rw [hsame _ ih] at hget
    exact hrefers _ _ _ _ hget hx _ hc _ hframe

/-- A function can be declared under a free name, whatever its parameters are. -/
theorem exec_function {passes levels : Nat} {x : String} {p : Position}
    {ps : List (String × Position)} {body : Node} {m' m : Mark} {f : FrameId} {w : World}
    (hf : f < w.store.next) (hx : w.store.binds f x = false) :
    ∃ d v, exec passes (levels + 4) (.tree StatementForm.function.label
        [.token TokenForm.name.type x p, Node.parameterList ps m', body] m) f w = .ok () v ∧
      v.store.own? f x = some (.closure d) ∧ d.parameters = ps.map Prod.fst := by
  let d : Closure := { id := w.issued, parameters := ps.map Prod.fst, body, frame := some f }
  let v : World := { w with issued := w.issued + 1, store := w.store.bind f x (.closure d) }
  have hdeclared : Run.declareFunction f x (ps.map Prod.fst) body w = .ok d v := by
    rw [Run.declareFunction_apply, if_neg (Bool.eq_false_iff.mp hx)]
  have hrun : execFunction f [.token TokenForm.name.type x p, Node.parameterList ps m', body] w =
      .ok () (v.noted (.declaredFunction x (ps.map Prod.fst).length)) := by
    rw [execFunction, Run.check_identifier, pure_bind, Node.parameters_parameterList]
    exact Run.bind_eq_of_ok hdeclared
  refine ⟨d, _, Run.within_eq_ok_iff.mpr hrun, ?_, rfl⟩
  have hget : w.store.get? f = some w.store.frames[f] := Array.getElem?_eq_getElem hf
  exact (Store.own?_bind hget x (.closure d) f x).trans (if_pos ⟨rfl, rfl⟩)

/-- **Parameters are bound up to the first collision.** Take any closure, as many arguments as it has
parameters, and any caller in a world where nothing refers to a frame that is not there. Taken are
the names of the frame of the declaration if the caller's scoping is flat, and none if it is lexical.

If a parameter is taken or repeats an earlier one, then the call fails at the first such parameter
and evaluates nothing; its target has got the parameters before this one, with their arguments, and
all else is as it was. Under lexical scoping the target is new, and no other frame leads to it. If
there is no such parameter, then the body is evaluated in the target with all parameters bound;
under flat scoping they are bound there still when the call is over, however the body ends.

So every call of a closure with a repeated parameter fails, while a function can be declared under a
free name whatever its parameters are. -/
theorem parameters_bound_up_to_collision (name : String) (c : Closure) (arguments : List Value)
    (caller : FrameId) (w : World) (hlength : arguments.length = c.parameters.length)
    (hw : w.Supports c caller) :
    (∃ i F, CallTarget name c caller w i F ∧
      (∀ k x, FirstCollision (c.Taken w.store caller) c.parameters k x →
        ∃ v, w.Takes i F ((c.parameters.zip arguments).take k) v ∧
          (∀ evaluate : Evaluator, callClosure evaluate name c arguments caller w =
            .error (.error { cause := .alreadyDeclared x .variable }) v) ∧
          ((w.store.options caller).scoping = .lexical → ∀ j, j < w.store.next →
            v.store.get? j = w.store.get? j ∧ ¬ v.store.Reachable j i)) ∧
      ((∀ k, ¬ CollidesAt (c.Taken w.store caller) c.parameters k) →
        ∃ v, w.Takes i F (c.parameters.zip arguments) v ∧
          (∀ evaluate : Evaluator, callClosure evaluate name c arguments caller w =
            evaluate c.body i
              (v.noted (.called name c.parameters (w.store.options caller).scoping))) ∧
          ((w.store.options caller).scoping = .flat → ∀ levels, ∀ b ∈ c.parameters.zip arguments,
            ((callClosure (eval levels) name c arguments caller).after w).store.own? i b.1 =
              some b.2))) ∧
      (¬ c.parameters.Nodup → ∀ evaluate : Evaluator, ∃ e v,
        callClosure evaluate name c arguments caller w = .error (.error e) v ∧
          e.kind = .duplicateBinding) ∧
      ∀ passes levels x p ps body m' m f, f < w.store.next → w.store.binds f x = false →
        ∃ d v, exec passes (levels + 4) (.tree StatementForm.function.label
            [.token TokenForm.name.type x p, Node.parameterList ps m', body] m) f w = .ok () v ∧
          v.store.own? f x = some (.closure d) ∧ d.parameters = ps.map Prod.fst := by
  obtain ⟨i, F, htarget⟩ := hw.exists_target name
  refine ⟨⟨i, F, htarget, fun k x hfirst => ?_, fun hnone => ?_⟩,
    htarget.callClosure_of_repeated hlength, fun _ _ _ _ _ _ _ _ _ hf hx => exec_function hf hx⟩
  · obtain ⟨v, hv, hcall⟩ := htarget.callClosure_of_firstCollision hlength hfirst
    refine ⟨v, hv, hcall, fun hscoping j hj => ?_⟩
    obtain rfl : i = w.store.next := htarget.eq_next hscoping
    have hsame (j : FrameId) (hj : j < w.store.next) : v.store.get? j = w.store.get? j :=
      hv.others j (Nat.ne_of_lt hj)
    refine ⟨hsame j hj, fun hreachable => ?_⟩
    exact Nat.lt_irrefl _ (Store.lt_of_reachable hw.ordered hw.refers hsame hj hreachable)
  · obtain ⟨v, hv, hvalues, hcall⟩ := htarget.callClosure_of_not_collidesAt hlength hnone
    refine ⟨v, hv, hcall, fun _ levels b hb => ?_⟩
    rw [Run.after_congr (hcall (eval levels))]
    exact (eval_gains levels c.body i _).own? (hvalues b hb)

/-- A function of three parameters, the last of which repeats the first. -/
def repeatingClosure : Closure :=
  { id := 6, parameters := ["x", "y", "x"], body := .name "x", frame := some 0 }

/-- A frame that asks for flat scoping and binds the second parameter of a function; in front of it
stands a frame that asks for lexical scoping and binds the function. -/
def repeatingFrames : World where
  store.frames :=
    #[{ parent := none, label := "global", options := some { scoping := .flat },
        bindings := [("y", .boolean true)] },
      { parent := some 0, label := "inner", options := some { scoping := .lexical },
        bindings := [("f", .closure repeatingClosure)] }]

private theorem repeatingFrames_supports {caller : FrameId} (h : caller < 2) :
    repeatingFrames.Supports repeatingClosure caller where
  ordered := Store.IsOrdered.of_frames (by decide)
  refers := .of_frames (by decide)
  closure := by
    intro j hj
    cases hj
    decide
  caller := h

/-- Called from the outer frame, the function collides with the name that is bound there, and leaves
its first parameter behind. Called from the inner frame it collides with its own first parameter,
and leaves the frames as they were. -/
theorem parameters_bound_up_to_collision_of_repeatingFrames :
    (∃ v, (∀ evaluate : Evaluator,
        callClosure evaluate "f" repeatingClosure [.boolean true, .boolean false, .boolean true] 0
            repeatingFrames =
          .error (.error { cause := .alreadyDeclared "y" .variable }) v) ∧
      v.store.own? 0 "x" = some (.boolean true) ∧ v.store.own? 0 "y" = some (.boolean true)) ∧
      ∃ v, (∀ evaluate : Evaluator,
        callClosure evaluate "f" repeatingClosure [.boolean true, .boolean false, .boolean true] 1
            repeatingFrames =
          .error (.error { cause := .alreadyDeclared "x" .variable }) v) ∧
      ∀ j, j < 2 → v.store.get? j = repeatingFrames.store.get? j ∧ ¬ v.store.Reachable j 2 := by
  constructor
  · obtain ⟨⟨i, F, htarget, hcollision, -⟩, -⟩ := parameters_bound_up_to_collision "f"
      repeatingClosure [.boolean true, .boolean false, .boolean true] 0 repeatingFrames rfl
      (repeatingFrames_supports (by decide))
    have hfirst : FirstCollision (repeatingClosure.Taken repeatingFrames.store 0)
        repeatingClosure.parameters 1 "y" := by
      refine ⟨rfl, .inl ⟨rfl, rfl⟩, fun j hj hcollides => ?_⟩
      obtain rfl : j = 0 := by omega
      cases (collidesAt_zero.mp hcollides).2
    obtain ⟨v, htakes, hcall, -⟩ := hcollision 1 "y" hfirst
    refine ⟨v, hcall, ?_⟩
    cases htarget with
    | flat hscoping hF =>
      cases hF
      have hframe : v.store.get? 0 = _ := htakes.frame
      exact ⟨Store.own?_of_get? hframe "x", Store.own?_of_get? hframe "y"⟩
    | lexical hscoping => cases hscoping
  · obtain ⟨⟨i, F, htarget, hcollision, -⟩, -⟩ := parameters_bound_up_to_collision "f"
      repeatingClosure [.boolean true, .boolean false, .boolean true] 1 repeatingFrames rfl
      (repeatingFrames_supports (by decide))
    obtain rfl : i = 2 := htarget.eq_next rfl
    have hfirst : FirstCollision (repeatingClosure.Taken repeatingFrames.store 1)
        repeatingClosure.parameters 2 "x" := by
      refine ⟨rfl, .inr (by decide), fun j hj hcollides => ?_⟩
      obtain ⟨x, hx, ⟨hflat, -⟩ | hearlier⟩ := hcollides
      · cases hflat
      · match j, hj with
        | 0, _ => cases hearlier
        | 1, _ =>
          cases hx
          revert hearlier
          decide
    obtain ⟨v, -, hcall, hunreached⟩ := hcollision 2 "x" hfirst
    exact ⟨v, hcall, hunreached rfl⟩

end Bella
